/-
# The numbers that digits denote

A run of digits denotes a natural number, however long it is.  A number that is written in
decimal, and a byte that is written as two hexadecimal digits, is read back as itself:

* `number?`          : the number that a run of digits denotes;
* `isNumeral_iff`    : the runs that denote one are those that have the form of a numeral;
* `number?_toDigits` : the digits of a number in a base denote the number;
* `number?_decimal`, `number?_hexByte` : the two written forms of the library.

No digit is blank or a comma, so a numeral is always a single word and nothing of it can be
taken for layout.
-/
import SymbolicBytecode.Text.Numeral
import SymbolicBytecode.Text.Basic

namespace SymbolicBytecode.Text

/-! ## Digits -/

/-- The digit character of a number that the base has is a digit of that value. -/
theorem digitIn?_digitChar {base d : Nat} (hbase : base ≤ 16) (hd : d < base) :
    digitIn? base (Nat.digitChar d) = some d := by
  have hvalue : ∀ n < 16, digitValue? (Nat.digitChar n) = some n := by decide
  rw [digitIn?, hvalue d (by omega)]
  simpa using hd

/-- The upper-case digits have the same values. -/
theorem digitIn?_hexDigit {d : Nat} (hd : d < 16) : digitIn? 16 (hexDigit d) = some d := by
  have hvalue : ∀ n < 16, digitIn? 16 (hexDigit n) = some n := by decide
  exact hvalue d hd

/-- A digit is an ASCII digit or one of the first six letters. -/
theorem toNat_of_digitIn? {base : Nat} {c : Char} {d : Nat} (h : digitIn? base c = some d) :
    (48 ≤ c.toNat ∧ c.toNat ≤ 57) ∨ (65 ≤ c.toNat ∧ c.toNat ≤ 70) ∨
      (97 ≤ c.toNat ∧ c.toNat ≤ 102) := by
  have hvalue : digitValue? c = some d := (Option.filter_eq_some_iff.mp h).1
  unfold digitValue? at hvalue
  split at hvalue
  · rename_i hrange
    exact Or.inl hrange
  · split at hvalue
    · rename_i hrange
      exact Or.inr (Or.inr hrange)
    · split at hvalue
      · rename_i hrange
        exact Or.inr (Or.inl hrange)
      · exact nomatch hvalue

/-- No digit is blank. -/
theorem isBlank_of_digitIn? {base : Nat} {c : Char} {d : Nat} (h : digitIn? base c = some d) :
    isBlank c = false := by
  have hrange := toNat_of_digitIn? h
  simp only [isBlank, blankRanges, List.any_cons, List.any_nil, Bool.or_false,
    Bool.or_eq_false_iff, Bool.and_eq_false_iff, decide_eq_false_iff_not]
  omega

/-- No digit is a comma. -/
theorem ne_comma_of_digitIn? {base : Nat} {c : Char} {d : Nat} (h : digitIn? base c = some d) :
    c ≠ ',' := by
  rintro rfl
  have hrange := toNat_of_digitIn? h
  have hcomma : ','.toNat = 44 := rfl
  omega

/-! ## Numerals -/

/-- The number with the given digits, the most significant first. -/
def ofDigits (base : Nat) (digits : List Nat) : Nat :=
  digits.foldl (fun value digit => value * base + digit) 0

/-- The number that a run of digits denotes; an empty run denotes none. -/
def number? (base : Nat) (text : List Char) : Option Nat :=
  if text.isEmpty then none
  else (text.mapM (digitIn? base)).map (ofDigits base)

/-- One more digit at the end multiplies by the base and adds the digit. -/
theorem ofDigits_concat (base : Nat) (digits : List Nat) (d : Nat) :
    ofDigits base (digits ++ [d]) = ofDigits base digits * base + d := by
  simp [ofDigits, List.foldl_append]

/-- A numeral is a run of digits that is not empty. -/
theorem number?_eq_some_iff {base : Nat} {text : List Char} {n : Nat} :
    number? base text = some n ↔
      text ≠ [] ∧ ∃ digits, text.mapM (digitIn? base) = some digits ∧ ofDigits base digits = n := by
  unfold number?
  cases text with
  | nil => simp
  | cons c rest =>
    rw [if_neg (by simp), Option.map_eq_some_iff]
    simp only [ne_eq, reduceCtorEq, not_false_eq_true, true_and]

/-- The digits of a text are the digit in front and those of the rest. -/
theorem mapM_digitIn?_cons {base : Nat} {c : Char} {text : List Char} {digits : List Nat} :
    (c :: text).mapM (digitIn? base) = some digits ↔
      ∃ d rest, digitIn? base c = some d ∧ text.mapM (digitIn? base) = some rest ∧
        digits = d :: rest := by
  rw [List.mapM_cons]
  cases digitIn? base c with
  | none => simp
  | some d =>
    cases text.mapM (digitIn? base) with
    | none => simp
    | some rest => simp [eq_comm]

/-- Every character of a numeral is a digit. -/
theorem digitIn?_of_mem {base : Nat} {text : List Char} {n : Nat} {c : Char}
    (h : number? base text = some n) (hc : c ∈ text) : ∃ d, digitIn? base c = some d := by
  obtain ⟨-, digits, hdigits, -⟩ := number?_eq_some_iff.mp h
  clear h
  induction text generalizing digits with
  | nil => exact nomatch hc
  | cons c' text ih =>
    obtain ⟨d, rest, hd, hrest, -⟩ := mapM_digitIn?_cons.mp hdigits
    rcases List.mem_cons.mp hc with rfl | hmem
    · exact ⟨d, hd⟩
    · exact ih hmem rest hrest

/-- A text that is not empty and has only digits is a numeral. -/
theorem exists_number? {base : Nat} {text : List Char} (hne : text ≠ [])
    (h : ∀ c ∈ text, ∃ d, digitIn? base c = some d) : ∃ n, number? base text = some n := by
  have hdigits : ∃ digits, text.mapM (digitIn? base) = some digits := by
    clear hne
    induction text with
    | nil => exact ⟨[], rfl⟩
    | cons c text ih =>
      obtain ⟨d, hd⟩ := h c List.mem_cons_self
      obtain ⟨rest, hrest⟩ := ih fun c' hc' => h c' (List.mem_cons_of_mem c hc')
      exact ⟨d :: rest, mapM_digitIn?_cons.mpr ⟨d, rest, hd, hrest, rfl⟩⟩
  obtain ⟨digits, hdigits⟩ := hdigits
  exact ⟨ofDigits base digits, number?_eq_some_iff.mpr ⟨hne, digits, hdigits, rfl⟩⟩

/-- Just the texts that denote a number have the form of a numeral. -/
theorem isNumeral_iff {base : Nat} {text : List Char} :
    isNumeral base text = true ↔ ∃ n, number? base text = some n := by
  simp only [isNumeral, Bool.and_eq_true, Bool.not_eq_true', List.isEmpty_eq_false_iff,
    List.all_eq_true, Option.isSome_iff_exists]
  constructor
  · rintro ⟨hne, hall⟩
    exact exists_number? hne hall
  · rintro ⟨n, h⟩
    exact ⟨(number?_eq_some_iff.mp h).1, fun c hc => digitIn?_of_mem h hc⟩

/-- A single digit denotes its value. -/
theorem number?_singleton {base : Nat} {c : Char} {d : Nat} (h : digitIn? base c = some d) :
    number? base [c] = some d := by
  rw [number?_eq_some_iff]
  refine ⟨List.cons_ne_nil c [], [d], ?_, ?_⟩
  · simp [h]
  · simp [ofDigits]

/-- One more digit at the end of a numeral multiplies by the base and adds the digit. -/
theorem number?_concat {base : Nat} {text : List Char} {c : Char} {n d : Nat}
    (h : number? base text = some n) (hd : digitIn? base c = some d) :
    number? base (text ++ [c]) = some (n * base + d) := by
  obtain ⟨-, digits, hdigits, hvalue⟩ := number?_eq_some_iff.mp h
  rw [number?_eq_some_iff]
  refine ⟨List.concat_ne_nil c text, digits ++ [d], ?_, ?_⟩
  · simp [List.mapM_append, hdigits, hd]
  · rw [ofDigits_concat, hvalue]

/-- The digits of a number in a base denote the number. -/
theorem number?_toDigits {base : Nat} (hlower : 1 < base) (hupper : base ≤ 16) (n : Nat) :
    number? base (Nat.toDigits base n) = some n := by
  induction n using Nat.strongRecOn with
  | ind n ih =>
    by_cases hn : n < base
    · rw [Nat.toDigits_of_lt_base hn]
      exact number?_singleton (digitIn?_digitChar hupper hn)
    · -- the last digit is the remainder, the digits before it are those of the quotient
      have hquotient : n / base < n := Nat.div_lt_self (by omega) hlower
      have hremainder : n % base < base := Nat.mod_lt n (by omega)
      rw [Nat.toDigits_of_base_le hlower (by omega),
        number?_concat (ih (n / base) hquotient) (digitIn?_digitChar hupper hremainder),
        Nat.div_add_mod']

/-! ## The written forms -/

@[simp] theorem toList_decimal (n : Nat) : (decimal n).toList = Nat.toDigits 10 n :=
  String.toList_ofList

@[simp] theorem toList_hexByte (b : UInt8) :
    (hexByte b).toList = [hexDigit (b.toNat / 16), hexDigit (b.toNat % 16)] :=
  String.toList_ofList

/-- A number in decimal is read back. -/
theorem number?_decimal (n : Nat) : number? 10 (decimal n).toList = some n := by
  rw [toList_decimal]
  exact number?_toDigits (by decide) (by decide) n

/-- A byte in hexadecimal is read back. -/
theorem number?_hexByte (b : UInt8) : number? 16 (hexByte b).toList = some b.toNat := by
  have hb : b.toNat < 256 := b.toNat_lt
  have hhigh : digitIn? 16 (hexDigit (b.toNat / 16)) = some (b.toNat / 16) :=
    digitIn?_hexDigit (by omega)
  have hlow : digitIn? 16 (hexDigit (b.toNat % 16)) = some (b.toNat % 16) :=
    digitIn?_hexDigit (by omega)
  have hboth := number?_concat (number?_singleton hhigh) hlow
  rw [toList_hexByte]
  rwa [Nat.div_add_mod'] at hboth

end SymbolicBytecode.Text
