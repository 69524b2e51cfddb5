/-
# Words, letters and numerals by their rules

What the readers of texts find, said without computing it:

* `Spaced`     : a text is made of words with blanks around them, and `words` finds just these;
* `trim`       : the blanks at the ends of a text belong to no word;
* `SameLetter` : two characters differ at most in the case of an ASCII letter;
* `Capital`    : a character is the upper-case form of another;
* `Numeral`    : a run of digits denotes the number that the places of its digits give.
-/
import Mathlib.Data.List.DropRight
import Mathlib.Data.List.Forall2
import Mathlib.Data.List.Induction
import Mathlib.Data.Nat.Digits.Defs
import SymbolicBytecode.Text.Basic
import SymbolicBytecode.Proofs.Text.Numerals
import SymbolicBytecode.Proofs.Text.Separated

namespace SymbolicBytecode.Text

/-! ## Words as maximal runs -/

/-- A text is made of the given words.  Each of them is a maximal run of characters that are
not blank: it reaches from a blank or the start of the text to a blank or its end. -/
inductive Spaced : List Char → List (List Char) → Prop
  | nil : Spaced [] []
  | blank {c : Char} {text : List Char} {ws : List (List Char)} :
    isBlank c = true → Spaced text ws → Spaced (c :: text) ws
  /-- A word at the end of the text. -/
  | last {word : List Char} : IsWord word → Spaced word [word]
  /-- A word with a blank behind it. -/
  | word {word : List Char} {c : Char} {text : List Char} {ws : List (List Char)} :
    IsWord word → isBlank c = true → Spaced text ws → Spaced (word ++ c :: text) (word :: ws)

/-- Every text is made of words. -/
theorem exists_spaced (text : List Char) : ∃ ws, Spaced text ws := by
  induction text with
  | nil => exact ⟨[], .nil⟩
  | cons c text ih =>
    obtain ⟨ws, h⟩ := ih
    cases hc : isBlank c with
    | true => exact ⟨ws, .blank hc h⟩
    | false =>
      have hword : IsWord [c] := ⟨List.cons_ne_nil c [], by simpa using hc⟩
      -- the character belongs to the word behind it, or else it is a word of its own
      cases h with
      | nil => exact ⟨[[c]], .last hword⟩
      | blank hblank hrest => exact ⟨[c] :: ws, .word hword hblank hrest⟩
      | last hlast => exact ⟨_, .last (hword.append hlast.not_blank)⟩
      | word hfirst hblank hrest =>
        exact ⟨_, .word (hword.append hfirst.not_blank) hblank hrest⟩

/-- The words that a text is made of are found in it. -/
theorem words_of_spaced {text : List Char} {ws : List (List Char)} (h : Spaced text ws) :
    words text = ws := by
  induction h with
  | nil => rfl
  | blank hblank _ ih => rw [words_cons_blank hblank, ih]
  | last hword => exact words_eq_singleton hword.ne_nil hword.not_blank
  | word hword hblank _ ih =>
    rw [words_append_blank _ _ hblank, words_eq_singleton hword.ne_nil hword.not_blank, ih]
    rfl

/-- **The words of a text are its maximal runs** of characters that are not blank. -/
theorem words_eq_iff {text : List Char} {ws : List (List Char)} :
    words text = ws ↔ Spaced text ws := by
  constructor
  · rintro rfl
    obtain ⟨ws, h⟩ := exists_spaced text
    rwa [words_of_spaced h]
  · exact words_of_spaced

/-- A text without the blanks at its two ends. -/
def trim (text : List Char) : List Char :=
  (text.dropWhile isBlank).rdropWhile isBlank

theorem words_dropWhile (text : List Char) : words (text.dropWhile isBlank) = words text := by
  induction text with
  | nil => rfl
  | cons c text ih =>
    by_cases hc : isBlank c = true
    · rw [List.dropWhile_cons_of_pos hc, ih, words_cons_blank hc]
    · rw [List.dropWhile_cons_of_neg hc]

theorem words_rdropWhile (text : List Char) : words (text.rdropWhile isBlank) = words text := by
  induction text using List.reverseRecOn with
  | nil => rfl
  | append_singleton text c ih =>
    by_cases hc : isBlank c = true
    · rw [List.rdropWhile_concat_pos _ _ _ hc, ih, words_concat_blank text hc]
    · rw [List.rdropWhile_concat_neg _ _ _ hc]

/-- The blanks at the ends of a text belong to no word. -/
theorem words_trim (text : List Char) : words (trim text) = words text := by
  rw [trim, words_rdropWhile, words_dropWhile]

/-- A trimmed text starts with no blank. -/
theorem not_blank_of_trim {text rest : List Char} {c : Char} (h : trim text = c :: rest) :
    isBlank c = false := by
  obtain ⟨tail, htail⟩ := List.rdropWhile_prefix isBlank (text.dropWhile isBlank)
  have hstart : text.dropWhile isBlank = c :: (rest ++ tail) := by
    rw [← htail, ← trim, h, List.cons_append]
  have hnot := List.head?_dropWhile_not isBlank text
  rw [hstart] at hnot
  exact hnot

/-! ## Letters up to their case -/

/-- Two characters are the same but for the case of an ASCII letter. -/
def SameLetter (c c' : Char) : Prop :=
  c = c' ∨ ∃ k < 26, (c.toNat = 65 + k ∧ c'.toNat = 97 + k) ∨
    (c.toNat = 97 + k ∧ c'.toNat = 65 + k)

/-- The lower-case letters are moved to the upper-case ones, and nothing else is moved. -/
theorem toNat_toUpper (c : Char) :
    c.toUpper.toNat = if 97 ≤ c.toNat ∧ c.toNat ≤ 122 then c.toNat - 32 else c.toNat := by
  unfold Char.toUpper
  split
  · rename_i hlower
    have hrange : 97 ≤ c.toNat ∧ c.toNat ≤ 122 := hlower
    rw [if_pos hrange]
    show (c.val + ('A'.val - 'a'.val)).toNat = c.val.toNat - 32
    have hval : 97 ≤ c.val.toNat ∧ c.val.toNat ≤ 122 := hrange
    rw [UInt32.toNat_add]
    show (c.val.toNat + 4294967264) % 4294967296 = c.val.toNat - 32
    omega
  · rename_i hlower
    rw [if_neg]
    exact hlower

/-- Two characters are the same letter exactly if they have the same upper-case form. -/
theorem sameLetter_iff {c c' : Char} : SameLetter c c' ↔ c.toUpper = c'.toUpper := by
  rw [← Char.toNat_inj, toNat_toUpper, toNat_toUpper, SameLetter, ← Char.toNat_inj]
  constructor
  · rintro (h | ⟨k, hk, h | h⟩)
    · rw [h]
    · split <;> split <;> omega
    · split <;> split <;> omega
  · intro h
    by_cases heq : c.toNat = c'.toNat
    · exact Or.inl heq
    · -- just one of the two is a lower-case letter, and its place in the alphabet is `k`
      by_cases hlower : 97 ≤ c.toNat ∧ c.toNat ≤ 122
      · refine Or.inr ⟨c.toNat - 97, by omega, Or.inr ⟨by omega, ?_⟩⟩
        rw [if_pos hlower] at h
        split at h <;> omega
      · refine Or.inr ⟨c'.toNat - 97, ?_, Or.inl ?_⟩ <;> rw [if_neg hlower] at h <;>
          split at h <;> omega

/-- Elements that stand for the same values, one by one, have the same list of values. -/
theorem forall₂_iff_map_eq {α β γ : Type} {R : α → β → Prop} {f : α → γ} {g : β → γ}
    (h : ∀ x y, R x y ↔ f x = g y) {xs : List α} {ys : List β} :
    List.Forall₂ R xs ys ↔ xs.map f = ys.map g := by
  have hR : R = fun x y => f x = g y := by
    funext x y
    exact propext (h x y)
  rw [hR, ← List.forall₂_eq_eq_eq, List.forall₂_map_left_iff, List.forall₂_map_right_iff]

/-- Two texts have the same upper-case form exactly if they are the same letter by letter. -/
theorem map_toUpper_eq_iff {text text' : List Char} :
    text.map Char.toUpper = text'.map Char.toUpper ↔ List.Forall₂ SameLetter text text' :=
  (forall₂_iff_map_eq (R := SameLetter) fun _ _ => sameLetter_iff).symm

/-- The second character is the first in upper case: the same letter, and no lower-case one. -/
def Capital (c c' : Char) : Prop :=
  SameLetter c c' ∧ ¬ (97 ≤ c'.toNat ∧ c'.toNat ≤ 122)

/-- There is one upper-case form of a character. -/
theorem capital_iff {c c' : Char} : Capital c c' ↔ c.toUpper = c' := by
  rw [Capital, sameLetter_iff]
  constructor
  · rintro ⟨hsame, hlower⟩
    rw [hsame, ← Char.toNat_inj, toNat_toUpper, if_neg hlower]
  · rintro rfl
    have hlower : ¬ (97 ≤ c.toUpper.toNat ∧ c.toUpper.toNat ≤ 122) := by
      rw [toNat_toUpper]
      split <;> omega
    refine ⟨?_, hlower⟩
    rw [← Char.toNat_inj, toNat_toUpper c.toUpper, if_neg hlower]

/-- A text in upper case has the upper-case form of each of its characters. -/
theorem upperCase_eq_iff {text upper : String} :
    upperCase text = upper ↔ List.Forall₂ Capital text.toList upper.toList := by
  rw [← String.toList_inj, toList_upperCase,
    forall₂_iff_map_eq (R := Capital) (g := id) fun _ _ => capital_iff, List.map_id]

/-! ## Numerals by their places -/

/-- A character is the digit of a base with the given value, in either case. -/
def IsDigit (base : Nat) (c : Char) (d : Nat) : Prop :=
  d < base ∧ (c = Nat.digitChar d ∨ c = (Nat.digitChar d).toUpper)

/-- A run of digits that is not empty denotes the sum of its digits, each weighted by the power
of the base that belongs to its place. -/
def Numeral (base : Nat) (text : List Char) (n : Nat) : Prop :=
  text ≠ [] ∧ ∃ digits, List.Forall₂ (IsDigit base) text digits ∧
    Nat.ofDigits base digits.reverse = n

/-- A character with a digit value is the digit character of that value. -/
theorem eq_digitChar_of_digitValue? {c : Char} {d : Nat} (h : digitValue? c = some d) :
    c = Nat.digitChar d ∨ c = (Nat.digitChar d).toUpper := by
  have hlower : ∀ n < 16, (Nat.digitChar n).toNat = if n < 10 then 48 + n else 87 + n := by decide
  have hupper : ∀ n < 16, (Nat.digitChar n).toUpper.toNat = if n < 10 then 48 + n else 55 + n := by
    decide
  have hzero : '0'.toNat = 48 := rfl
  have hsmall : 'a'.toNat = 97 := rfl
  have hcapital : 'A'.toNat = 65 := rfl
  rw [← Char.toNat_inj, ← Char.toNat_inj]
  unfold digitValue? at h
  split at h
  · rename_i hrange
    have hc : 48 ≤ c.toNat ∧ c.toNat ≤ 57 := hrange
    obtain rfl := Option.some.inj h
    rw [hlower _ (by omega), if_pos (by omega)]
    omega
  · split at h
    · rename_i hrange
      have hc : 97 ≤ c.toNat ∧ c.toNat ≤ 102 := hrange
      obtain rfl := Option.some.inj h
      rw [hlower _ (by omega), if_neg (by omega)]
      omega
    · split at h
      · rename_i hrange
        have hc : 65 ≤ c.toNat ∧ c.toNat ≤ 70 := hrange
        obtain rfl := Option.some.inj h
        rw [hupper _ (by omega), if_neg (by omega)]
        omega
      · exact nomatch h

/-- The digits of a base are read with their values. -/
theorem digitIn?_eq_some_iff {base d : Nat} {c : Char} (hbase : base ≤ 16) :
    digitIn? base c = some d ↔ IsDigit base c d := by
  constructor
  · intro h
    exact ⟨lt_of_digitIn? h, eq_digitChar_of_digitValue? (Option.filter_eq_some_iff.mp h).1⟩
  · rintro ⟨hd, rfl | rfl⟩
    · exact digitIn?_digitChar hbase hd
    · have hvalue : digitValue? (hexDigit d) = some d :=
        (Option.filter_eq_some_iff.mp (digitIn?_hexDigit (by omega))).1
      exact Option.filter_eq_some_iff.mpr ⟨hvalue, by simpa using hd⟩

/-- Reading from the left, by multiplying and adding, comes to the sum by places. -/
theorem ofDigits_eq_places (base : Nat) (digits : List Nat) :
    ofDigits base digits = Nat.ofDigits base digits.reverse := by
  induction digits using List.reverseRecOn with
  | nil => rfl
  | append_singleton digits d ih =>
    rw [ofDigits_concat, List.reverse_concat, Nat.ofDigits_cons, ih, Nat.mul_comm, Nat.add_comm]

/-- In a monad whose computations have a result or none, all elements of a list give results
exactly if each of them gives its own. -/
theorem mapM_eq_pure_iff {m : Type → Type} [Monad m] [LawfulMonad m] {α β : Type}
    (hbind : ∀ {γ δ : Type} {x : m γ} {f : γ → m δ} {b : δ},
      x >>= f = pure b ↔ ∃ a, x = pure a ∧ f a = pure b)
    (hpure : ∀ {γ : Type} {a b : γ}, (pure a : m γ) = pure b ↔ a = b)
    {f : α → m β} {xs : List α} {ys : List β} :
    xs.mapM f = pure ys ↔ List.Forall₂ (fun x y => f x = pure y) xs ys := by
  induction xs generalizing ys with
  | nil =>
    rw [List.mapM_nil, hpure, List.forall₂_nil_left_iff]
    exact eq_comm
  | cons x xs ih =>
    rw [List.mapM_cons, List.forall₂_cons_left_iff, hbind]
    simp only [hbind, hpure, ih]
    constructor
    · rintro ⟨y, hy, tail, htail, rfl⟩
      exact ⟨y, tail, hy, htail, rfl⟩
    · rintro ⟨y, tail, hy, htail, rfl⟩
      exact ⟨y, hy, tail, htail, rfl⟩

/-- **A text is read as a number exactly if it is a numeral for it.** -/
theorem number?_eq_some_iff_numeral {base : Nat} (hbase : base ≤ 16) {text : List Char} {n : Nat} :
    number? base text = some n ↔ Numeral base text n := by
  have hdigit : IsDigit base = fun c d => digitIn? base c = some d := by
    funext c d
    exact propext (digitIn?_eq_some_iff hbase).symm
  have hread : ∀ digits, text.mapM (digitIn? base) = some digits ↔
      List.Forall₂ (fun c d => digitIn? base c = some d) text digits :=
    fun digits => mapM_eq_pure_iff Option.bind_eq_some_iff Option.some_inj
  simp only [number?_eq_some_iff, Numeral, hdigit, hread, ofDigits_eq_places]

end SymbolicBytecode.Text
