/-
# Numerals in bytes

A byte is read by multiplying and adding in bytes, and each product and each sum is checked.
This comes to the same as evaluating the digits in natural numbers and looking at the result:
a value that has left the bytes never comes back into them, however many digits follow.

* `pushDigit?_eq`         : one digit, with its product and its sum checked;
* `le_digitsBehind`       : more digits never make a value smaller;
* `readDigits_eq`         : all digits, behind any value;
* `readByte_of_number?`   : a numeral is read as its value or overflows;
* `readByte_eq_error_iff` : it overflows exactly if its value is no byte, and nothing else goes wrong.
-/
import SymbolicBytecode.Proofs.Text.Numerals

namespace SymbolicBytecode.Text

/-! ## One digit -/

theorem mulByte?_eq (a b : UInt8) :
    mulByte? a b =
      if 256 ≤ a.toNat * b.toNat then none else some (UInt8.ofNat (a.toNat * b.toNat)) := by
  simp [mulByte?, BitVec.umulOverflow]

theorem addByte?_eq (a b : UInt8) :
    addByte? a b =
      if 256 ≤ a.toNat + b.toNat then none else some (UInt8.ofNat (a.toNat + b.toNat)) := by
  simp [addByte?, BitVec.uaddOverflow]

/-- One more digit is exact or overflows. -/
theorem pushDigit?_eq {base digit : Nat} (hbase : base < 256) (hdigit : digit < base)
    (value : UInt8) :
    pushDigit? base value digit =
      if 256 ≤ value.toNat * base + digit then none
      else some (UInt8.ofNat (value.toNat * base + digit)) := by
  have hb : (UInt8.ofNat base).toNat = base := UInt8.toNat_ofNat_of_lt' hbase
  have hd : (UInt8.ofNat digit).toNat = digit :=
    UInt8.toNat_ofNat_of_lt' (Nat.lt_trans hdigit hbase)
  rw [pushDigit?, mulByte?_eq, hb]
  by_cases hmul : 256 ≤ value.toNat * base
  · -- the sum is too large because the product is
    have hsum : 256 ≤ value.toNat * base + digit := Nat.le_trans hmul (Nat.le_add_right _ digit)
    rw [if_pos hmul, if_pos hsum, Option.bind_none]
  · rw [if_neg hmul, Option.bind_some, addByte?_eq, hd,
      UInt8.toNat_ofNat_of_lt' (Nat.not_le.mp hmul)]

/-! ## All digits -/

/-- The value of digits behind a given value, the most significant first. -/
def digitsBehind (base value : Nat) (digits : List Nat) : Nat :=
  digits.foldl (fun value digit => value * base + digit) value

/-- Digits never make a value smaller. -/
theorem le_digitsBehind {base : Nat} (hbase : 0 < base) (digits : List Nat) :
    ∀ value, value ≤ digitsBehind base value digits := by
  induction digits with
  | nil => intro value; exact Nat.le_refl value
  | cons digit digits ih =>
    intro value
    calc value ≤ value * base := Nat.le_mul_of_pos_right value hbase
      _ ≤ value * base + digit := Nat.le_add_right _ digit
      _ ≤ digitsBehind base (value * base + digit) digits := ih _

/-- **Digits are read exactly or overflow**, behind any value. -/
theorem readDigits_eq {base : Nat} (hbase : base < 256) {text : List Char} {digits : List Nat}
    (h : text.mapM (digitIn? base) = some digits) (value : UInt8) :
    readDigits base value text =
      if digitsBehind base value.toNat digits < 256 then
        .ok (UInt8.ofNat (digitsBehind base value.toNat digits))
      else .error .overflow := by
  induction text generalizing digits value with
  | nil =>
    obtain rfl : [] = digits := by simpa using h
    have hvalue : digitsBehind base value.toNat [] = value.toNat := rfl
    rw [readDigits, hvalue, if_pos value.toNat_lt, UInt8.ofNat_toNat]
  | cons c text ih =>
    obtain ⟨digit, rest, hdigit, hrest, rfl⟩ := mapM_digitIn?_cons.mp h
    have hlt : digit < base := lt_of_digitIn? hdigit
    have hbehind : digitsBehind base value.toNat (digit :: rest) =
        digitsBehind base (value.toNat * base + digit) rest := rfl
    simp only [readDigits, hdigit, pushDigit?_eq hbase hlt, hbehind]
    by_cases hnext : 256 ≤ value.toNat * base + digit
    · -- what has left the bytes stays outside
      have hrun : value.toNat * base + digit ≤
          digitsBehind base (value.toNat * base + digit) rest :=
        le_digitsBehind (Nat.zero_lt_of_lt hlt) rest _
      rw [if_pos hnext, if_neg (Nat.not_lt.mpr (Nat.le_trans hnext hrun))]
    · have hvalue : (UInt8.ofNat (value.toNat * base + digit)).toNat = value.toNat * base + digit :=
        UInt8.toNat_ofNat_of_lt' (Nat.not_le.mp hnext)
      simp only [if_neg hnext, ih hrest, hvalue]

/-- **A numeral is read exactly or overflows**, whatever number of digits it has. -/
theorem readByte_of_number? {base : Nat} (hbase : base < 256) {text : List Char} {n : Nat}
    (h : number? base text = some n) :
    readByte base text = if n < 256 then .ok (UInt8.ofNat n) else .error .overflow := by
  obtain ⟨hne, digits, hdigits, rfl⟩ := number?_eq_some_iff.mp h
  -- no digit is a plus sign
  have hplus : ∀ rest, text ≠ '+' :: rest := by
    rintro rest rfl
    obtain ⟨d, hd⟩ := digitIn?_of_mem h List.mem_cons_self
    exact nomatch hd
  have hread : readByte base text = readDigits base 0 text := by
    unfold readByte
    split
    · exact absurd rfl hne
    · exact absurd rfl (hplus [])
    · exact absurd rfl (hplus _)
    · rfl
  -- the number is the value of the digits behind zero
  rw [hread, readDigits_eq hbase hdigits]
  rfl

/-- A numeral is not read as a byte exactly if its value is none, and always for an overflow. -/
theorem readByte_eq_error_iff {base : Nat} (hbase : base < 256) {text : List Char} {n : Nat}
    (h : number? base text = some n) {e : ByteError} :
    readByte base text = .error e ↔ e = .overflow ∧ 256 ≤ n := by
  rw [readByte_of_number? hbase h]
  by_cases hn : n < 256
  · simp [hn]
  · simp [hn, Nat.not_lt.mp hn, eq_comm]

end SymbolicBytecode.Text
