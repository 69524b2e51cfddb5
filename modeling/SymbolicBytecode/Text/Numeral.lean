/-
# Numerals

Numbers are read in base ten or sixteen and written in two ways: a byte as two upper-case
hexadecimal digits, a number in decimal without leading zeros.  A byte is read in the arithmetic
of bytes, where each product and each sum is checked, and reading stops at the first that does
not fit.
-/

namespace SymbolicBytecode.Text

/-! ## Reading -/

/-- The value of an ASCII hexadecimal digit in either case. -/
def digitValue? (c : Char) : Option Nat :=
  if '0' ≤ c ∧ c ≤ '9' then some (c.toNat - '0'.toNat)
  else if 'a' ≤ c ∧ c ≤ 'f' then some (c.toNat - 'a'.toNat + 10)
  else if 'A' ≤ c ∧ c ≤ 'F' then some (c.toNat - 'A'.toNat + 10)
  else none

/-- The value of a digit that the base has. -/
def digitIn? (base : Nat) (c : Char) : Option Nat :=
  (digitValue? c).filter (· < base)

/-- Every digit lies below its base. -/
theorem lt_of_digitIn? {base : Nat} {c : Char} {d : Nat} (h : digitIn? base c = some d) :
    d < base := by
  simpa using (Option.filter_eq_some_iff.mp h).2

/-- Tells whether a text is a run of digits that is not empty. -/
def isNumeral (base : Nat) (text : List Char) : Bool :=
  !text.isEmpty && text.all fun c => (digitIn? base c).isSome

/-! ## Reading a byte -/

/-- Why a text is not read as a byte. -/
inductive ByteError
  | empty
  /-- A character is no digit of the base. -/
  | noDigit
  /-- A product or a sum does not fit in a byte. -/
  | overflow
  deriving DecidableEq, Repr

/-- The product of two bytes, if it fits in a byte. -/
def mulByte? (a b : UInt8) : Option UInt8 :=
  if a.toBitVec.umulOverflow b.toBitVec then none else some (a * b)

/-- The sum of two bytes, if it fits in a byte. -/
def addByte? (a b : UInt8) : Option UInt8 :=
  if a.toBitVec.uaddOverflow b.toBitVec then none else some (a + b)

/-- The value with one more digit at the end, if it fits in a byte. -/
def pushDigit? (base : Nat) (value : UInt8) (digit : Nat) : Option UInt8 :=
  (mulByte? value (UInt8.ofNat base)).bind (addByte? · (UInt8.ofNat digit))

/-- Reads the digits behind those that have given the value. -/
def readDigits (base : Nat) : UInt8 → List Char → Except ByteError UInt8
  | value, [] => .ok value
  | value, c :: text =>
    match digitIn? base c with
    | none => .error .noDigit
    | some digit =>
      match pushDigit? base value digit with
      | none => .error .overflow
      | some next => readDigits base next text

/-- Reads a byte: digits, and a plus sign in front of them or none. -/
def readByte (base : Nat) : List Char → Except ByteError UInt8
  | [] => .error .empty
  | ['+'] => .error .noDigit
  | '+' :: digits => readDigits base 0 digits
  | digits => readDigits base 0 digits

/-! ## Writing -/

/-- The upper-case hexadecimal digit of a number below sixteen. -/
def hexDigit (n : Nat) : Char :=
  (Nat.digitChar n).toUpper

/-- A byte as two upper-case hexadecimal digits. -/
def hexByte (b : UInt8) : String :=
  String.ofList [hexDigit (b.toNat / 16), hexDigit (b.toNat % 16)]

/-- A byte as a hexadecimal literal, for instance 0x0A. -/
def hexLiteral (b : UInt8) : String :=
  "0x" ++ hexByte b

/-- A number in decimal, without leading zeros. -/
def decimal (n : Nat) : String :=
  String.ofList (Nat.toDigits 10 n)

/-- The value of a byte in decimal. -/
def decimalByte (b : UInt8) : String :=
  decimal b.toNat

end SymbolicBytecode.Text
