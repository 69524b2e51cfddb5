/-
# Operands in source text

An operand is written as one word: hexadecimal digits after 0x or 0X, or decimal digits,
with any number of leading zeros.  Commas at the end of the word belong to the layout and
are dropped before it is read.  The word is malformed when it has no such form, and out of
range when the number it denotes does not fit in a byte.  Its form is looked at first, so
that a byte is read from digits only and reading it can fail for one cause only.
-/
import SymbolicBytecode.Text.Numeral

namespace SymbolicBytecode.Source

/-- A word without the commas at its end. -/
def dropCommas (word : List Char) : List Char :=
  (word.reverse.dropWhile (· = ',')).reverse

/-- The base of a literal and its digits, which stand behind the mark of the base if it has one. -/
def splitLiteral : List Char → Nat × List Char
  | '0' :: 'x' :: digits => (16, digits)
  | '0' :: 'X' :: digits => (16, digits)
  | digits => (10, digits)

/-- Why a word is no operand; both causes carry the word without its commas. -/
inductive OperandError
  | malformed (word : String)
  /-- The literal denotes a number above 255. -/
  | outOfRange (word : String)
  deriving DecidableEq, Repr

/-- Reads a word as an operand byte. -/
def readOperand (word : List Char) : Except OperandError UInt8 :=
  let raw := dropCommas word
  let (base, digits) := splitLiteral raw
  if Text.isNumeral base digits then
    match Text.readByte base digits with
    | .error _ => .error (.outOfRange (String.ofList raw))
    | .ok b => .ok b
  else .error (.malformed (String.ofList raw))

/-- A word that ends in no comma is kept whole. -/
theorem dropCommas_of_getLast? {word : List Char} (h : word.getLast? ≠ some ',') :
    dropCommas word = word := by
  rw [dropCommas]
  cases hr : word.reverse with
  | nil => simpa using hr.symm
  | cons c rest =>
    have hc : word.getLast? = some c := by
      rw [← List.head?_reverse, hr, List.head?_cons]
    rw [List.dropWhile_cons_of_neg, ← hr, List.reverse_reverse]
    intro heq
    rw [hc] at h
    exact h (congrArg some (of_decide_eq_true heq))

/-- One more comma at the end of a word changes nothing. -/
@[simp] theorem dropCommas_concat_comma (word : List Char) :
    dropCommas (word ++ [',']) = dropCommas word := by
  simp [dropCommas]

end SymbolicBytecode.Source
