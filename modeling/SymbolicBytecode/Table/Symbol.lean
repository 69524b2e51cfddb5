/-
# Symbols and listings

A symbol is an identifier bound to a value, both of one byte.  A listing is a header line
followed by one indented line for each symbol, in the order given.
-/
import SymbolicBytecode.Text.Numeral
import SymbolicBytecode.Text.Basic

namespace SymbolicBytecode

/-- An identifier and the value it is bound to. -/
structure Symbol where
  id : UInt8
  value : UInt8
  deriving DecidableEq, Repr

namespace Symbol

/-- A binding as text, the identifier in hexadecimal and the value in decimal. -/
def binding (s : Symbol) : String :=
  Text.hexLiteral s.id ++ " = " ++ Text.decimalByte s.value

/-- A symbol as text. -/
def text (s : Symbol) : String :=
  "Symbol " ++ s.binding

/-- The structural text of a symbol. -/
def inspect (s : Symbol) : String :=
  Text.record "Symbol"
    [Text.labelled "id" (Text.decimalByte s.id), Text.labelled "value" (Text.decimalByte s.value)]

end Symbol

/-- The first line of every listing. -/
def listingHeader : String :=
  "[Symbolic] Current Symbol Table:"

/-- The listing of symbols: the header, then a line for each symbol. -/
def listing (symbols : List Symbol) : String :=
  listingHeader ++ String.join (symbols.map fun s => "\n  " ++ s.text)

end SymbolicBytecode
