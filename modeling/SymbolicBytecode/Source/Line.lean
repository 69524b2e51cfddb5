/-
# Lines of source text

A line holds at most one instruction: a mnemonic in any letter case, then its operands.
A line without words, and a line whose first word starts with two slashes or a number
sign, holds none.  Of several mistakes in one line the leftmost is reported, and a wrong
number of operands only when every operand can be read.
-/
import SymbolicBytecode.Text.Basic
import SymbolicBytecode.Source.Operand
import SymbolicBytecode.Code.Instruction

namespace SymbolicBytecode.Source

/-- Why a line cannot be assembled. -/
inductive LineError
  /-- The first word is no mnemonic; it is reported in upper case. -/
  | unknownOpcode (word : String)
  | badOperand (cause : OperandError)
  /-- The operands are more or fewer than the opcode takes. -/
  | operandCount (opcode : Opcode) (found : Nat)
  deriving DecidableEq, Repr

/-- The wording of an operand error. -/
def OperandError.message : OperandError → String
  | malformed word => "unknown operand: " ++ word
  | outOfRange word => "operand does not fit in a byte: " ++ word

/-- The wording of a line error. -/
def LineError.message : LineError → String
  | unknownOpcode word => "unknown opcode: " ++ word
  | badOperand cause => cause.message
  | operandCount opcode found =>
    opcode.mnemonic ++ " takes " ++ Text.decimal opcode.arity ++ " operand(s), found " ++
      Text.decimal found

/-- Tells whether a word opens a comment. -/
def opensComment : List Char → Bool
  | '#' :: _ => true
  | '/' :: '/' :: _ => true
  | _ => false

/-- Reads operand words from left to right, up to the first that is no operand. -/
def readOperands (words : List (List Char)) : Except OperandError (List UInt8) :=
  words.mapM readOperand

/-- The instruction that an opcode and its operand words make up. -/
def readOperation (opcode : Opcode) (words : List (List Char)) : Except LineError Instruction :=
  match readOperands words with
  | .error cause => .error (.badOperand cause)
  | .ok operands =>
    match Instruction.ofParts? opcode operands with
    | none => .error (.operandCount opcode operands.length)
    | some i => .ok i

/-- The instruction that the words of a line make up, if they make up any. -/
def readWords : List (List Char) → Except LineError (Option Instruction)
  | [] => .ok none
  | word :: operands =>
    if opensComment word then .ok none
    else
      match Opcode.ofMnemonic? (String.ofList word) with
      | none => .error (.unknownOpcode (Text.upperCase (String.ofList word)))
      | some opcode => (readOperation opcode operands).map some

/-- Reads one line. -/
def readLine (line : List Char) : Except LineError (Option Instruction) :=
  readWords (Text.words line)

end SymbolicBytecode.Source
