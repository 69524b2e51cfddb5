/-
# Assembling source text

Source text is read line by line and the instructions are encoded one after the other.
The first line that cannot be assembled is reported with its number, counted from one over
all lines, those without an instruction included.
-/
import SymbolicBytecode.Text.Basic
import SymbolicBytecode.Source.Line
import SymbolicBytecode.Code.Cursor

namespace SymbolicBytecode.Source

/-- A line that cannot be assembled, and why. -/
structure AssembleError where
  /-- The number of the line, counted from one. -/
  line : Nat
  cause : LineError
  deriving DecidableEq, Repr

/-- The wording of the error. -/
def AssembleError.message (e : AssembleError) : String :=
  "line " ++ Text.decimal e.line ++ ": " ++ e.cause.message

/-- Reads lines of which the first has the given number. -/
def readLines : Nat → List (List Char) → Except AssembleError (List Instruction)
  | _, [] => .ok []
  | number, line :: rest =>
    match readLine line with
    | .error cause => .error ⟨number, cause⟩
    | .ok none => readLines (number + 1) rest
    | .ok (some i) => (readLines (number + 1) rest).map (i :: ·)

/-- The instructions that a source text holds. -/
def instructions (source : String) : Except AssembleError (List Instruction) :=
  readLines 1 (Text.lines source.toList)

/-- The program that a source text describes. -/
def assemble (source : String) : Except AssembleError Program :=
  (instructions source).map Program.ofInstructions

/-! ## Canonical source -/

/-- A source text in canonical form: one instruction on each line, as `Instruction.text`
writes it. -/
structure Canonical where
  text : String
  /-- The program that the canonical text describes. -/
  program : Program
  /-- Whether that is the program of the source text. -/
  faithful : Bool
  deriving DecidableEq, Repr

/-- Why a source text has no canonical form. -/
inductive CanonicalError
  | source (e : AssembleError)
  /-- The assembled program cannot be read back. -/
  | code (e : DecodeError)
  deriving DecidableEq, Repr

/-- Assembles a source text, writes the program as source and assembles that. -/
def canonical (source : String) : Except CanonicalError Canonical :=
  match assemble source with
  | .error e => .error (.source e)
  | .ok program =>
    match program.disassemble with
    | .error e => .error (.code e)
    | .ok text =>
      match assemble text with
      | .error e => .error (.source e)
      | .ok again => .ok ⟨text, again, program = again⟩

end SymbolicBytecode.Source
