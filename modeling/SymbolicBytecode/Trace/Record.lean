/-
# Trace records

What a trace of the library's work can hold: spans around an assembly and around a run,
events inside them, and the notices of tables that report to the trace.  A record is a
value; `Record.shape` is its general form, with a level, a target and named fields.
-/
import SymbolicBytecode.Code.Instruction
import SymbolicBytecode.Table.Notice

namespace SymbolicBytecode

/-- How detailed a record is. -/
inductive Level
  | trace
  | debug
  | info
  deriving DecidableEq, Repr

/-- The name of a level. -/
def Level.name : Level → String
  | trace => "TRACE"
  | debug => "DEBUG"
  | info => "INFO"

/-- One record of a trace. -/
inductive Record
  /-- An assembly of a source text of the given length in bytes begins. -/
  | assemblyOpened (sourceLength : Nat)
  /-- The assembly succeeded with a program of the given length. -/
  | assembled (length : Nat)
  | assemblyClosed
  /-- A run of a program of the given length begins. -/
  | runOpened (length : Nat)
  /-- An instruction is about to take effect. -/
  | stepped (offset : Nat) (instruction : Instruction)
  /-- The run ends because the identifier looked up at the offset is not bound. -/
  | aborting (offset : Nat) (id : UInt8)
  | runFinished (steps : Nat) (halted : Bool)
  | runClosed
  | noticed (notice : Notice)
  deriving DecidableEq, Repr

/-- The value of a field of a record. -/
inductive Field
  | number (n : Nat)
  | flag (b : Bool)
  | text (s : String)
  deriving DecidableEq, Repr

/-- The general form of a record. -/
inductive Shape
  | event (level : Level) (target : String) (fields : List (String × Field))
  | opened (name : String) (level : Level) (target : String) (fields : List (String × Field))
  | closed (name : String)
  deriving DecidableEq, Repr

namespace Record

/-- The target of the records of an assembly. -/
def assemblyTarget : String := "symb_vm::assembler"

/-- The target of the records of a run. -/
def runTarget : String := "symb_vm::machine"

/-- The target of notices. -/
def noticeTarget : String := "symb_table::notice"

/-- The name of the span around an assembly. -/
def assemblySpan : String := "assemble"

/-- The name of the span around a run. -/
def runSpan : String := "run"

/-- The field that every event has: what happened. -/
def messageField (text : String) : String × Field :=
  ("message", .text text)

/-- The general form of a record. -/
def shape : Record → Shape
  | assemblyOpened sourceLength =>
    .opened assemblySpan .debug assemblyTarget [("source_len", .number sourceLength)]
  | assembled length =>
    .event .debug assemblyTarget [messageField "assembled program", ("bytes", .number length)]
  | assemblyClosed => .closed assemblySpan
  | runOpened length => .opened runSpan .debug runTarget [("len", .number length)]
  | stepped offset instruction =>
    .event .trace runTarget
      [messageField "step", ("offset", .number offset), ("instruction", .text instruction.text)]
  | aborting offset id =>
    .event .debug runTarget
      [messageField "aborting on undefined symbol", ("offset", .number offset),
        ("id", .number id.toNat)]
  | runFinished steps halted =>
    .event .debug runTarget
      [messageField "run finished", ("steps", .number steps), ("halted", .flag halted)]
  | runClosed => .closed runSpan
  | noticed notice => .event .info noticeTarget [messageField notice.text]

/-- Tells whether a record is a notice. -/
def isNotice : Record → Bool
  | noticed _ => true
  | _ => false

end Record

end SymbolicBytecode
