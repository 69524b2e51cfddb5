/-
# Reports of an execution

What an execution is answered with.  A report counts the steps and lists the lookups; it
exists when the execution halted or was exhausted.  An abort and a malformed program are
errors.  The log of an execution is a third account of the same history.
-/
import SymbolicBytecode.Machine.Execution
import SymbolicBytecode.Trace.Log

namespace SymbolicBytecode

/-- The account of an execution that succeeded. -/
structure Report where
  steps : Nat
  halted : Bool
  /-- The symbols that were looked up and found, in order. -/
  applied : List Symbol
  /-- The identifiers that were looked up and are not bound, in order. -/
  undefined : List UInt8
  deriving DecidableEq, Repr

/-- Why an execution failed. -/
inductive ExecError
  /-- The program cannot be read on. -/
  | malformed (cause : DecodeError)
  /-- The lookup at the offset failed. -/
  | undefined (offset : Nat) (cause : LookupError)
  deriving DecidableEq, Repr

namespace ExecError

/-- The offset at which the execution failed. -/
def offset : ExecError → Nat
  | malformed cause => cause.offset
  | undefined offset _ => offset

/-- The wording of the error. -/
def message : ExecError → String
  | malformed cause => cause.message
  | undefined offset cause => cause.message ++ " at offset " ++ Text.decimal offset

/-- The wording of the error behind a failed lookup; a malformed program has none. -/
def source? : ExecError → Option String
  | malformed _ => none
  | undefined _ cause => some cause.message

end ExecError

namespace Effect

/-- The symbol that was looked up and found. -/
def applied? : Effect → Option Symbol
  | applied symbol => some symbol
  | _ => none

/-- The identifier that was looked up and is not bound. -/
def undefined? : Effect → Option UInt8
  | undefined id => some id
  | _ => none

end Effect

namespace Execution

/-- The report of the steps taken, given whether the execution halted. -/
def report (e : Execution) (halted : Bool) : Report where
  steps := e.steps.length
  halted := halted
  applied := e.steps.filterMap fun step => step.effect.applied?
  undefined := e.steps.filterMap fun step => step.effect.undefined?

/-- What an execution is answered with. -/
def outcome (e : Execution) : Except ExecError Report :=
  match e.ending with
  | .halted => .ok (e.report true)
  | .exhausted => .ok (e.report false)
  | .aborted offset cause => .error (.undefined offset cause)
  | .malformed cause => .error (.malformed cause)

/-! ## The log -/

/-- The log of one step: the instruction, then its notices. -/
def stepLog (handler : Handler) (step : Step) : Log :=
  .record (.stepped step.item.offset step.item.instruction) ::
    Log.ofNotices handler step.notices

/-- The records of the way an execution ended. -/
def endingRecords (e : Execution) : List Record :=
  match e.ending with
  | .halted => [.runFinished e.steps.length true]
  | .exhausted => [.runFinished e.steps.length false]
  | .aborted offset cause => [.aborting offset cause.id]
  | .malformed _ => []

/-- The log of an execution of a program of the given length. -/
def log (e : Execution) (length : Nat) : Log :=
  .record (.runOpened length) ::
    (e.steps.flatMap (stepLog e.table.handler) ++
      Log.ofRecords (e.endingRecords ++ [.runClosed]))

end Execution

end SymbolicBytecode
