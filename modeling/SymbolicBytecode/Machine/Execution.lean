/-
# Executing a program

A program is executed against a symbol table.  Decoding and execution are interleaved: an
instruction is read only when everything before it has taken effect, so bytes behind the
end of the execution are never looked at.  An execution is kept as its history, the steps
taken and the way it ended, together with the table it left behind.
-/
import SymbolicBytecode.Table.Basic
import SymbolicBytecode.Code.Cursor

namespace SymbolicBytecode

/-- What to do when a program looks up an identifier that is not bound. -/
inductive Policy
  | proceed
  | abort
  deriving DecidableEq, Repr

/-- The name of a policy in structural texts. -/
def Policy.inspect : Policy → String
  | proceed => "Continue"
  | abort => "Abort"

/-- What an instruction did. -/
inductive Effect
  | halted
  | defined (symbol : Symbol)
  /-- It looked up a symbol that is bound. -/
  | applied (symbol : Symbol)
  /-- It looked up an identifier that is not bound. -/
  | undefined (id : UInt8)
  | reflected
  deriving DecidableEq, Repr

/-! ## One instruction -/

/-- An instruction carried out: its effect, the table afterwards, and the notices. -/
structure Performed where
  effect : Effect
  table : Table
  notices : List Notice
  deriving DecidableEq, Repr

/-- Carries one instruction out. -/
def Table.perform (t : Table) : Instruction → Performed
  | .halt => ⟨.halted, t, []⟩
  | .define id value =>
    ⟨.defined ⟨id, value⟩, (t.define id value).value, (t.define id value).notices⟩
  | .apply id =>
    match (t.apply id).value with
    | .ok value => ⟨.applied ⟨id, value⟩, t, (t.apply id).notices⟩
    | .error _ => ⟨.undefined id, t, (t.apply id).notices⟩
  | .reflect => ⟨.reflected, t, t.reflect.notices⟩

/-- No instruction changes the handler. -/
@[simp] theorem Table.handler_perform (t : Table) (i : Instruction) :
    (t.perform i).table.handler = t.handler := by
  cases i with
  | halt => rfl
  | define id value => rfl
  | apply id =>
    rw [Table.perform]
    split <;> rfl
  | reflect => rfl

/-! ## Executions -/

/-- How an execution ended. -/
inductive Ending
  | halted
  | exhausted
  /-- The lookup at the offset failed, and the policy is to abort. -/
  | aborted (offset : Nat) (cause : LookupError)
  /-- The program cannot be read on. -/
  | malformed (cause : DecodeError)
  deriving DecidableEq, Repr

/-- One step of an execution. -/
structure Step where
  item : Located
  effect : Effect
  notices : List Notice
  deriving DecidableEq, Repr

/-- A finished execution. -/
structure Execution where
  steps : List Step
  ending : Ending
  table : Table
  deriving DecidableEq, Repr

/-- How an effect at an offset ends the execution under a policy, if it does. -/
def Policy.ending? : Policy → Nat → Effect → Option Ending
  | _, _, .halted => some .halted
  | .abort, offset, .undefined id => some (.aborted offset (.notDefined id))
  | _, _, _ => none

namespace Execution

/-- Puts a step in front of an execution. -/
def precede (step : Step) (e : Execution) : Execution :=
  { e with steps := step :: e.steps }

/-- Executes the instructions from a cursor on. -/
def run (policy : Policy) (t : Table) (cursor : Cursor) : Execution :=
  match _step : cursor.next with
  | (none, _) => ⟨[], .exhausted, t⟩
  | (some (.error fault), _) => ⟨[], .malformed fault, t⟩
  | (some (.ok item), after) =>
    let done := t.perform item.instruction
    let step : Step := ⟨item, done.effect, done.notices⟩
    match policy.ending? item.offset done.effect with
    | some ending => ⟨[step], ending, done.table⟩
    | none => (run policy done.table after).precede step
termination_by cursor.rest.length
decreasing_by exact Cursor.length_rest_next (by assumption)

/-- All notices of an execution, in order. -/
def notices (e : Execution) : List Notice :=
  e.steps.flatMap Step.notices

/-- The instructions that were executed, in order. -/
def instructions (e : Execution) : List Instruction :=
  e.steps.map fun step => step.item.instruction

/-! ## Equations of a run -/

theorem run_of_end (policy : Policy) (t : Table) {cursor after : Cursor}
    (h : cursor.next = (none, after)) : run policy t cursor = ⟨[], .exhausted, t⟩ := by
  rw [run]
  split <;> simp_all

theorem run_of_fault (policy : Policy) (t : Table) {cursor after : Cursor} {fault : DecodeError}
    (h : cursor.next = (some (.error fault), after)) :
    run policy t cursor = ⟨[], .malformed fault, t⟩ := by
  rw [run]
  split <;> simp_all

/-- An instruction that ends the execution is its last step. -/
theorem run_of_ending {policy : Policy} {t : Table} {cursor after : Cursor} {item : Located}
    {ending : Ending} (h : cursor.next = (some (.ok item), after))
    (hend : policy.ending? item.offset (t.perform item.instruction).effect = some ending) :
    run policy t cursor =
      ⟨[⟨item, (t.perform item.instruction).effect, (t.perform item.instruction).notices⟩],
        ending, (t.perform item.instruction).table⟩ := by
  rw [run]
  split <;> simp_all

/-- Any other instruction is followed by the rest of the execution. -/
theorem run_of_step {policy : Policy} {t : Table} {cursor after : Cursor} {item : Located}
    (h : cursor.next = (some (.ok item), after))
    (hend : policy.ending? item.offset (t.perform item.instruction).effect = none) :
    run policy t cursor =
      (run policy (t.perform item.instruction).table after).precede
        ⟨item, (t.perform item.instruction).effect, (t.perform item.instruction).notices⟩ := by
  rw [run]
  split <;> simp_all

end Execution

end SymbolicBytecode
