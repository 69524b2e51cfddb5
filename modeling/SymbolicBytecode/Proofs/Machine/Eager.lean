/-
# Executing what was read beforehand

A run reads an instruction only when everything before it has taken effect.  The result is
the same as if all instructions had been read beforehand: `Execution.follow` takes the list
of instructions and the way in which reading came to its end, and recurses on that list.

* `Execution.runInduction`  : one induction for every statement about a run;
* `Execution.run_eq_follow` : a run follows what its cursor yields;
* `Execution.follow_of_ending`, `Execution.follow_of_step` : the two kinds of step.

Statements about runs in which the bytes play no part are proved by induction on the list of
instructions from here on.
-/
import SymbolicBytecode.Machine.Basic
import SymbolicBytecode.Machine.Report
import SymbolicBytecode.Proofs.Code.Layout

namespace SymbolicBytecode

/-! ## One instruction -/

namespace Table

/-- Looking up a bound identifier gives its symbol and leaves the table alone. -/
theorem perform_apply_of_bound {t : Table} {id value : UInt8}
    (h : t.bindings.get? id = some value) :
    t.perform (.apply id) = ⟨.applied ⟨id, value⟩, t, [.applied ⟨id, value⟩]⟩ := by
  rw [perform, apply_of_bound h]

/-- Looking up any other identifier fails and leaves the table alone. -/
theorem perform_apply_of_unbound {t : Table} {id : UInt8} (h : t.bindings.get? id = none) :
    t.perform (.apply id) = ⟨.undefined id, t, [.undefined id]⟩ := by
  rw [perform, apply_of_unbound h]

/-- A lookup leaves the table alone, whether it succeeds or not. -/
@[simp] theorem table_perform_apply (t : Table) (id : UInt8) :
    (t.perform (.apply id)).table = t := by
  cases h : t.bindings.get? id with
  | none => rw [perform_apply_of_unbound h]
  | some value => rw [perform_apply_of_bound h]

/-- **What ends an execution.**  It is a halt instruction, or a lookup of an identifier that
is not bound under the policy to abort; nothing else is. -/
theorem ending?_perform_eq_some_iff {policy : Policy} {offset : Nat} {t : Table}
    {i : Instruction} {ending : Ending} :
    policy.ending? offset (t.perform i).effect = some ending ↔
      (i = .halt ∧ ending = .halted) ∨
        (policy = .abort ∧ ∃ id, i = .apply id ∧ t.bindings.get? id = none ∧
          ending = .aborted offset (.notDefined id)) := by
  cases i with
  | halt => simp [perform, Policy.ending?, eq_comm]
  | define id value => cases policy <;> simp [perform, Policy.ending?]
  | apply id =>
    cases hget : t.bindings.get? id with
    | none =>
      rw [perform_apply_of_unbound hget]
      cases policy <;> simp [Policy.ending?, hget, eq_comm]
    | some value =>
      rw [perform_apply_of_bound hget]
      cases policy <;> simp [Policy.ending?, hget]
  | reflect => cases policy <;> simp [perform, Policy.ending?]

/-- What does not end an execution does not end it where nothing more is unbound. -/
theorem ending?_perform_of_unbound {policy : Policy} {offset : Nat} {t t' : Table}
    {i : Instruction} (h : policy.ending? offset (t.perform i).effect = none)
    (hunbound : ∀ id, t'.bindings.get? id = none → t.bindings.get? id = none) :
    policy.ending? offset (t'.perform i).effect = none := by
  cases hend : policy.ending? offset (t'.perform i).effect with
  | none => rfl
  | some ending =>
    have hends : policy.ending? offset (t.perform i).effect = some ending := by
      rw [ending?_perform_eq_some_iff] at hend ⊢
      rcases hend with hhalt | ⟨hpolicy, id, hi, hget, hending⟩
      · exact Or.inl hhalt
      · exact Or.inr ⟨hpolicy, id, hi, hunbound id hget, hending⟩
    rw [h] at hends
    cases hends

/-- The step of carrying out the instruction that stands at an offset. -/
def step (t : Table) (item : Located) : Step :=
  ⟨item, (t.perform item.instruction).effect, (t.perform item.instruction).notices⟩

end Table

/-! ## Induction along a run -/

namespace Execution

@[simp] theorem run_nil (policy : Policy) (t : Table) (offset : Nat) :
    run policy t ⟨offset, []⟩ = ⟨[], .exhausted, t⟩ :=
  run_of_end policy t (Cursor.next_nil offset)

/-- A run of one instruction that ends it. -/
theorem run_encode_of_ending {policy : Policy} {t : Table} {offset : Nat} {i : Instruction}
    {ending : Ending} (h : policy.ending? offset (t.perform i).effect = some ending)
    (rest : List UInt8) :
    run policy t ⟨offset, i.encode ++ rest⟩ =
      (⟨[], ending, (t.perform i).table⟩ : Execution).precede (t.step ⟨offset, i⟩) :=
  run_of_ending (Cursor.next_encode_append offset i rest) h

/-- A run of one instruction and of what stands behind it. -/
theorem run_encode_of_step {policy : Policy} {t : Table} {offset : Nat} {i : Instruction}
    (h : policy.ending? offset (t.perform i).effect = none) (rest : List UInt8) :
    run policy t ⟨offset, i.encode ++ rest⟩ =
      (run policy (t.perform i).table ⟨offset + i.size, rest⟩).precede (t.step ⟨offset, i⟩) :=
  run_of_step (Cursor.next_encode_append offset i rest) h

/-- **Induction along a run.**  A property of a table and a cursor holds of all of them if it
holds where a run stops, at the end, at a fault or at an instruction that ends it, and moves
backwards over an instruction that does not. -/
@[elab_as_elim]
theorem runInduction (policy : Policy) {motive : Table → Cursor → Prop}
    (finished : ∀ t offset, motive t ⟨offset, []⟩)
    (fault : ∀ t cursor after cause, cursor.next = (some (.error cause), after) → motive t cursor)
    (ended : ∀ t offset (i : Instruction) rest ending,
      policy.ending? offset (t.perform i).effect = some ending →
        motive t ⟨offset, i.encode ++ rest⟩)
    (step : ∀ t offset (i : Instruction) rest,
      policy.ending? offset (t.perform i).effect = none →
        motive (t.perform i).table ⟨offset + i.size, rest⟩ →
          motive t ⟨offset, i.encode ++ rest⟩)
    (t : Table) (cursor : Cursor) : motive t cursor := by
  induction cursor using Cursor.readingInduction generalizing t with
  | finished offset => exact finished t offset
  | fault cursor after cause hnext => exact fault t cursor after cause hnext
  | item offset i rest ih =>
    cases hend : policy.ending? offset (t.perform i).effect with
    | some ending => exact ended t offset i rest ending hend
    | none => exact step t offset i rest hend (ih _)

end Execution

/-! ## The eager execution -/

/-- How an execution ends that has got past every instruction a cursor yields. -/
def Cursor.closing (cursor : Cursor) : Ending :=
  match cursor.walk with
  | .ok _ => .exhausted
  | .error cause => .malformed cause

namespace Execution

/-- Executes a list of instructions; `closing` is the ending if none of them ends it. -/
def follow (policy : Policy) (closing : Ending) : Table → List Located → Execution
  | t, [] => ⟨[], closing, t⟩
  | t, item :: rest =>
    let done := t.perform item.instruction
    match policy.ending? item.offset done.effect with
    | some ending => (⟨[], ending, done.table⟩ : Execution).precede (t.step item)
    | none => (follow policy closing done.table rest).precede (t.step item)

@[simp] theorem follow_nil (policy : Policy) (closing : Ending) (t : Table) :
    follow policy closing t [] = ⟨[], closing, t⟩ := rfl

/-- An instruction that ends the execution is its last step. -/
theorem follow_of_ending {policy : Policy} {closing ending : Ending} {t : Table} {item : Located}
    {rest : List Located}
    (h : policy.ending? item.offset (t.perform item.instruction).effect = some ending) :
    follow policy closing t (item :: rest) =
      (⟨[], ending, (t.perform item.instruction).table⟩ : Execution).precede (t.step item) := by
  simp only [follow, h]

/-- Any other instruction is followed by the rest. -/
theorem follow_of_step {policy : Policy} {closing : Ending} {t : Table} {item : Located}
    {rest : List Located}
    (h : policy.ending? item.offset (t.perform item.instruction).effect = none) :
    follow policy closing t (item :: rest) =
      (follow policy closing (t.perform item.instruction).table rest).precede (t.step item) := by
  simp only [follow, h]

/-- **Induction along an execution.**  What holds before any step is taken, and is kept when
a step is put in front, holds of every execution together with the table it starts from. -/
theorem follow_induction {motive : Table → Execution → Prop}
    (stopped : ∀ t ending, motive t ⟨[], ending, t⟩)
    (step : ∀ (t : Table) (item : Located) (e : Execution),
      motive (t.perform item.instruction).table e → motive t (e.precede (t.step item)))
    (policy : Policy) (closing : Ending) (t : Table) (items : List Located) :
    motive t (follow policy closing t items) := by
  induction items generalizing t with
  | nil => exact stopped t closing
  | cons item rest ih =>
    cases hend : policy.ending? item.offset (t.perform item.instruction).effect with
    | some ending =>
      rw [follow_of_ending hend]
      exact step t item _ (stopped _ ending)
    | none =>
      rw [follow_of_step hend]
      exact step t item _ (ih _)

end Execution

/-! ## Reports step by step -/

/-- The report of one stretch of an execution and the one that follows it. -/
def Report.followedBy (first second : Report) : Report where
  steps := first.steps + second.steps
  halted := second.halted
  applied := first.applied ++ second.applied
  undefined := first.undefined ++ second.undefined

/-- The report of one step that does not end the execution. -/
def Step.report (step : Step) : Report where
  steps := 1
  halted := false
  applied := step.effect.applied?.toList
  undefined := step.effect.undefined?.toList

theorem Report.followedBy_assoc (first second third : Report) :
    (first.followedBy second).followedBy third = first.followedBy (second.followedBy third) := by
  simp [followedBy, Nat.add_assoc]

/-- Behind a step that does not end the execution, the report goes on with one more step. -/
theorem Report.followedBy_report {r : Report} (hgoing : r.halted = false) (step : Step) :
    r.followedBy step.report =
      { r with
        steps := r.steps + 1
        applied := r.applied ++ step.effect.applied?.toList
        undefined := r.undefined ++ step.effect.undefined?.toList } := by
  simp [followedBy, Step.report, hgoing]

namespace Execution

@[simp] theorem table_precede (step : Step) (e : Execution) :
    (e.precede step).table = e.table := rfl

@[simp] theorem ending_precede (step : Step) (e : Execution) :
    (e.precede step).ending = e.ending := rfl

@[simp] theorem notices_precede (step : Step) (e : Execution) :
    (e.precede step).notices = step.notices ++ e.notices := by
  simp [notices, precede]

@[simp] theorem instructions_precede (step : Step) (e : Execution) :
    (e.precede step).instructions = step.item.instruction :: e.instructions := rfl

/-- A step in front adds its own report to the report of an execution. -/
theorem report_precede (step : Step) (e : Execution) (halted : Bool) :
    (e.precede step).report halted = step.report.followedBy (e.report halted) := by
  have happlied : ∀ {β : Type} (f : Step → Option β),
      (step :: e.steps).filterMap f = (f step).toList ++ e.steps.filterMap f := by
    intro β f
    cases h : f step <;> simp [h]
  simp only [report, precede, Report.followedBy, Step.report, List.length_cons, happlied,
    Nat.add_comm]

/-- A step in front changes the answer by its own report only. -/
theorem outcome_precede (step : Step) (e : Execution) :
    (e.precede step).outcome = e.outcome.map step.report.followedBy := by
  rw [outcome, outcome, ending_precede]
  cases e.ending with
  | halted => exact congrArg Except.ok (report_precede step e true)
  | exhausted => exact congrArg Except.ok (report_precede step e false)
  | aborted offset cause => rfl
  | malformed cause => rfl

/-- An execution succeeds if it halts or is exhausted, with the report of its steps. -/
theorem outcome_eq_ok_iff {e : Execution} {report : Report} :
    e.outcome = .ok report ↔
      (e.ending = .halted ∧ report = e.report true) ∨
        (e.ending = .exhausted ∧ report = e.report false) := by
  rw [outcome]
  cases e.ending <;> simp [eq_comm]

/-- A report of success is that of the steps taken. -/
theorem eq_report_of_outcome {e : Execution} {report : Report} (h : e.outcome = .ok report) :
    report = e.report report.halted := by
  rcases outcome_eq_ok_iff.mp h with ⟨-, rfl⟩ | ⟨-, rfl⟩ <;> rfl

/-- The ending decides the kind of the answer, and the steps fill in the report only. -/
theorem outcome_of_ending {e e' : Execution} (h : e'.ending = e.ending) :
    e'.outcome = e.outcome.map fun report => e'.report report.halted := by
  rw [outcome, outcome, h]
  cases e.ending <;> rfl

/-- An execution fails with a lookup if it was aborted there. -/
theorem outcome_eq_undefined_iff {e : Execution} {offset : Nat} {cause : LookupError} :
    e.outcome = .error (.undefined offset cause) ↔ e.ending = .aborted offset cause := by
  rw [outcome]
  cases e.ending <;> simp

/-- An execution fails with a fault if it met that fault. -/
theorem outcome_eq_malformed_iff {e : Execution} {cause : DecodeError} :
    e.outcome = .error (.malformed cause) ↔ e.ending = .malformed cause := by
  rw [outcome]
  cases e.ending <;> simp

end Execution

/-! ## Lazy and eager reading -/

namespace Cursor

@[simp] theorem closing_nil (offset : Nat) : closing ⟨offset, []⟩ = .exhausted := by
  rw [closing, walk_nil]

theorem closing_of_fault {cursor after : Cursor} {cause : DecodeError}
    (h : cursor.next = (some (.error cause), after)) : cursor.closing = .malformed cause := by
  rw [closing, walk_of_fault h]

@[simp] theorem closing_encode_append (offset : Nat) (i : Instruction) (rest : List UInt8) :
    closing ⟨offset, i.encode ++ rest⟩ = closing ⟨offset + i.size, rest⟩ := by
  rw [closing, closing, walk_encode_append]
  cases walk ⟨offset + i.size, rest⟩ <;> rfl

/-- Reading never comes to its end by a halt instruction. -/
theorem closing_ne_halted (cursor : Cursor) : cursor.closing ≠ .halted := by
  rw [closing]
  cases cursor.walk <;> simp

/-- Reading never comes to its end by a lookup. -/
theorem closing_ne_aborted (cursor : Cursor) (offset : Nat) (cause : LookupError) :
    cursor.closing ≠ .aborted offset cause := by
  rw [closing]
  cases cursor.walk <;> simp

theorem closing_eq_malformed_iff {cursor : Cursor} {cause : DecodeError} :
    cursor.closing = .malformed cause ↔ cursor.walk = .error cause := by
  rw [closing]
  cases cursor.walk <;> simp

theorem closing_eq_exhausted_iff {cursor : Cursor} :
    cursor.closing = .exhausted ↔ cursor.walk = .ok cursor.yielded := by
  rw [closing]
  cases hwalk : cursor.walk with
  | error cause => simp
  | ok items => simp [yielded_of_walk hwalk]

end Cursor

namespace Execution

/-- **Lazy execution is eager execution.**  Reading each instruction just before it takes
effect comes to the same as reading all of them first. -/
theorem run_eq_follow (policy : Policy) (t : Table) (cursor : Cursor) :
    run policy t cursor = follow policy cursor.closing t cursor.yielded := by
  induction t, cursor using runInduction policy with
  | finished t offset =>
    rw [run_nil, Cursor.closing_nil, Cursor.yielded_nil, follow_nil]
  | fault t cursor after cause hnext =>
    rw [run_of_fault policy t hnext, Cursor.closing_of_fault hnext, Cursor.yielded_of_fault hnext,
      follow_nil]
  | ended t offset i rest ending hend =>
    -- an instruction that ends the run leaves `rest` unread, and `follow` drops what it yields
    rw [run_encode_of_ending hend, Cursor.yielded_encode_append, follow_of_ending hend]
  | step t offset i rest hend ih =>
    rw [run_encode_of_step hend, Cursor.closing_encode_append, Cursor.yielded_encode_append,
      follow_of_step hend, ih]

end Execution

namespace Machine

/-- A machine follows what a program yields. -/
theorem run_eq_follow (m : Machine) (program : Program) :
    m.run program =
      Execution.follow m.policy (Cursor.start program).closing m.table
        (Cursor.start program).yielded :=
  Execution.run_eq_follow m.policy m.table (Cursor.start program)

/-- A machine follows whole instructions in their layout, and then the program is exhausted. -/
theorem run_ofInstructions (m : Machine) (is : List Instruction) :
    m.run (Program.ofInstructions is) =
      Execution.follow m.policy .exhausted m.table (Located.layout 0 is) := by
  have hwalk := Cursor.walk_ofInstructions 0 is
  have hclosing : (Cursor.start (Program.ofInstructions is)).closing = .exhausted := by
    rw [Cursor.start, Cursor.closing, hwalk]
  rw [run_eq_follow, hclosing, Cursor.start, Cursor.yielded_of_walk hwalk]

end Machine

end SymbolicBytecode
