/-
# Running a program again

A run leaves bound what it found bound or defined itself, and unbound the identifier whose
lookup ended it.  So a second run of the same program comes to the same instructions, although
it starts from another table, and the last definition of each identifier restores the value
that the first run left:

* `Execution.run_of_unbound_after` : the control flow depends on what is unbound at the end;
* `Execution.table_run_run`        : a second run leaves the table as it is;
* `Machine.run_again`              : the answers of both runs compared.
-/
import SymbolicBytecode.Proofs.Machine.Meaning

namespace SymbolicBytecode

/-! ## What a run leaves unbound -/

/-- An instruction leaves unbound what was unbound before and is not defined by it. -/
theorem Table.get?_perform_eq_none_iff {t : Table} {i : Instruction} {id : UInt8} :
    (t.perform i).table.bindings.get? id = none ↔
      i.definition? id = none ∧ t.bindings.get? id = none := by
  rw [get?_perform, Option.or_eq_none_iff]

namespace Execution

/-- As many instructions are executed as steps are taken. -/
theorem length_instructions (e : Execution) : e.instructions.length = e.steps.length :=
  List.length_map _

/-- No run changes the handler. -/
@[simp] theorem handler_run (policy : Policy) (t : Table) (cursor : Cursor) :
    (run policy t cursor).table.handler = t.handler := by
  rw [run_eq_follow]
  apply follow_induction (motive := fun t e => e.table.handler = t.handler)
  · intro t ending
    rfl
  · intro t item e h
    rw [table_precede, h, Table.handler_perform]

/-- The bindings that a run leaves behind are those after its instructions. -/
theorem get?_run (policy : Policy) (t : Table) (cursor : Cursor) (id : UInt8) :
    (run policy t cursor).table.bindings.get? id =
      t.bindings.valueAfter (run policy t cursor).instructions id := by
  rw [run_eq_follow]
  exact get?_follow _ _ _ _ id

/-- What is unbound after a run was unbound before it. -/
theorem unbound_of_run {policy : Policy} {t : Table} {cursor : Cursor} {id : UInt8}
    (h : (run policy t cursor).table.bindings.get? id = none) : t.bindings.get? id = none := by
  rw [get?_run, Bindings.valueAfter, Option.or_eq_none_iff] at h
  exact h.2

/-- **Only what is unbound at the end matters.**  A run from any table in which just those
identifiers are unbound that another run leaves unbound takes the same instructions as that
run and ends in the same way. -/
theorem run_of_unbound_after {policy : Policy} {t t' : Table} {cursor : Cursor}
    (h : ∀ id, t'.bindings.get? id = none ↔
      (run policy t cursor).table.bindings.get? id = none) :
    (run policy t' cursor).instructions = (run policy t cursor).instructions ∧
      (run policy t' cursor).ending = (run policy t cursor).ending := by
  induction t, cursor using runInduction policy generalizing t' with
  | finished t offset =>
    rw [run_nil, run_nil]
    exact ⟨rfl, rfl⟩
  | fault t cursor after cause hnext =>
    rw [run_of_fault policy t hnext, run_of_fault policy t' hnext]
    exact ⟨rfl, rfl⟩
  | ended t offset i rest ending hend =>
    rw [run_encode_of_ending hend, table_precede] at h
    have hend' : policy.ending? offset (t'.perform i).effect = some ending := by
      rw [Table.ending?_perform_eq_some_iff] at hend ⊢
      rcases hend with hhalt | ⟨hpolicy, id, rfl, hunbound, hending⟩
      · exact Or.inl hhalt
      · -- the lookup that fails is the last thing that happens, so it still fails afterwards
        rw [Table.table_perform_apply] at h
        exact Or.inr ⟨hpolicy, id, rfl, (h id).mpr hunbound, hending⟩
    rw [run_encode_of_ending hend, run_encode_of_ending hend']
    exact ⟨rfl, rfl⟩
  | step t offset i rest hend ih =>
    rw [run_encode_of_step hend, table_precede] at h
    have hbefore : ∀ id, t'.bindings.get? id = none →
        i.definition? id = none ∧ t.bindings.get? id = none :=
      fun id hid => Table.get?_perform_eq_none_iff.mp (unbound_of_run ((h id).mp hid))
    have hend' : policy.ending? offset (t'.perform i).effect = none :=
      Table.ending?_perform_of_unbound hend fun id hid => (hbefore id hid).2
    -- what the instruction defines is bound at the end, so it was bound in `t'` already
    have hafter : ∀ id, (t'.perform i).table.bindings.get? id = none ↔
        (run policy (t.perform i).table ⟨offset + i.size, rest⟩).table.bindings.get? id =
          none := by
      intro id
      rw [← h id, Table.get?_perform_eq_none_iff]
      exact ⟨And.right, fun hid => ⟨(hbefore id hid).1, hid⟩⟩
    obtain ⟨hinstructions, hending⟩ := ih hafter
    rw [run_encode_of_step hend, run_encode_of_step hend']
    refine ⟨?_, hending⟩
    rw [instructions_precede, instructions_precede, hinstructions]
    rfl

/-- Running again from the table that a run left behind leaves that table behind. -/
theorem table_run_run (policy : Policy) (t : Table) (cursor : Cursor) :
    (run policy (run policy t cursor).table cursor).table = (run policy t cursor).table := by
  have hinstructions : (run policy (run policy t cursor).table cursor).instructions =
      (run policy t cursor).instructions := (run_of_unbound_after fun _ => Iff.rfl).1
  have hbindings : (run policy (run policy t cursor).table cursor).table.bindings =
      (run policy t cursor).table.bindings := by
    apply Bindings.ext_get?
    intro id
    -- both look back to the same last definition, and without one nothing has changed
    rw [get?_run, hinstructions, get?_run, Bindings.valueAfter, get?_run, Bindings.valueAfter,
      ← Option.or_assoc, Option.or_self]
  calc (run policy (run policy t cursor).table cursor).table
      = ⟨(run policy (run policy t cursor).table cursor).table.bindings,
          (run policy (run policy t cursor).table cursor).table.handler⟩ := rfl
    _ = ⟨(run policy t cursor).table.bindings, (run policy t cursor).table.handler⟩ := by
        rw [hbindings, handler_run]

end Execution

/-! ## Machines -/

namespace Machine

/-- **Running a program again.**  Whatever the first run of a program came to, a second one on
the same machine leaves the table as it is.  If the first run failed, the second fails with the
same error; if it succeeded, the second succeeds with as many steps, and halts if the first one
did. -/
theorem run_again (m : Machine) (program : Program) :
    let first := m.run program
    let second := (m.after program).run program
    second.table = first.table ∧
      (∀ error, first.outcome = .error error → second.outcome = .error error) ∧
      ∀ report, first.outcome = .ok report →
        ∃ report', second.outcome = .ok report' ∧ report'.steps = report.steps ∧
          report'.halted = report.halted := by
  intro first second
  obtain ⟨hinstructions, hending⟩ : second.instructions = first.instructions ∧
      second.ending = first.ending := Execution.run_of_unbound_after fun _ => Iff.rfl
  have houtcome := Execution.outcome_of_ending hending
  refine ⟨Execution.table_run_run m.policy m.table (Cursor.start program),
    fun error herror => ?_, fun report hok => ?_⟩
  · rw [houtcome, herror]
    rfl
  · refine ⟨second.report report.halted, ?_, ?_, rfl⟩
    · rw [houtcome, hok]
      rfl
    · calc second.steps.length
          = first.steps.length := by
            rw [← Execution.length_instructions, hinstructions, Execution.length_instructions]
        _ = report.steps := (congrArg Report.steps (Execution.eq_report_of_outcome hok)).symm

/-- The identifier 1 is found with one value by the first run and with another by the second,
and the lookup of 2 fails in both. -/
theorem run_again_redefinition :
    let t := ((Table.fresh .silent).value.define 1 3).value
    let program : Program := [0xE1, 1, 0xE0, 1, 7, 0xE1, 2]
    let aborting : Machine := ⟨t, .abort⟩
    let proceeding : Machine := ⟨t, .proceed⟩
    (aborting.run program).outcome = .error (.undefined 5 (.notDefined 2)) ∧
      ((aborting.after program).run program).outcome =
        .error (.undefined 5 (.notDefined 2)) ∧
      (proceeding.run program).outcome = .ok ⟨3, false, [⟨1, 3⟩], [2]⟩ ∧
      ∃ report, ((proceeding.after program).run program).outcome = .ok report ∧
        report.steps = 3 ∧ report.halted = false := by
  intro t program aborting proceeding
  have hget : ∀ id, t.bindings.get? id = if 1 = id then some 3 else none := by
    intro id
    rw [Table.get?_define, Table.get?_fresh]
  have hrun : ∀ policy, (⟨t, policy⟩ : Machine).run program = Execution.follow policy .exhausted t
      [⟨0, .apply 1⟩, ⟨2, .define 1 7⟩, ⟨5, .apply 2⟩] :=
    fun policy => run_ofInstructions ⟨t, policy⟩ [.apply 1, .define 1 7, .apply 2]
  have herror : (aborting.run program).outcome = .error (.undefined 5 (.notDefined 2)) := by
    rw [hrun]
    simp [Execution.follow, Execution.outcome, Execution.precede, Table.perform, Table.apply,
      Table.get?_define, Policy.ending?, hget]
  have hok : (proceeding.run program).outcome = .ok ⟨3, false, [⟨1, 3⟩], [2]⟩ := by
    rw [hrun]
    simp [Execution.follow, Execution.outcome, Execution.precede, Execution.report, Table.step,
      Table.perform, Table.apply, Table.get?_define, Policy.ending?, Effect.applied?,
      Effect.undefined?, hget]
  exact ⟨herror, (run_again aborting program).2.1 _ herror, hok,
    (run_again proceeding program).2.2 _ hok⟩

end Machine

end SymbolicBytecode
