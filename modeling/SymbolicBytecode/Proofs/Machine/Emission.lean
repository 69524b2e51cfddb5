/-
# Emitting along a run

An execution is kept as a history, and its report and its log are read off when it is over.  They
can as well be built while it goes on, without keeping any history: a loop takes one instruction
after the other, counts it, announces it, lets it take effect and passes its notices on, and it is
left at a halt instruction and given up at a failed lookup or at a fault.  Both ways come to the
same answer, the same table and the same log.

* `Progress.pass`    : one pass of the loop, and whether the loop goes on behind it;
* `Progress.loop`    : the loop over what a cursor reads;
* `Progress.pass_eq_next`, `Progress.pass_eq_leave`, `Progress.pass_eq_fail` : what a pass comes to;
* `Progress.loop_eq` : the loop from any point on is the history from that point on;
* `Machine.emit_eq`  : the loop over a program, with the records of its beginning and its end.
-/
import SymbolicBytecode.Proofs.Machine.Trace

namespace SymbolicBytecode

/-! ## The loop -/

/-- What a run has come to so far: the table, the report and the log. -/
structure Progress where
  table : Table
  report : Report
  log : Log

/-- What is left of a run when it is over. -/
structure Emitted where
  outcome : Except ExecError Report
  table : Table
  log : Log

/-- How the loop goes on behind one of its passes. -/
inductive Pass
  | next (progress : Progress)
  /-- The loop is left, and the run succeeds. -/
  | leave (progress : Progress)
  /-- The run fails at once. -/
  | fail (progress : Progress) (cause : ExecError)

namespace Progress

/-- Adds a record to the log. -/
def record (p : Progress) (r : Record) : Progress :=
  { p with log := p.log ++ [.record r] }

/-- Adds notices to the log, as the handler of the table gets them. -/
def tell (p : Progress) (notices : List Notice) : Progress :=
  { p with log := p.log ++ Log.ofNotices p.table.handler notices }

/-- Counts an instruction and announces it. -/
def announce (p : Progress) (item : Located) : Progress :=
  record { p with report.steps := p.report.steps + 1 } (.stepped item.offset item.instruction)

/-- One pass of the loop: an instruction is announced and takes effect. -/
def pass (policy : Policy) (start : Progress) (item : Located) : Pass :=
  let p := start.announce item
  match item.instruction with
  | .halt => .leave { p with report.halted := true }
  | .define id value =>
    .next (tell { p with table := (p.table.define id value).value }
      (p.table.define id value).notices)
  | .apply id =>
    let told := p.tell (p.table.apply id).notices
    match (p.table.apply id).value, policy with
    | .ok value, _ => .next { told with report.applied := told.report.applied ++ [⟨id, value⟩] }
    | .error _, .proceed => .next { told with report.undefined := told.report.undefined ++ [id] }
    | .error cause, .abort =>
      .fail (told.record (.aborting item.offset id)) (.undefined item.offset cause)
  | .reflect => .next (p.tell p.table.reflect.notices)

/-- The run succeeds with its report. -/
def finish (p : Progress) : Emitted :=
  ⟨.ok p.report, p.table, (p.record (.runFinished p.report.steps p.report.halted)).log⟩

/-- The run fails, and its report is given up. -/
def giveUp (p : Progress) (cause : ExecError) : Emitted :=
  ⟨.error cause, p.table, p.log⟩

/-- The loop over what a cursor reads. -/
def loop (policy : Policy) (p : Progress) (cursor : Cursor) : Emitted :=
  match _step : cursor.next with
  | (none, _) => p.finish
  | (some (.error fault), _) => p.giveUp (.malformed fault)
  | (some (.ok item), after) =>
    match p.pass policy item with
    | .next p' => loop policy p' after
    | .leave p' => p'.finish
    | .fail p' cause => p'.giveUp cause
termination_by cursor.rest.length
decreasing_by exact Cursor.length_rest_next (by assumption)

/-! ## What an announcement changes -/

@[simp] theorem table_announce (p : Progress) (item : Located) :
    (p.announce item).table = p.table := rfl

/-- An instruction that is announced, and its notices, make up the log of one step. -/
theorem log_tell_announce (p : Progress) (item : Located) :
    ((p.announce item).tell (p.table.perform item.instruction).notices).log =
      p.log ++ Execution.stepLog p.table.handler (p.table.step item) :=
  List.append_assoc p.log [.record (.stepped item.offset item.instruction)] _

/-! ## One pass -/

/-- Where a run is behind an instruction, by the history of that one step. -/
def behind (p : Progress) (item : Located) : Progress where
  table := (p.table.perform item.instruction).table
  report := p.report.followedBy (p.table.step item).report
  log := p.log ++ Execution.stepLog p.table.handler (p.table.step item)

/-- Behind an instruction it has been announced and its notices have been told; the table and the
report are what its effect makes of them. -/
theorem behind_eq {p : Progress} (hgoing : p.report.halted = false) (item : Located) :
    let done := p.table.perform item.instruction
    let told := (p.announce item).tell done.notices
    p.behind item =
      { told with
        table := done.table
        report.applied := told.report.applied ++ done.effect.applied?.toList
        report.undefined := told.report.undefined ++ done.effect.undefined?.toList } := by
  intro done told
  unfold behind
  rw [Report.followedBy_report hgoing, ← log_tell_announce]
  rfl

/-- **Behind an instruction that does not end the run** the loop goes on. -/
theorem pass_eq_next {policy : Policy} {p : Progress} {item : Located}
    (hgoing : p.report.halted = false)
    (hend : policy.ending? item.offset (p.table.perform item.instruction).effect = none) :
    p.pass policy item = .next (p.behind item) := by
  rw [behind_eq hgoing]
  obtain ⟨offset, i⟩ := item
  cases i with
  | halt => simp [Table.perform, Policy.ending?] at hend
  | define id value =>
    simp [pass, tell, Table.perform, Table.define, Effect.applied?, Effect.undefined?]
  | apply id =>
    rcases hget : p.table.bindings.get? id with _ | value
    · rw [Table.perform_apply_of_unbound hget] at hend ⊢
      cases policy with
      | abort => simp [Policy.ending?] at hend
      | proceed =>
        simp [pass, tell, Table.apply_of_unbound hget, Effect.applied?, Effect.undefined?]
    · rw [Table.perform_apply_of_bound hget]
      simp [pass, tell, Table.apply_of_bound hget, Effect.applied?, Effect.undefined?]
  | reflect => simp [pass, tell, Table.perform, Effect.applied?, Effect.undefined?]

/-- A halt instruction leaves the loop. -/
theorem pass_eq_leave (policy : Policy) (p : Progress) (offset : Nat) :
    p.pass policy ⟨offset, .halt⟩ =
      .leave { p.announce ⟨offset, .halt⟩ with report.halted := true } := rfl

/-- A lookup that fails under the policy to abort ends the run. -/
theorem pass_eq_fail {p : Progress} {offset : Nat} {id : UInt8}
    (hget : p.table.bindings.get? id = none) :
    p.pass .abort ⟨offset, .apply id⟩ =
      .fail (((p.announce ⟨offset, .apply id⟩).tell [.undefined id]).record (.aborting offset id))
        (.undefined offset (.notDefined id)) := by
  simp [pass, Table.apply_of_unbound hget]

/-! ## The whole loop -/

theorem loop_of_end (policy : Policy) (p : Progress) {cursor after : Cursor}
    (h : cursor.next = (none, after)) : p.loop policy cursor = p.finish := by
  unfold loop
  split <;> simp_all

theorem loop_of_fault (policy : Policy) (p : Progress) {cursor after : Cursor}
    {fault : DecodeError} (h : cursor.next = (some (.error fault), after)) :
    p.loop policy cursor = p.giveUp (.malformed fault) := by
  unfold loop
  split <;> simp_all

theorem loop_encode_append (policy : Policy) (p : Progress) (offset : Nat) (i : Instruction)
    (rest : List UInt8) :
    p.loop policy ⟨offset, i.encode ++ rest⟩ =
      match p.pass policy ⟨offset, i⟩ with
      | .next p' => p'.loop policy ⟨offset + i.size, rest⟩
      | .leave p' => p'.finish
      | .fail p' cause => p'.giveUp cause := by
  have hnext := Cursor.next_encode_append offset i rest
  rw [loop]
  split <;> simp_all

/-- What is left of a run that has come this far and goes on with the given history. -/
def followedBy (p : Progress) (e : Execution) : Emitted where
  outcome := e.outcome.map p.report.followedBy
  table := e.table
  log := p.log ++ (e.steps.flatMap (Execution.stepLog p.table.handler) ++
    Log.ofRecords (closingRecord? (e.outcome.map p.report.followedBy)).toList)

/-- The first step of a history may be taken first. -/
theorem followedBy_precede (p : Progress) (item : Located) (e : Execution) :
    p.followedBy (e.precede (p.table.step item)) = (p.behind item).followedBy e := by
  have houtcome : (e.precede (p.table.step item)).outcome.map p.report.followedBy =
      e.outcome.map (p.behind item).report.followedBy := by
    rw [Execution.outcome_precede]
    rcases e.outcome with cause | report
    · rfl
    · exact congrArg Except.ok (Report.followedBy_assoc _ _ _).symm
  have hhandler : (p.behind item).table.handler = p.table.handler :=
    p.table.handler_perform item.instruction
  unfold followedBy
  rw [houtcome, hhandler]
  simp [Execution.precede, behind]

/-- A history that is exhausted: the run succeeds with its report. -/
theorem followedBy_exhausted {p : Progress} (hgoing : p.report.halted = false) :
    p.followedBy ⟨[], .exhausted, p.table⟩ = p.finish := by
  have hreport : p.report.followedBy ⟨0, false, [], []⟩ = p.report := by
    simp [Report.followedBy, ← hgoing]
  have houtcome : (Execution.outcome ⟨[], .exhausted, p.table⟩).map p.report.followedBy =
      .ok p.report := congrArg Except.ok hreport
  unfold followedBy finish
  rw [houtcome]
  rfl

/-- A history that halts: the run succeeds behind the halt instruction, which has no notices. -/
theorem followedBy_halted (p : Progress) (offset : Nat) :
    (p.behind ⟨offset, .halt⟩).followedBy ⟨[], .halted, p.table⟩ =
      finish { p.announce ⟨offset, .halt⟩ with report.halted := true } := by
  have hreport : (p.behind ⟨offset, .halt⟩).report.followedBy ⟨0, true, [], []⟩ =
      { p.report with steps := p.report.steps + 1, halted := true } := by
    simp [behind, Report.followedBy, Step.report, Table.step, Table.perform, Effect.applied?,
      Effect.undefined?]
  have houtcome : (Execution.outcome ⟨[], .halted, p.table⟩).map
      (p.behind ⟨offset, .halt⟩).report.followedBy =
        .ok { p.report with steps := p.report.steps + 1, halted := true } :=
    congrArg Except.ok hreport
  unfold followedBy finish
  rw [houtcome]
  rfl

/-- A history that is aborted is given up behind the lookup. -/
theorem followedBy_aborted {p : Progress} {id : UInt8} (hget : p.table.bindings.get? id = none)
    (offset : Nat) :
    (p.behind ⟨offset, .apply id⟩).followedBy ⟨[], .aborted offset (.notDefined id), p.table⟩ =
      giveUp (((p.announce ⟨offset, .apply id⟩).tell [.undefined id]).record (.aborting offset id))
        (.undefined offset (.notDefined id)) := by
  have hlog : (p.behind ⟨offset, .apply id⟩).log =
      ((p.announce ⟨offset, .apply id⟩).tell [.undefined id]).log := by
    have htold := p.log_tell_announce ⟨offset, .apply id⟩
    rw [Table.perform_apply_of_unbound hget] at htold
    exact htold.symm
  unfold followedBy giveUp
  rw [hlog]
  rfl

/-- **A loop that emits as it goes along** leaves the answer, the table and the log that the history
from there on tells of. -/
theorem loop_eq (policy : Policy) (p : Progress) (hgoing : p.report.halted = false)
    (cursor : Cursor) :
    p.loop policy cursor = p.followedBy (Execution.run policy p.table cursor) := by
  generalize ht : p.table = t
  induction t, cursor using Execution.runInduction policy generalizing p with
  | finished t offset =>
    subst ht
    rw [loop_of_end policy p (Cursor.next_nil offset), Execution.run_nil,
      followedBy_exhausted hgoing]
  | fault t cursor after cause hnext =>
    subst ht
    rw [loop_of_fault policy p hnext, Execution.run_of_fault policy p.table hnext]
    simp [giveUp, followedBy, Execution.outcome, Except.map, closingRecord?, Log.ofRecords]
  | ended t offset i rest ending hend =>
    subst ht
    rw [Execution.run_encode_of_ending hend, followedBy_precede, loop_encode_append]
    rcases Table.ending?_perform_eq_some_iff.mp hend with
      ⟨rfl, rfl⟩ | ⟨rfl, id, rfl, hget, rfl⟩
    · rw [pass_eq_leave]
      exact (p.followedBy_halted offset).symm
    · rw [pass_eq_fail hget, Table.table_perform_apply]
      exact (followedBy_aborted hget offset).symm
  | step t offset i rest hend ih =>
    subst ht
    rw [Execution.run_encode_of_step hend, followedBy_precede, loop_encode_append,
      pass_eq_next hgoing hend]
    exact ih (p.behind ⟨offset, i⟩) rfl rfl

end Progress

/-! ## A whole run -/

/-- A run of a program of the given length that is about to begin. -/
def Progress.opened (table : Table) (length : Nat) : Progress :=
  ⟨table, ⟨0, false, [], []⟩, [.record (.runOpened length)]⟩

/-- The run is over, whatever its outcome. -/
def Emitted.close (e : Emitted) : Emitted :=
  { e with log := e.log ++ [.record .runClosed] }

namespace Machine

/-- Runs a program by the loop that emits as it goes along. -/
def emit (m : Machine) (program : Program) : Emitted :=
  ((Progress.opened m.table program.length).loop m.policy (Cursor.start program)).close

/-- **What is emitted along a run is what its history tells**: the answer, the table that is left
behind and the log, record by record and notice by notice. -/
theorem emit_eq (m : Machine) (program : Program) :
    m.emit program =
      ⟨(m.run program).outcome, (m.after program).table, (m.run program).log program.length⟩ := by
  -- the report of a run that has not begun adds nothing
  have houtcome : (m.run program).outcome.map
      (Progress.opened m.table program.length).report.followedBy = (m.run program).outcome := by
    rcases (m.run program).outcome with cause | report
    · rfl
    · simp [Except.map, Progress.opened, Report.followedBy]
  have hhandler : (m.run program).table.handler = m.table.handler := Execution.handler_run _ _ _
  have hloop : (Progress.opened m.table program.length).loop m.policy (Cursor.start program) =
      (Progress.opened m.table program.length).followedBy (m.run program) :=
    Progress.loop_eq m.policy _ rfl _
  unfold emit Emitted.close Execution.log
  rw [hloop, Progress.followedBy, houtcome, hhandler, Execution.endingRecords_eq]
  simp [Progress.opened, Log.ofRecords, after]

end Machine

end SymbolicBytecode
