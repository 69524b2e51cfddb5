/-
# Going on behind lookups that fail

A machine that aborts names the offset of the lookup that failed and keeps the table as it was
there.  Whoever runs it can therefore go on behind that lookup, again and again, and gets in
the end what a machine that proceeds does in one run:

* `Machine.Resumes`                 : running again behind each lookup that fails;
* `Machine.exists_resumes`          : this comes to an end;
* `Machine.resumption_of_resumes`   : what it comes to, from any offset on;
* `Machine.resumes_like_proceeding` : the comparison with one run of a whole program.
-/
import SymbolicBytecode.Proofs.Machine.Policies

namespace SymbolicBytecode

/-- What comes of a program that is run in several goes. -/
structure Resumption where
  /-- The identifiers of the lookups that failed, in order. -/
  missed : List UInt8
  /-- The notices of all runs, in order. -/
  notices : List Notice
  table : Table
  /-- Whether the last run halted, or the fault that ended it. -/
  outcome : Except ExecError Bool

/-- What comes of a program that is run in one go. -/
def Execution.resumption (e : Execution) : Resumption :=
  ⟨e.missed, e.notices, e.table, e.outcome.map Report.halted⟩

/-- A machine is run on a program and, after each run that is ended by a lookup, once more on
the bytes behind the two bytes of that lookup, until a run ends in another way.  The program
starts at the given offset of a larger one, in which the offset of a fault is counted. -/
inductive Machine.Resumes : Machine → Nat → Program → Resumption → Prop
  | last {m : Machine} {start : Nat} {program : Program}
      (hlast : ∀ offset cause, (m.run program).outcome ≠ .error (.undefined offset cause)) :
      Resumes m start program
        ⟨[], (m.run program).notices, (m.run program).table,
          ((m.run program).outcome.map Report.halted).mapError (ExecError.shift start)⟩
  | again {m : Machine} {start : Nat} {program : Program} {offset : Nat} {id : UInt8}
      {r : Resumption}
      (hfailed : (m.run program).outcome = .error (.undefined offset (.notDefined id)))
      (hinside : offset + 2 ≤ program.length)
      (hrest : Resumes (m.after program) (start + (offset + 2)) (program.drop (offset + 2)) r) :
      Resumes m start program
        { r with missed := id :: r.missed, notices := (m.run program).notices ++ r.notices }

/-! ## What one run comes to -/

namespace Execution

@[simp] theorem missed_shift (distance : Nat) (e : Execution) :
    (e.shift distance).missed = e.missed := by
  rw [missed, shift, List.filterMap_map]
  rfl

/-- Of what comes of a run that was moved, only the offset of a fault is another. -/
theorem resumption_shift (distance : Nat) (e : Execution) :
    (e.shift distance).resumption =
      ⟨e.missed, e.notices, e.table,
        (e.outcome.map Report.halted).mapError (ExecError.shift distance)⟩ := by
  rw [resumption, missed_shift, notices_shift, table_shift, outcome_shift]
  cases e.outcome <;> rfl

/-- Of two executions one behind the other, lookups that failed and notices are put together,
and the rest is that of the second. -/
theorem resumption_followedBy (first second : Execution) :
    (first.followedBy second).resumption =
      ⟨first.missed ++ second.missed, first.notices ++ second.notices, second.table,
        second.outcome.map Report.halted⟩ := by
  rw [resumption, missed_followedBy, notices_followedBy, table_followedBy,
    outcome_followedBy first second false]
  cases second.outcome <;> rfl

end Execution

namespace Machine

/-- Of a machine that aborts only the last lookup can have failed. -/
theorem missed_run {m : Machine} (hm : m.policy = .abort) (program : Program) :
    (m.run program).missed = (m.run program).ending.missed?.toList := by
  have hmissed := Execution.missed_run_abort m.table (Cursor.start program)
  rw [← hm] at hmissed
  exact hmissed

/-- If no lookup failed, proceeding comes to the same. -/
theorem proceed_of_not_aborted {m : Machine} (hm : m.policy = .abort) {program : Program}
    (h : ¬ (m.run program).Aborted) (start : Nat) :
    Execution.run .proceed m.table ⟨start, program⟩ = (m.run program).shift start := by
  rw [run, hm] at h ⊢
  rw [← Execution.run_proceed_of_not_aborted h]
  exact run_at ⟨m.table, .proceed⟩ start program

/-- If a lookup failed, its two bytes stand at the offset, and proceeding goes on behind
them. -/
theorem proceed_of_failed {m : Machine} (hm : m.policy = .abort) {program : Program}
    {offset : Nat} {cause : LookupError}
    (h : (m.run program).outcome = .error (.undefined offset cause)) (start : Nat) :
    offset + 2 ≤ program.length ∧
      Execution.run .proceed m.table ⟨start, program⟩ =
        ((m.run program).shift start).followedBy
          (Execution.run .proceed (m.after program).table
            ⟨start + (offset + 2), program.drop (offset + 2)⟩) := by
  have hat := m.run_at start program
  rw [hm] at hat
  have hending : (Execution.run .abort m.table ⟨start, program⟩).ending =
      .aborted (offset + start) cause := by
    rw [hat, Execution.ending_shift, Execution.outcome_eq_undefined_iff.mp h]
    rfl
  obtain ⟨before, after, hbytes, hoffset, hrun⟩ := Execution.run_proceed_of_aborted hending
  simp only at hbytes hoffset
  -- the bytes up to the end of the lookup are those that are dropped
  have hlength : (before ++ (Instruction.apply cause.id).encode).length = offset + 2 := by
    rw [List.length_append, Instruction.length_encode]
    show before.length + 2 = offset + 2
    omega
  have hdrop : program.drop (offset + 2) = after := by
    rw [hbytes, ← hlength, List.drop_left]
  refine ⟨?_, ?_⟩
  · rw [hbytes, List.length_append, hlength]
    omega
  · rw [hrun, hat, hdrop, Execution.table_shift, Nat.add_comm offset start, Nat.add_assoc]
    rfl

/-! ## Resuming comes to an end -/

/-- A run that is ended by a lookup leaves bytes to go on with, and fewer than it was given,
so a last run is reached. -/
theorem exists_resumes {m : Machine} (hm : m.policy = .abort) (start : Nat) (program : Program) :
    ∃ r, m.Resumes start program r := by
  induction hlength : program.length using Nat.strongRecOn generalizing m start program with
  | ind length ih =>
    by_cases haborted : (m.run program).Aborted
    · obtain ⟨offset, ⟨id⟩, hending⟩ := haborted
      have hfailed := Execution.outcome_eq_undefined_iff.mpr hending
      have hinside := (proceed_of_failed hm hfailed start).1
      have hshorter : (program.drop (offset + 2)).length < length := by
        rw [List.length_drop]
        omega
      have hafter : (m.after program).policy = .abort := hm
      obtain ⟨r, hrest⟩ := ih _ hshorter hafter (start + (offset + 2)) _ rfl
      exact ⟨_, .again hfailed hinside hrest⟩
    · refine ⟨_, .last fun offset cause hfailed => haborted ?_⟩
      exact ⟨offset, cause, Execution.outcome_eq_undefined_iff.mp hfailed⟩

/-! ## What resuming comes to -/

/-- Resuming comes to what one run does that proceeds from the same offset. -/
theorem resumption_of_resumes {m : Machine} {start : Nat} {program : Program} {r : Resumption}
    (h : m.Resumes start program r) (hm : m.policy = .abort) :
    r = (Execution.run .proceed m.table ⟨start, program⟩).resumption := by
  induction h with
  | @last m start program hlast =>
    have hnot : ¬ (m.run program).Aborted := by
      rintro ⟨offset, cause, hending⟩
      exact hlast offset cause (Execution.outcome_eq_undefined_iff.mpr hending)
    rw [proceed_of_not_aborted hm hnot, Execution.resumption_shift, missed_run hm,
      Execution.missed?_of_not_aborted hnot]
    rfl
  | @again m start program offset id r hfailed hinside hrest ih =>
    have hending := Execution.outcome_eq_undefined_iff.mp hfailed
    rw [(proceed_of_failed hm hfailed start).2, Execution.resumption_followedBy, ih hm,
      Execution.missed_shift, Execution.notices_shift, missed_run hm, hending]
    rfl

/-- **Aborting and going on is proceeding.**  If a machine that aborts is run again behind
each lookup that fails, this comes to an end, whatever the table and the program are; and then
the table, all notices in order and the last outcome, a halt, the end of the program or a
fault with its offset in the whole program, are those of one run of a machine that proceeds,
and if that run succeeds its report lists the same lookups that failed. -/
theorem resumes_like_proceeding (t : Table) (program : Program) :
    let proceeding := (⟨t, .proceed⟩ : Machine).run program
    (∃ r, (⟨t, .abort⟩ : Machine).Resumes 0 program r) ∧
      ∀ r, (⟨t, .abort⟩ : Machine).Resumes 0 program r →
        r.table = proceeding.table ∧
        r.notices = proceeding.notices ∧
        r.outcome = proceeding.outcome.map Report.halted ∧
        ∀ report, proceeding.outcome = .ok report → r.missed = report.undefined := by
  intro proceeding
  refine ⟨exists_resumes rfl 0 program, fun r hr => ?_⟩
  have hresumption := resumption_of_resumes hr rfl
  change r = proceeding.resumption at hresumption
  subst hresumption
  refine ⟨rfl, rfl, rfl, fun report hok => ?_⟩
  exact (Execution.undefined_of_outcome hok).symm

/-- The second lookup of 1 finds what was defined behind the first, and resuming behind the
lookup of 2 comes to a halt. -/
theorem resumes_like_proceeding_twice :
    let t := (Table.fresh .silent).value
    let program : Program := [0xE1, 1, 0xE0, 1, 7, 0xE1, 1, 0xE1, 2, 0x05]
    ((⟨t, .proceed⟩ : Machine).run program).outcome = .ok ⟨5, true, [⟨1, 7⟩], [1, 2]⟩ ∧
      ∃ r, (⟨t, .abort⟩ : Machine).Resumes 0 program r ∧ r.missed = [1, 2] ∧
        r.outcome = .ok true := by
  intro t program
  have hget : ∀ id, t.bindings.get? id = none := Table.get?_fresh .silent
  have hok : ((⟨t, .proceed⟩ : Machine).run program).outcome =
      .ok ⟨5, true, [⟨1, 7⟩], [1, 2]⟩ := by
    have hrun : (⟨t, .proceed⟩ : Machine).run program = Execution.follow .proceed .exhausted t
        [⟨0, .apply 1⟩, ⟨2, .define 1 7⟩, ⟨5, .apply 1⟩, ⟨7, .apply 2⟩, ⟨9, .halt⟩] :=
      run_ofInstructions ⟨t, .proceed⟩ [.apply 1, .define 1 7, .apply 1, .apply 2, .halt]
    rw [hrun]
    simp [Execution.follow, Execution.outcome, Execution.precede, Execution.report, Table.step,
      Table.perform, Table.apply, Table.get?_define, Policy.ending?, Effect.applied?,
      Effect.undefined?, hget]
  obtain ⟨⟨r, hr⟩, hlike⟩ := resumes_like_proceeding t program
  obtain ⟨-, -, houtcome, hmissed⟩ := hlike r hr
  rw [hok] at houtcome
  exact ⟨hok, r, hr, hmissed _ hok, houtcome⟩

end Machine

end SymbolicBytecode
