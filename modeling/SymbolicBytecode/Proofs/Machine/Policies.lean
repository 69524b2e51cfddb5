/-
# Aborting and proceeding

A lookup that fails ends a run under one policy and is passed over under the other.  Up to
that point nothing tells the two apart, so the run that proceeds is the run that aborts,
followed, if a lookup failed, by what stands behind that lookup:

* `Execution.missed_run_abort`           : a run that aborts misses at most one lookup, its last;
* `Execution.run_proceed_of_not_aborted` : the runs are the same if no lookup fails;
* `Execution.run_proceed_of_aborted`     : where the run that proceeds goes on, if one does;
* `Machine.policies_agree`               : the answers of the two machines compared.
-/
import SymbolicBytecode.Proofs.Machine.Concatenation
import SymbolicBytecode.Proofs.Machine.Endings

namespace SymbolicBytecode

/-! ## Lookups that fail -/

/-- The identifiers of the lookups that failed, in order. -/
def Execution.missed (e : Execution) : List UInt8 :=
  e.steps.filterMap fun step => step.effect.undefined?

/-- The identifier of the lookup that ended an execution. -/
def Ending.missed? : Ending → Option UInt8
  | aborted _ cause => some cause.id
  | _ => none

/-- An execution was aborted at a lookup. -/
def Execution.Aborted (e : Execution) : Prop :=
  ∃ offset cause, e.ending = .aborted offset cause

namespace Execution

theorem missed_precede (step : Step) (e : Execution) :
    (e.precede step).missed = step.effect.undefined?.toList ++ e.missed := by
  rw [missed, precede, List.filterMap_cons]
  cases step.effect.undefined? <;> rfl

@[simp] theorem missed_followedBy (first second : Execution) :
    (first.followedBy second).missed = first.missed ++ second.missed :=
  List.filterMap_append

/-- A report lists the lookups that failed. -/
theorem undefined_of_outcome {e : Execution} {report : Report} (h : e.outcome = .ok report) :
    report.undefined = e.missed :=
  congrArg Report.undefined (eq_report_of_outcome h)

/-- An execution that succeeds was not aborted. -/
theorem not_aborted_of_outcome {e : Execution} {report : Report} (h : e.outcome = .ok report) :
    ¬ e.Aborted := by
  rintro ⟨offset, cause, hending⟩
  rw [outcome_eq_undefined_iff.mpr hending] at h
  cases h

/-- No lookup ended an execution that was not aborted. -/
theorem missed?_of_not_aborted {e : Execution} (h : ¬ e.Aborted) : e.ending.missed? = none := by
  cases hending : e.ending with
  | aborted offset cause => exact absurd ⟨offset, cause, hending⟩ h
  | halted => rfl
  | exhausted => rfl
  | malformed cause => rfl

end Execution

namespace Policy

/-- What does not end a run that aborts does not end one that proceeds. -/
theorem ending?_proceed_of_abort {offset : Nat} {effect : Effect}
    (h : ending? .abort offset effect = none) : ending? .proceed offset effect = none := by
  cases effect <;> simp_all [ending?]

/-- What does not end a run that aborts is no lookup that failed. -/
theorem undefined?_of_abort {offset : Nat} {effect : Effect}
    (h : ending? .abort offset effect = none) : effect.undefined? = none := by
  cases effect <;> simp_all [ending?, Effect.undefined?]

end Policy

/-! ## The two runs -/

namespace Execution

/-- Of a run that aborts only the last lookup can have failed. -/
theorem missed_run_abort (t : Table) (cursor : Cursor) :
    (run .abort t cursor).missed = (run .abort t cursor).ending.missed?.toList := by
  induction t, cursor using runInduction .abort with
  | finished t offset => rw [run_nil]; rfl
  | fault t cursor after cause hnext => rw [run_of_fault .abort t hnext]; rfl
  | ended t offset i rest ending hend =>
    rw [run_encode_of_ending hend, missed_precede, ending_precede]
    rcases Table.ending?_perform_eq_some_iff.mp hend with ⟨rfl, rfl⟩ | ⟨-, id, rfl, hunbound, rfl⟩
    · rfl
    · rw [Table.step, Table.perform_apply_of_unbound hunbound]
      rfl
  | step t offset i rest hend ih =>
    rw [run_encode_of_step hend, missed_precede, ending_precede, ← ih, Table.step,
      Policy.undefined?_of_abort hend]
    rfl

/-- Without a lookup that fails, the policies come to the same. -/
theorem run_proceed_of_not_aborted {t : Table} {cursor : Cursor}
    (h : ¬ (run .abort t cursor).Aborted) : run .proceed t cursor = run .abort t cursor := by
  induction t, cursor using runInduction .abort with
  | finished t offset => rw [run_nil, run_nil]
  | fault t cursor after cause hnext =>
    rw [run_of_fault .abort t hnext, run_of_fault .proceed t hnext]
  | ended t offset i rest ending hend =>
    rw [run_encode_of_ending hend] at h ⊢
    rcases Table.ending?_perform_eq_some_iff.mp hend with ⟨rfl, rfl⟩ | ⟨-, id, rfl, -, rfl⟩
    · exact run_encode_of_ending rfl rest
    · exact absurd ⟨offset, .notDefined id, rfl⟩ h
  | step t offset i rest hend ih =>
    rw [run_encode_of_step hend] at h ⊢
    rw [run_encode_of_step (Policy.ending?_proceed_of_abort hend), ih h]

/-- Where a lookup fails, it stands at the offset that is reported, and the run that proceeds
goes on behind it. -/
theorem run_proceed_of_aborted {t : Table} {cursor : Cursor} {offset : Nat} {cause : LookupError}
    (h : (run .abort t cursor).ending = .aborted offset cause) :
    ∃ before after, cursor.rest = before ++ (Instruction.apply cause.id).encode ++ after ∧
      offset = cursor.offset + before.length ∧
      run .proceed t cursor = (run .abort t cursor).followedBy
        (run .proceed (run .abort t cursor).table ⟨offset + 2, after⟩) := by
  induction t, cursor using runInduction .abort with
  | finished t start =>
    rw [run_nil] at h
    cases h
  | fault t cursor after fault hnext =>
    rw [run_of_fault .abort t hnext] at h
    cases h
  | ended t start i rest ending hend =>
    rw [run_encode_of_ending hend] at h ⊢
    rcases Table.ending?_perform_eq_some_iff.mp hend with ⟨rfl, rfl⟩ | ⟨-, id, rfl, hunbound, rfl⟩
    · cases h
    · obtain ⟨rfl, rfl⟩ := Ending.aborted.inj h
      have hgoing : Policy.ending? .proceed start (t.perform (.apply id)).effect = none := by
        rw [Table.perform_apply_of_unbound hunbound]
        rfl
      refine ⟨[], rest, rfl, rfl, ?_⟩
      rw [run_encode_of_step hgoing]
      rfl
  | step t start i rest hend ih =>
    rw [run_encode_of_step hend] at h ⊢
    obtain ⟨before, after, hrest, hoffset, hrun⟩ := ih h
    simp only at hrest hoffset
    refine ⟨i.encode ++ before, after, ?_, ?_, ?_⟩
    · rw [hrest]
      simp only [List.append_assoc]
    · rw [hoffset, List.length_append, Instruction.length_encode, Nat.add_assoc]
    · rw [run_encode_of_step (Policy.ending?_proceed_of_abort hend), hrun, precede_followedBy,
        table_precede]

end Execution

/-! ## Machines -/

namespace Machine

/-- A machine that proceeds is never ended by a lookup. -/
theorem outcome_proceed_ne_undefined (t : Table) (program : Program) (offset : Nat)
    (cause : LookupError) :
    ((⟨t, .proceed⟩ : Machine).run program).outcome ≠ .error (.undefined offset cause) := by
  intro h
  have hforetold := foretold_iff.mpr (Execution.outcome_eq_undefined_iff.mp h)
  exact nomatch hforetold.1

/-- **The policies agree if no lookup fails.**  A machine that aborts succeeds exactly if one
that proceeds does and reports no lookup that failed, with the same report, and then the two
leave the same table and the same notices.  A machine that proceeds is never ended by a
lookup; and a fault that is met by the one that aborts is met by the other, which leaves the
same table. -/
theorem policies_agree (t : Table) (program : Program) :
    let aborting := (⟨t, .abort⟩ : Machine).run program
    let proceeding := (⟨t, .proceed⟩ : Machine).run program
    (∀ report, aborting.outcome = .ok report ↔
        proceeding.outcome = .ok report ∧ report.undefined = []) ∧
      (∀ report, aborting.outcome = .ok report →
        aborting.table = proceeding.table ∧ aborting.notices = proceeding.notices) ∧
      (∀ offset cause, proceeding.outcome ≠ .error (.undefined offset cause)) ∧
      ∀ cause, aborting.outcome = .error (.malformed cause) →
        proceeding.outcome = .error (.malformed cause) ∧
          aborting.table = proceeding.table := by
  intro aborting proceeding
  have hsame : ¬ aborting.Aborted → proceeding = aborting := Execution.run_proceed_of_not_aborted
  have hmissed : aborting.missed = aborting.ending.missed?.toList :=
    Execution.missed_run_abort t (Cursor.start program)
  refine ⟨fun report => ⟨fun hok => ?_, ?_⟩, fun report hok => ?_,
    outcome_proceed_ne_undefined t program, fun cause hfault => ?_⟩
  · have hnot := Execution.not_aborted_of_outcome hok
    refine ⟨hsame hnot ▸ hok, ?_⟩
    rw [Execution.undefined_of_outcome hok, hmissed, Execution.missed?_of_not_aborted hnot]
    rfl
  · rintro ⟨hok, hnone⟩
    by_cases haborted : aborting.Aborted
    · -- the lookup that ended the one run would be reported by the other
      obtain ⟨offset, cause, hending⟩ := haborted
      obtain ⟨before, after, -, -, hrun⟩ := Execution.run_proceed_of_aborted hending
      have hfollowed : proceeding.missed = aborting.missed ++ _ :=
        (congrArg Execution.missed hrun).trans (Execution.missed_followedBy _ _)
      rw [Execution.undefined_of_outcome hok, hfollowed, hmissed, hending] at hnone
      cases hnone
    · exact hsame haborted ▸ hok
  · rw [hsame (Execution.not_aborted_of_outcome hok)]
    exact ⟨rfl, rfl⟩
  · have hnot : ¬ aborting.Aborted := by
      rintro ⟨offset, cause', hending⟩
      rw [Execution.outcome_eq_malformed_iff.mp hfault] at hending
      cases hending
    rw [hsame hnot]
    exact ⟨hfault, rfl⟩

/-- A lookup of what was defined before, and an unassigned byte behind a reflection. -/
theorem policies_agree_found_and_fault :
    let t := (Table.fresh .silent).value
    let program : Program := [0xE0, 1, 7, 0xE1, 1, 0x05]
    let faulty : Program := [0xE2, 0xFF]
    ((⟨t, .abort⟩ : Machine).run program).outcome = .ok ⟨3, true, [⟨1, 7⟩], []⟩ ∧
      ((⟨t, .proceed⟩ : Machine).run program).outcome = .ok ⟨3, true, [⟨1, 7⟩], []⟩ ∧
      ((⟨t, .abort⟩ : Machine).run faulty).outcome = .error (.malformed (.invalidOpcode 0xFF 1)) ∧
      ((⟨t, .proceed⟩ : Machine).run faulty).outcome =
        .error (.malformed (.invalidOpcode 0xFF 1)) := by
  intro t program faulty
  have hok : ((⟨t, .abort⟩ : Machine).run program).outcome = .ok ⟨3, true, [⟨1, 7⟩], []⟩ := by
    have hrun : (⟨t, .abort⟩ : Machine).run program = Execution.follow .abort .exhausted t
        [⟨0, .define 1 7⟩, ⟨3, .apply 1⟩, ⟨5, .halt⟩] :=
      run_ofInstructions ⟨t, .abort⟩ [.define 1 7, .apply 1, .halt]
    have hbound : (t.perform (.define 1 7)).table.bindings.get? 1 = some 7 := by
      show (t.define 1 7).value.bindings.get? 1 = some 7
      rw [Table.get?_define, if_pos rfl]
    have hlookup := Table.perform_apply_of_bound hbound
    rw [hrun, Execution.follow_of_step rfl, Execution.follow_of_step (by rw [hlookup]; rfl),
      Execution.follow_of_ending rfl]
    simp only [Execution.outcome_precede, Table.step, hlookup]
    rfl
  have hfault : ((⟨t, .abort⟩ : Machine).run faulty).outcome =
      .error (.malformed (.invalidOpcode 0xFF 1)) := by
    have hnext : Cursor.next ⟨1, [0xFF]⟩ =
        (some (.error (.invalidOpcode 0xFF 1)), ⟨1, []⟩) := rfl
    have hgoing : Policy.ending? .abort 0 (t.perform .reflect).effect = none := rfl
    have hrun : (⟨t, .abort⟩ : Machine).run faulty =
        (Execution.run .abort t ⟨1, [0xFF]⟩).precede (t.step ⟨0, .reflect⟩) :=
      Execution.run_encode_of_step hgoing [0xFF]
    rw [hrun, Execution.run_of_fault .abort t hnext]
    rfl
  have hagree := ((policies_agree t program).1 _).mp hok
  have hfaulty := (policies_agree t faulty).2.2.2 _ hfault
  exact ⟨hok, hagree.1, hfault, hfaulty.1⟩

end Machine

end SymbolicBytecode
