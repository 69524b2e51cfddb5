/-
# Running with more bindings

Two runs of one program are compared, of which the second starts from a table that holds all
that the first one starts from, and maybe more.  No instruction takes this relation away, so
every lookup that finds a symbol in the first run finds the same symbol in the second.  The
second run may find more, and for this reason it may get further if lookups that fail end it:

* `Report.Below`          : a report of as many lookups, of which no fewer succeed;
* `Execution.run_below`   : the two runs compared, unless a lookup ended the first;
* `Execution.run_aborted` : if a lookup ended the second, one ended the first no later;
* `Machine.run_mono`      : the answers of machines of either policy.
-/
import SymbolicBytecode.Proofs.Machine.Policies

namespace SymbolicBytecode

/-! ## More bindings -/

/-- Every identifier that is bound is bound to the same value in the other bindings. -/
instance : HasSubset Bindings where
  Subset b b' := ∀ id value, b.get? id = some value → b'.get? id = some value

/-- What is unbound among more bindings is unbound among fewer. -/
theorem Bindings.unbound_of_subset {b b' : Bindings} (h : b ⊆ b') {id : UInt8}
    (hid : b'.get? id = none) : b.get? id = none := by
  cases hget : b.get? id with
  | none => rfl
  | some value =>
    rw [h id value hget] at hid
    cases hid

/-- An instruction keeps what one table holds of another. -/
theorem Table.perform_mono {t t' : Table} (h : t.bindings ⊆ t'.bindings) (i : Instruction) :
    (t.perform i).table.bindings ⊆ (t'.perform i).table.bindings := by
  intro id value hget
  rw [get?_perform] at hget ⊢
  cases hdefinition : i.definition? id with
  | some defined =>
    rw [hdefinition] at hget
    exact hget
  | none =>
    rw [hdefinition] at hget
    exact h id value hget

/-! ## Reports that find more -/

/-- The second report tells of as many steps and as many lookups as the first.  All symbols
that the first one found are found, and what is missed was missed by the first one too. -/
structure Report.Below (r r' : Report) : Prop where
  steps : r'.steps = r.steps
  halted : r'.halted = r.halted
  applied : r.applied.Sublist r'.applied
  undefined : r'.undefined.Sublist r.undefined
  lookups : r'.applied.length + r'.undefined.length = r.applied.length + r.undefined.length

namespace Report

theorem Below.refl (r : Report) : r.Below r :=
  ⟨rfl, rfl, .refl _, .refl _, rfl⟩

/-- Reports are compared stretch by stretch. -/
theorem Below.followedBy {first first' second second' : Report} (hfirst : first.Below first')
    (hsecond : second.Below second') :
    (first.followedBy second).Below (first'.followedBy second') where
  steps := by
    simp only [Report.followedBy, hfirst.steps, hsecond.steps]
  halted := hsecond.halted
  applied := hfirst.applied.append hsecond.applied
  undefined := hfirst.undefined.append hsecond.undefined
  lookups := by
    have hlookups := hfirst.lookups
    have hlookups' := hsecond.lookups
    simp only [Report.followedBy, List.length_append]
    omega

/-- Where nothing was missed, nothing more can be found. -/
theorem Below.eq_of_undefined_eq_nil {r r' : Report} (h : r.Below r') (hnone : r.undefined = []) :
    r' = r := by
  have hundefined : r'.undefined = [] := by
    have hsublist := h.undefined
    rw [hnone] at hsublist
    exact List.sublist_nil.mp hsublist
  have hlength : r'.applied.length = r.applied.length := by
    have hlookups := h.lookups
    rw [hundefined, hnone] at hlookups
    exact hlookups
  have happlied : r'.applied = r.applied := (h.applied.eq_of_length hlength.symm).symm
  calc r'
      = ⟨r'.steps, r'.halted, r'.applied, r'.undefined⟩ := rfl
    _ = ⟨r.steps, r.halted, r.applied, r.undefined⟩ := by
        rw [h.steps, h.halted, happlied, hundefined, hnone]

end Report

/-- A step with more bindings is the same, or it is a lookup that succeeds for one that failed. -/
theorem Table.report_step_below {t t' : Table} (h : t.bindings ⊆ t'.bindings) (item : Located) :
    (t.step item).report.Below (t'.step item).report := by
  obtain ⟨offset, i⟩ := item
  cases i with
  | halt => exact .refl _
  | define id value => exact .refl _
  | apply id =>
    cases hget : t.bindings.get? id with
    | some value =>
      simp only [step, perform_apply_of_bound hget, perform_apply_of_bound (h id value hget)]
      exact .refl _
    | none =>
      cases hget' : t'.bindings.get? id with
      | none =>
        simp only [step, perform_apply_of_unbound hget, perform_apply_of_unbound hget']
        exact .refl _
      | some value =>
        simp only [step, perform_apply_of_unbound hget, perform_apply_of_bound hget']
        exact ⟨rfl, rfl, List.nil_sublist _, List.nil_sublist _, rfl⟩
  | reflect => exact .refl _

/-! ## The two runs -/

/-- The second execution ends as the first one does, with a report that may find more and with
all bindings of the first. -/
structure Execution.Below (e e' : Execution) : Prop where
  ending : e'.ending = e.ending
  report : ∀ halted, (e.report halted).Below (e'.report halted)
  bindings : e.table.bindings ⊆ e'.table.bindings

namespace Execution

/-- Executions without a step are compared by their tables. -/
theorem below_of_stopped {t t' : Table} (h : t.bindings ⊆ t'.bindings) (ending : Ending) :
    Below ⟨[], ending, t⟩ ⟨[], ending, t'⟩ :=
  ⟨rfl, fun halted => .refl ⟨0, halted, [], []⟩, h⟩

/-- A step in front keeps the comparison. -/
theorem Below.precede {t t' : Table} {e e' : Execution} (h : e.Below e')
    (hbindings : t.bindings ⊆ t'.bindings) (item : Located) :
    (e.precede (t.step item)).Below (e'.precede (t'.step item)) where
  ending := h.ending
  report halted := by
    rw [report_precede, report_precede]
    exact (Table.report_step_below hbindings item).followedBy (h.report halted)
  bindings := h.bindings

/-- Both executions fail with the same error, or both succeed, with reports to compare. -/
theorem Below.outcome {e e' : Execution} (h : e.Below e') :
    (∃ error, e.outcome = .error error ∧ e'.outcome = .error error) ∨
      ∃ report report', e.outcome = .ok report ∧ e'.outcome = .ok report' ∧
        report.Below report' := by
  have houtcome := outcome_of_ending h.ending
  cases hcase : e.outcome with
  | error error =>
    refine Or.inl ⟨error, rfl, ?_⟩
    rw [houtcome, hcase]
    rfl
  | ok report =>
    have hbelow := h.report report.halted
    rw [← eq_report_of_outcome hcase] at hbelow
    refine Or.inr ⟨report, e'.report report.halted, rfl, ?_, hbelow⟩
    rw [houtcome, hcase]
    rfl

/-- **A run with more bindings.**  Unless a lookup that fails ends the run, more bindings lead
to the same ending, to a report that may find more, and to more bindings. -/
theorem run_below {policy : Policy} {t t' : Table} {cursor : Cursor}
    (h : t.bindings ⊆ t'.bindings) (hgoing : ¬ (run policy t cursor).Aborted) :
    (run policy t cursor).Below (run policy t' cursor) := by
  induction t, cursor using runInduction policy generalizing t' with
  | finished t offset =>
    rw [run_nil, run_nil]
    exact below_of_stopped h .exhausted
  | fault t cursor after cause hnext =>
    rw [run_of_fault policy t hnext, run_of_fault policy t' hnext]
    exact below_of_stopped h (.malformed cause)
  | ended t offset i rest ending hend =>
    rw [run_encode_of_ending hend] at hgoing ⊢
    rcases Table.ending?_perform_eq_some_iff.mp hend with ⟨rfl, rfl⟩ | ⟨-, id, -, -, rfl⟩
    · have hhalt : policy.ending? offset (t'.perform .halt).effect = some .halted := rfl
      rw [run_encode_of_ending hhalt]
      exact (below_of_stopped h .halted).precede h ⟨offset, .halt⟩
    · exact absurd ⟨offset, .notDefined id, rfl⟩ hgoing
  | step t offset i rest hend ih =>
    have hend' : policy.ending? offset (t'.perform i).effect = none :=
      Table.ending?_perform_of_unbound hend fun id => Bindings.unbound_of_subset h
    rw [run_encode_of_step hend] at hgoing ⊢
    rw [run_encode_of_step hend']
    exact (ih (Table.perform_mono h i) hgoing).precede h ⟨offset, i⟩

/-- A lookup that ends a run stands behind the place where the run starts. -/
theorem offset_le_of_aborted {t : Table} {cursor : Cursor} {offset : Nat} {cause : LookupError}
    (h : (run .abort t cursor).ending = .aborted offset cause) : cursor.offset ≤ offset := by
  obtain ⟨before, after, -, hoffset, -⟩ := run_proceed_of_aborted h
  omega

/-- If a lookup ends the run with more bindings, then that lookup or one before it ends the run
with fewer. -/
theorem run_aborted {t t' : Table} {cursor : Cursor} (h : t.bindings ⊆ t'.bindings)
    {offset' : Nat} {cause' : LookupError}
    (h' : (run .abort t' cursor).ending = .aborted offset' cause') :
    ∃ offset cause, (run .abort t cursor).ending = .aborted offset cause ∧ offset ≤ offset' := by
  induction t', cursor using runInduction .abort generalizing t with
  | finished t' start =>
    rw [run_nil] at h'
    cases h'
  | fault t' cursor after fault hnext =>
    rw [run_of_fault .abort t' hnext] at h'
    cases h'
  | ended t' start i rest ending hend =>
    rw [run_encode_of_ending hend, ending_precede] at h'
    simp only at h'
    subst h'
    obtain ⟨-, id, rfl, hunbound, hending⟩ :=
      (Table.ending?_perform_eq_some_iff.mp hend).resolve_left fun hhalt => nomatch hhalt.2
    obtain ⟨rfl, rfl⟩ := Ending.aborted.inj hending
    have hfails : Policy.ending? .abort offset' (t.perform (.apply id)).effect =
        some (.aborted offset' (.notDefined id)) :=
      Table.ending?_perform_eq_some_iff.mpr
        (Or.inr ⟨rfl, id, rfl, Bindings.unbound_of_subset h hunbound, rfl⟩)
    refine ⟨offset', .notDefined id, ?_, Nat.le_refl _⟩
    rw [run_encode_of_ending hfails, ending_precede]
  | step t' start i rest hend ih =>
    rw [run_encode_of_step hend, ending_precede] at h'
    cases hend' : Policy.ending? .abort start (t.perform i).effect with
    | none =>
      rw [run_encode_of_step hend', ending_precede]
      exact ih (Table.perform_mono h i) h'
    | some ending =>
      -- the run with fewer bindings ends here, and what ends the other one stands further on
      have hlater := offset_le_of_aborted h'
      simp only at hlater
      rcases Table.ending?_perform_eq_some_iff.mp hend' with ⟨rfl, rfl⟩ | ⟨-, id, -, -, rfl⟩
      · cases hend
      · refine ⟨start, .notDefined id, ?_, by omega⟩
        rw [run_encode_of_ending hend', ending_precede]

end Execution

/-! ## Machines -/

namespace Machine

/-- A machine that aborts succeeds only if no lookup failed. -/
theorem undefined_of_outcome_abort {t : Table} {program : Program} {report : Report}
    (h : ((⟨t, .abort⟩ : Machine).run program).outcome = .ok report) : report.undefined = [] := by
  have hmissed := Execution.missed_run_abort t (Cursor.start program)
  have hnone := Execution.missed?_of_not_aborted (Execution.not_aborted_of_outcome h)
  calc report.undefined
      = ((⟨t, .abort⟩ : Machine).run program).missed := Execution.undefined_of_outcome h
    _ = ((⟨t, .abort⟩ : Machine).run program).ending.missed?.toList := hmissed
    _ = [] := by rw [hnone, Option.toList_none]

/-- **Runs are monotone in the table.**  Let a second table hold all bindings of a first, and
let one program be run with both.  Machines that proceed meet the same fault, or both succeed
with as many steps, and halt both or neither; what the first finds is found by the second in
the same order, and what the second misses is missed by the first.  For machines that abort,
the second succeeds with the same report if the first succeeds, and if a lookup ends the run of
the second, then a lookup at that offset or before it ends the run of the first.  After runs
that proceed, or of which the first succeeds, the second table holds all bindings of the
first again. -/
theorem run_mono {t t' : Table} (h : t.bindings ⊆ t'.bindings) (program : Program) :
    let proceeding := (⟨t, .proceed⟩ : Machine).run program
    let proceeding' := (⟨t', .proceed⟩ : Machine).run program
    let aborting := (⟨t, .abort⟩ : Machine).run program
    let aborting' := (⟨t', .abort⟩ : Machine).run program
    ((∃ cause, proceeding.outcome = .error (.malformed cause) ∧
          proceeding'.outcome = .error (.malformed cause)) ∨
        ∃ report report', proceeding.outcome = .ok report ∧ proceeding'.outcome = .ok report' ∧
          report'.steps = report.steps ∧ report'.halted = report.halted ∧
          report.applied.Sublist report'.applied ∧
          report'.undefined.Sublist report.undefined) ∧
      proceeding.table.bindings ⊆ proceeding'.table.bindings ∧
      (∀ report, aborting.outcome = .ok report →
        aborting'.outcome = .ok report ∧ aborting.table.bindings ⊆ aborting'.table.bindings) ∧
      ∀ offset' cause', aborting'.outcome = .error (.undefined offset' cause') →
        ∃ offset cause, aborting.outcome = .error (.undefined offset cause) ∧
          offset ≤ offset' := by
  intro proceeding proceeding' aborting aborting'
  have hproceeds : proceeding.Below proceeding' := by
    apply Execution.run_below h
    rintro ⟨offset, cause, hending⟩
    exact outcome_proceed_ne_undefined t program offset cause
      (Execution.outcome_eq_undefined_iff.mpr hending)
  refine ⟨?_, hproceeds.bindings, fun report hok => ?_, fun offset' cause' herror => ?_⟩
  · rcases hproceeds.outcome with
      ⟨error, herror, herror'⟩ | ⟨report, report', hok, hok', hbelow⟩
    · cases error with
      | malformed cause => exact Or.inl ⟨cause, herror, herror'⟩
      | undefined offset cause =>
        exact absurd herror (outcome_proceed_ne_undefined t program offset cause)
    · exact Or.inr ⟨report, report', hok, hok', hbelow.steps, hbelow.halted, hbelow.applied,
        hbelow.undefined⟩
  · have hnot := Execution.not_aborted_of_outcome hok
    have haborts : aborting.Below aborting' := Execution.run_below h hnot
    refine ⟨?_, haborts.bindings⟩
    rcases haborts.outcome with ⟨error, herror, -⟩ | ⟨found, report', hfound, hok', hbelow⟩
    · rw [hok] at herror
      cases herror
    · obtain rfl : report = found := Except.ok.inj (hok.symm.trans hfound)
      rw [hok', hbelow.eq_of_undefined_eq_nil (undefined_of_outcome_abort hok)]
  · obtain ⟨offset, cause, hending, hle⟩ :=
      Execution.run_aborted h (Execution.outcome_eq_undefined_iff.mp herror)
    exact ⟨offset, cause, Execution.outcome_eq_undefined_iff.mpr hending, hle⟩

/-- The table that binds 1 lets a run that aborts get from the first lookup to the second, and
nothing changes where everything is found without it. -/
theorem run_mono_one_more :
    let t := (Table.fresh .silent).value
    let t' := (t.define 1 7).value
    let program : Program := [0xE1, 1, 0xE1, 2, 0x05]
    let found : Program := [0xE0, 2, 9, 0xE1, 2]
    t.bindings ⊆ t'.bindings ∧
      ((⟨t', .abort⟩ : Machine).run program).outcome = .error (.undefined 2 (.notDefined 2)) ∧
      (∃ offset cause,
        ((⟨t, .abort⟩ : Machine).run program).outcome = .error (.undefined offset cause) ∧
          offset ≤ 2) ∧
      ((⟨t, .abort⟩ : Machine).run found).outcome = .ok ⟨2, false, [⟨2, 9⟩], []⟩ ∧
      ((⟨t', .abort⟩ : Machine).run found).outcome = .ok ⟨2, false, [⟨2, 9⟩], []⟩ := by
  intro t t' program found
  have hget : ∀ id, t.bindings.get? id = none := Table.get?_fresh .silent
  have hget' : ∀ id, t'.bindings.get? id = if 1 = id then some 7 else none := by
    intro id
    rw [Table.get?_define, hget]
  have hmore : t.bindings ⊆ t'.bindings := by
    intro id value hid
    rw [hget] at hid
    cases hid
  have herror : ((⟨t', .abort⟩ : Machine).run program).outcome =
      .error (.undefined 2 (.notDefined 2)) := by
    have hrun : (⟨t', .abort⟩ : Machine).run program = Execution.follow .abort .exhausted t'
        [⟨0, .apply 1⟩, ⟨2, .apply 2⟩, ⟨4, .halt⟩] :=
      run_ofInstructions ⟨t', .abort⟩ [.apply 1, .apply 2, .halt]
    rw [hrun]
    simp [Execution.follow, Execution.outcome, Execution.precede, Table.perform, Table.apply,
      Policy.ending?, hget']
  have hok : ((⟨t, .abort⟩ : Machine).run found).outcome = .ok ⟨2, false, [⟨2, 9⟩], []⟩ := by
    have hrun : (⟨t, .abort⟩ : Machine).run found = Execution.follow .abort .exhausted t
        [⟨0, .define 2 9⟩, ⟨3, .apply 2⟩] :=
      run_ofInstructions ⟨t, .abort⟩ [.define 2 9, .apply 2]
    rw [hrun]
    simp [Execution.follow, Execution.outcome, Execution.precede, Execution.report, Table.step,
      Table.perform, Table.apply, Table.get?_define, Policy.ending?, Effect.applied?,
      Effect.undefined?]
  exact ⟨hmore, herror, (run_mono hmore program).2.2.2 _ _ herror, hok,
    ((run_mono hmore found).2.2.1 _ hok).1⟩

end Machine

end SymbolicBytecode
