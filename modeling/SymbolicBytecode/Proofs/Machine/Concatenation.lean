/-
# Running one program behind another

Reading is local: where a stretch of bytes stands decides the offsets that are reported and
nothing else, and bytes are looked at only when everything before them was read.  So a run of
`p ++ q` is a run of `p` and then, if that one came to the end of `p`, a run of `q` from the
table it left.  Nothing can be said from the two runs if `p` ends within an instruction, whose
operands are then taken from `q`.

* `Execution.run_shift`               : a run that starts at a later offset;
* `Execution.run_append_of_settled`   : endings that no further bytes change;
* `Execution.run_append_of_exhausted` : a run that goes on behind the end of the first bytes;
* `Machine.run_append`                : the three cases for a machine.
-/
import SymbolicBytecode.Proofs.Machine.Eager

namespace SymbolicBytecode

/-! ## Moving a run to another offset -/

/-- The same fault, further on in a program. -/
def DecodeError.shift (distance : Nat) : DecodeError → DecodeError
  | invalidOpcode byte offset => invalidOpcode byte (offset + distance)
  | truncated opcode offset => truncated opcode (offset + distance)

/-- The same error, further on in a program. -/
def ExecError.shift (distance : Nat) : ExecError → ExecError
  | malformed cause => malformed (cause.shift distance)
  | undefined offset cause => undefined (offset + distance) cause

/-- The same ending, further on in a program. -/
def Ending.shift (distance : Nat) : Ending → Ending
  | aborted offset cause => aborted (offset + distance) cause
  | malformed cause => malformed (cause.shift distance)
  | ending => ending

/-- The same step, further on in a program. -/
def Step.shift (distance : Nat) (step : Step) : Step :=
  { step with item := ⟨step.item.offset + distance, step.item.instruction⟩ }

/-- The same execution, further on in a program. -/
def Execution.shift (distance : Nat) (e : Execution) : Execution :=
  ⟨e.steps.map (Step.shift distance), e.ending.shift distance, e.table⟩

/-- A fault is the same fault wherever the bytes stand. -/
theorem Cursor.next_shift_of_fault {offset : Nat} {bytes : List UInt8} {cause : DecodeError}
    {after : Cursor} (h : next ⟨offset, bytes⟩ = (some (.error cause), after)) (distance : Nat) :
    next ⟨offset + distance, bytes⟩ =
      (some (.error (cause.shift distance)), ⟨offset + distance, []⟩) := by
  rw [next] at h ⊢
  cases hfront : Front.of bytes with
  | finished => rw [hfront] at h; cases h
  | found i rest => rw [hfront] at h; cases h
  | unassigned b => rw [hfront] at h; cases h; rfl
  | cutShort op => rw [hfront] at h; cases h; rfl

/-- An effect ends a run further on in the same way, or not at all. -/
theorem Policy.ending?_shift (policy : Policy) (offset distance : Nat) (effect : Effect) :
    policy.ending? (offset + distance) effect =
      (policy.ending? offset effect).map (Ending.shift distance) := by
  cases policy <;> cases effect <;> rfl

namespace Execution

@[simp] theorem table_shift (distance : Nat) (e : Execution) :
    (e.shift distance).table = e.table := rfl

@[simp] theorem ending_shift (distance : Nat) (e : Execution) :
    (e.shift distance).ending = e.ending.shift distance := rfl

theorem shift_precede (distance : Nat) (step : Step) (e : Execution) :
    (e.precede step).shift distance = (e.shift distance).precede (step.shift distance) := rfl

@[simp] theorem notices_shift (distance : Nat) (e : Execution) :
    (e.shift distance).notices = e.notices := by
  rw [notices, shift, List.flatMap_map]
  rfl

@[simp] theorem report_shift (distance : Nat) (e : Execution) (halted : Bool) :
    (e.shift distance).report halted = e.report halted := by
  simp only [report, shift, List.length_map, List.filterMap_map]
  rfl

/-- Of an answer only the offset of an error is moved. -/
theorem outcome_shift (distance : Nat) (e : Execution) :
    (e.shift distance).outcome = e.outcome.mapError (ExecError.shift distance) := by
  rw [outcome, outcome, ending_shift]
  cases e.ending with
  | halted => exact congrArg Except.ok (report_shift distance e true)
  | exhausted => exact congrArg Except.ok (report_shift distance e false)
  | aborted offset cause => rfl
  | malformed cause => rfl

/-- **A run does not depend on where it starts.**  Further on in a program it takes the same
steps and ends in the same way, with the offsets moved. -/
theorem run_shift (policy : Policy) (t : Table) (cursor : Cursor) (distance : Nat) :
    run policy t ⟨cursor.offset + distance, cursor.rest⟩ =
      (run policy t cursor).shift distance := by
  induction t, cursor using runInduction policy with
  | finished t offset => simp [shift, Ending.shift]
  | fault t cursor after cause hnext =>
    have hmoved := Cursor.next_shift_of_fault hnext distance
    rw [run_of_fault policy t hnext, run_of_fault policy t hmoved]
    rfl
  | ended t offset i rest ending hend =>
    have hmoved := policy.ending?_shift offset distance (t.perform i).effect
    rw [hend] at hmoved
    rw [run_encode_of_ending hend, run_encode_of_ending hmoved]
    rfl
  | step t offset i rest hend ih =>
    have hmoved := policy.ending?_shift offset distance (t.perform i).effect
    rw [hend] at hmoved
    rw [run_encode_of_step hend, run_encode_of_step hmoved, shift_precede, ← ih,
      Nat.add_right_comm]
    rfl

end Execution

/-! ## Going on behind an execution -/

/-- An execution and the one that goes on from the table it left. -/
def Execution.followedBy (first second : Execution) : Execution :=
  ⟨first.steps ++ second.steps, second.ending, second.table⟩

namespace Execution

@[simp] theorem table_followedBy (first second : Execution) :
    (first.followedBy second).table = second.table := rfl

@[simp] theorem ending_followedBy (first second : Execution) :
    (first.followedBy second).ending = second.ending := rfl

theorem precede_followedBy (step : Step) (first second : Execution) :
    (first.precede step).followedBy second = (first.followedBy second).precede step := rfl

@[simp] theorem notices_followedBy (first second : Execution) :
    (first.followedBy second).notices = first.notices ++ second.notices :=
  List.flatMap_append

/-- Whether the first execution halted is of no account if another follows it. -/
theorem report_followedBy (first second : Execution) (halted halted' : Bool) :
    (first.followedBy second).report halted =
      (first.report halted').followedBy (second.report halted) := by
  simp [report, followedBy, Report.followedBy]

/-- The answer is that of the second execution, with the report of both. -/
theorem outcome_followedBy (first second : Execution) (halted : Bool) :
    (first.followedBy second).outcome =
      second.outcome.map (first.report halted).followedBy := by
  rw [outcome, outcome, ending_followedBy]
  cases second.ending with
  | halted => exact congrArg Except.ok (report_followedBy first second true halted)
  | exhausted => exact congrArg Except.ok (report_followedBy first second false halted)
  | aborted offset cause => rfl
  | malformed cause => rfl

end Execution

/-! ## More bytes behind the bytes of a run -/

/-- An ending that stays the same whatever stands behind the bytes that were read. -/
inductive Ending.Settled : Ending → Prop
  | halted : Settled .halted
  | aborted (offset : Nat) (cause : LookupError) : Settled (.aborted offset cause)
  | invalidOpcode (byte : UInt8) (offset : Nat) : Settled (.malformed (.invalidOpcode byte offset))

/-- No effect brings a run to the end of its bytes. -/
theorem Policy.ending?_ne_exhausted (policy : Policy) (offset : Nat) (effect : Effect) :
    policy.ending? offset effect ≠ some .exhausted := by
  cases policy <;> cases effect <;> simp [Policy.ending?]

/-- An unassigned byte is reported whatever stands behind it. -/
theorem Cursor.next_append_of_invalid {cursor after : Cursor} {byte : UInt8} {offset : Nat}
    (h : cursor.next = (some (.error (.invalidOpcode byte offset)), after)) (more : List UInt8) :
    next ⟨cursor.offset, cursor.rest ++ more⟩ =
      (some (.error (.invalidOpcode byte offset)), after) := by
  rw [next] at h ⊢
  cases hfront : Front.of cursor.rest with
  | finished => rw [hfront] at h; cases h
  | found i rest => rw [hfront] at h; cases h
  | unassigned b =>
    obtain ⟨hhead, hop⟩ := Front.of_eq_unassigned_iff.mp hfront
    have hmore : Front.of (cursor.rest ++ more) = .unassigned b := by
      rw [Front.of_eq_unassigned_iff, List.head?_append, hhead]
      exact ⟨rfl, hop⟩
    rw [hmore, ← h, hfront]
  | cutShort op => rw [hfront] at h; cases h

namespace Execution

/-- A run that is settled does not look at what stands behind its bytes. -/
theorem run_append_of_settled {policy : Policy} {t : Table} {cursor : Cursor}
    (h : (run policy t cursor).ending.Settled) (more : List UInt8) :
    run policy t ⟨cursor.offset, cursor.rest ++ more⟩ = run policy t cursor := by
  induction t, cursor using runInduction policy with
  | finished t offset =>
    rw [run_nil] at h
    cases h
  | fault t cursor after cause hnext =>
    rw [run_of_fault policy t hnext] at h ⊢
    -- an instruction that was cut short could be completed, so that fault is not settled
    cases h with
    | invalidOpcode byte offset =>
      exact run_of_fault policy t (Cursor.next_append_of_invalid hnext more)
  | ended t offset i rest ending hend =>
    rw [List.append_assoc, run_encode_of_ending hend, run_encode_of_ending hend]
  | step t offset i rest hend ih =>
    rw [run_encode_of_step hend] at h
    rw [List.append_assoc, run_encode_of_step hend, run_encode_of_step hend, ← ih h]

/-- A run that comes to the end of its bytes goes on with what stands behind them. -/
theorem run_append_of_exhausted {policy : Policy} {t : Table} {cursor : Cursor}
    (h : (run policy t cursor).ending = .exhausted) (more : List UInt8) :
    run policy t ⟨cursor.offset, cursor.rest ++ more⟩ =
      (run policy t cursor).followedBy
        (run policy (run policy t cursor).table ⟨cursor.offset + cursor.rest.length, more⟩) := by
  induction t, cursor using runInduction policy with
  | finished t offset =>
    rw [run_nil]
    rfl
  | fault t cursor after cause hnext =>
    rw [run_of_fault policy t hnext] at h
    cases h
  | ended t offset i rest ending hend =>
    rw [run_encode_of_ending hend, ending_precede] at h
    simp only at h
    subst h
    exact absurd hend (policy.ending?_ne_exhausted offset _)
  | step t offset i rest hend ih =>
    rw [run_encode_of_step hend, ending_precede] at h
    rw [List.append_assoc, run_encode_of_step hend, run_encode_of_step hend, ih h,
      precede_followedBy, table_precede, List.length_append, Instruction.length_encode,
      Nat.add_assoc]

end Execution

/-! ## Machines -/

namespace Machine

/-- The run of a machine on bytes that start at an offset. -/
theorem run_at (m : Machine) (start : Nat) (program : Program) :
    Execution.run m.policy m.table ⟨start, program⟩ = (m.run program).shift start := by
  have hshift := Execution.run_shift m.policy m.table (Cursor.start program) start
  rw [Cursor.start, Nat.zero_add] at hshift
  exact hshift

/-- What stands behind a program whose run is settled plays no part. -/
theorem run_append_of_settled {m : Machine} {p : Program} (h : (m.run p).ending.Settled)
    (q : Program) : m.run (p ++ q) = m.run p :=
  Execution.run_append_of_settled h q

/-- A program behind one that is exhausted is run next, from where the first one ends. -/
theorem run_append_of_exhausted {m : Machine} {p : Program} (h : (m.run p).ending = .exhausted)
    (q : Program) :
    m.run (p ++ q) = (m.run p).followedBy (((m.after p).run q).shift p.length) := by
  have hboth : m.run (p ++ q) = (m.run p).followedBy
      (Execution.run m.policy (m.run p).table ⟨0 + p.length, q⟩) :=
    Execution.run_append_of_exhausted h q
  rw [hboth, Nat.zero_add]
  exact congrArg _ ((m.after p).run_at p.length q)

/-- **Running one program behind another.**  A run that halts, that is aborted or that meets an
unassigned byte is the same with any bytes behind the program.  A run that comes to the end of
the program goes on with the bytes behind it as a second run on the same machine does: the
bindings are those of the second run, notices and reports are put together, and an error of
the second run is the error of both, further on by the length of the first program. -/
theorem run_append (m : Machine) (p q : Program) :
    let first := m.run p
    let second := (m.after p).run q
    let both := m.run (p ++ q)
    (∀ report, first.outcome = .ok report → report.halted = true →
        both.outcome = .ok report ∧ both.table = first.table ∧ both.notices = first.notices) ∧
      (∀ report, first.outcome = .ok report → report.halted = false →
        both.table = second.table ∧
        both.notices = first.notices ++ second.notices ∧
        (∀ report', second.outcome = .ok report' →
          both.outcome = .ok
            { steps := report.steps + report'.steps
              halted := report'.halted
              applied := report.applied ++ report'.applied
              undefined := report.undefined ++ report'.undefined }) ∧
        ∀ error, second.outcome = .error error →
          both.outcome = .error (error.shift p.length)) ∧
      ∀ error, first.outcome = .error error →
        ((∃ offset cause, error = .undefined offset cause) ∨
          ∃ byte offset, error = .malformed (.invalidOpcode byte offset)) →
        both.outcome = .error error ∧ both.table = first.table ∧
          both.notices = first.notices := by
  intro first second both
  have hsettled : first.ending.Settled → both = first := fun h => run_append_of_settled h q
  refine ⟨fun report hok hhalted => ?_, fun report hok hgoing => ?_, fun error herror hkind => ?_⟩
  · rcases Execution.outcome_eq_ok_iff.mp hok with ⟨hending, -⟩ | ⟨-, rfl⟩
    · rw [hsettled (hending ▸ .halted)]
      exact ⟨hok, rfl, rfl⟩
    · cases hhalted
  · rcases Execution.outcome_eq_ok_iff.mp hok with ⟨-, rfl⟩ | ⟨hending, rfl⟩
    · cases hgoing
    · have hboth : both = first.followedBy (second.shift p.length) :=
        run_append_of_exhausted hending q
      have houtcome := Execution.outcome_followedBy first (second.shift p.length) false
      rw [← hboth, Execution.outcome_shift] at houtcome
      refine ⟨?_, ?_, fun report' hok' => ?_, fun error herror => ?_⟩
      · rw [hboth, Execution.table_followedBy, Execution.table_shift]
      · rw [hboth, Execution.notices_followedBy, Execution.notices_shift]
      · rw [houtcome, hok']
        rfl
      · rw [houtcome, herror]
        rfl
  · have hending : first.ending.Settled := by
      rcases hkind with ⟨offset, cause, rfl⟩ | ⟨byte, offset, rfl⟩
      · rw [Execution.outcome_eq_undefined_iff.mp herror]
        exact .aborted offset cause
      · rw [Execution.outcome_eq_malformed_iff.mp herror]
        exact .invalidOpcode byte offset
    rw [hsettled hending]
    exact ⟨herror, rfl, rfl⟩

/-- The lookup in the second program fails at an offset that counts the first program too, and
neither this nor a halt instruction lets an unassigned byte behind them be reported. -/
theorem run_append_unassigned_behind :
    let m : Machine := ⟨(Table.fresh .silent).value, .abort⟩
    let p : Program := [0xE0, 1, 7]
    let q : Program := [0xE1, 2]
    (m.run p).outcome = .ok ⟨1, false, [], []⟩ ∧
      ((m.after p).run q).outcome = .error (.undefined 0 (.notDefined 2)) ∧
      (m.run (p ++ q)).outcome = .error (.undefined 3 (.notDefined 2)) ∧
      (m.run (p ++ q ++ [0xFF])).outcome = .error (.undefined 3 (.notDefined 2)) ∧
      (m.run [0x05]).outcome = .ok ⟨1, true, [], []⟩ ∧
      (m.run ([0x05] ++ [0xFF])).outcome = .ok ⟨1, true, [], []⟩ := by
  intro m p q
  have hfirst : m.run p = Execution.follow .abort .exhausted m.table [⟨0, .define 1 7⟩] :=
    m.run_ofInstructions [.define 1 7]
  have hunbound : (m.after p).table.bindings.get? 2 = none := by
    show (m.run p).table.bindings.get? 2 = none
    rw [hfirst]
    show (m.table.define 1 7).value.bindings.get? 2 = none
    rw [Table.get?_define, if_neg (by decide)]
    exact Table.get?_fresh .silent 2
  have hp : (m.run p).outcome = .ok ⟨1, false, [], []⟩ := by rw [hfirst]; rfl
  have hq : ((m.after p).run q).outcome = .error (.undefined 0 (.notDefined 2)) := by
    have hsecond : (m.after p).run q =
        Execution.follow .abort .exhausted (m.after p).table [⟨0, .apply 2⟩] :=
      (m.after p).run_ofInstructions [.apply 2]
    rw [hsecond, Execution.follow_of_ending (Table.ending?_perform_eq_some_iff.mpr
      (Or.inr ⟨rfl, 2, rfl, hunbound, rfl⟩))]
    rfl
  have hhalt : (m.run [0x05]).outcome = .ok ⟨1, true, [], []⟩ := by
    have hrun : m.run [0x05] = Execution.follow .abort .exhausted m.table [⟨0, .halt⟩] :=
      m.run_ofInstructions [.halt]
    rw [hrun]
    rfl
  have hboth : (m.run (p ++ q)).outcome = .error (.undefined 3 (.notDefined 2)) :=
    ((run_append m p q).2.1 _ hp rfl).2.2.2 _ hq
  refine ⟨hp, hq, hboth, ?_, hhalt, ?_⟩
  · exact ((run_append m (p ++ q) [0xFF]).2.2 _ hboth (Or.inl ⟨3, .notDefined 2, rfl⟩)).1
  · exact ((run_append m [0x05] [0xFF]).1 _ hhalt rfl).1

end Machine

end SymbolicBytecode
