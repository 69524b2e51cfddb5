/-
# Runs that fail

Every run comes to a place where it stops: the bytes before that place are run to their end,
and what stands there is the end of the program, a fault, or an instruction that ends the run.
A run that fails reports the offset of that place, and neither a fault nor a lookup changes the
table, so nothing is left of a failed run but the effect of the bytes before the offset:

* `Execution.Stops`        : a run from here takes no step, or one that ends it;
* `Execution.exists_stop`  : the place where a run stops;
* `Execution.Stops.failed` : what happens there if the run fails;
* `Machine.run_failed`     : a failed run and the run of the bytes before its offset.
-/
import SymbolicBytecode.Proofs.Code.Faults
import SymbolicBytecode.Proofs.Machine.Concatenation

namespace SymbolicBytecode

/-- The notice of a lookup that fails names the identifier in hexadecimal. -/
theorem Notice.text_undefined (id : UInt8) :
    (Notice.undefined id).text = "[Symbolic] Undefined symbol 0x" ++ Text.hexByte id := by
  have hwords : "[Symbolic] Undefined symbol 0x" = "[Symbolic] Undefined symbol " ++ "0x" := by
    decide
  rw [hwords, String.append_assoc]
  rfl

namespace Execution

/-! ## The place where a run stops -/

/-- A run from the cursor does not get any further: nothing is left, or what stands there
cannot be read, or it is an instruction that ends the run. -/
inductive Stops (policy : Policy) (t : Table) : Cursor → Prop
  | finished (offset : Nat) : Stops policy t ⟨offset, []⟩
  | fault {cursor after : Cursor} {cause : DecodeError}
      (hnext : cursor.next = (some (.error cause), after)) : Stops policy t cursor
  | ended {offset : Nat} {i : Instruction} {ending : Ending} (rest : List UInt8)
      (hend : policy.ending? offset (t.perform i).effect = some ending) :
      Stops policy t ⟨offset, i.encode ++ rest⟩

/-- **The place where a run stops.**  The bytes before it are run to their end. -/
theorem exists_stop (policy : Policy) (t : Table) (cursor : Cursor) :
    ∃ before rest, cursor.rest = before ++ rest ∧
      (run policy t ⟨cursor.offset, before⟩).ending = .exhausted ∧
      Stops policy (run policy t ⟨cursor.offset, before⟩).table
        ⟨cursor.offset + before.length, rest⟩ := by
  induction t, cursor using runInduction policy with
  | finished t offset =>
    refine ⟨[], [], rfl, ?_, ?_⟩
    · rw [run_nil]
    · rw [run_nil]
      exact .finished offset
  | fault t cursor after cause hnext =>
    refine ⟨[], cursor.rest, rfl, ?_, ?_⟩
    · rw [run_nil]
    · rw [run_nil]
      exact .fault hnext
  | ended t offset i rest ending hend =>
    refine ⟨[], i.encode ++ rest, rfl, ?_, ?_⟩
    · rw [run_nil]
    · rw [run_nil]
      exact .ended rest hend
  | step t offset i rest hend ih =>
    obtain ⟨before, rest', hrest, hexhausted, hstops⟩ := ih
    simp only at hrest hexhausted hstops
    refine ⟨i.encode ++ before, rest', ?_, ?_, ?_⟩
    · rw [hrest, List.append_assoc]
    · rw [run_encode_of_step hend, ending_precede]
      exact hexhausted
    · rw [run_encode_of_step hend, table_precede, List.length_append, Instruction.length_encode,
        ← Nat.add_assoc]
      exact hstops

/-! ## What happens there -/

/-- **A run that fails where it stops.**  It reports its own place, where there is a byte, and
leaves the table as it is.  Either a fault is met without a notice, or a lookup of an
identifier that is not bound stands there, the policy is to abort, and its notice is the only
one. -/
theorem Stops.failed {policy : Policy} {t : Table} {cursor : Cursor} {error : ExecError}
    (hstops : Stops policy t cursor) (herror : (run policy t cursor).outcome = .error error) :
    error.offset = cursor.offset ∧ cursor.rest ≠ [] ∧ (run policy t cursor).table = t ∧
      ((∃ cause, error = .malformed cause ∧ (run policy t cursor).notices = []) ∨
        ∃ id after, error = .undefined cursor.offset (.notDefined id) ∧
          cursor.rest = 0xE1 :: id :: after ∧ policy = .abort ∧ t.bindings.get? id = none ∧
          (run policy t cursor).notices = [.undefined id]) := by
  cases hstops with
  | finished offset =>
    rw [run_nil] at herror
    cases herror
  | @fault cursor after cause hnext =>
    obtain ⟨hoffset, hrest⟩ := Cursor.offset_of_fault hnext
    rw [run_of_fault policy t hnext] at herror ⊢
    cases herror
    exact ⟨hoffset, hrest, rfl, Or.inl ⟨cause, rfl, rfl⟩⟩
  | @ended offset i ending rest hend =>
    rw [run_encode_of_ending hend] at herror ⊢
    rcases Table.ending?_perform_eq_some_iff.mp hend with
      ⟨rfl, rfl⟩ | ⟨hpolicy, id, rfl, hunbound, rfl⟩
    · cases herror
    · cases herror
      refine ⟨rfl, List.cons_ne_nil _ _, Table.table_perform_apply t id, Or.inr ?_⟩
      refine ⟨id, rest, rfl, rfl, hpolicy, hunbound, ?_⟩
      rw [notices_precede, Table.step, Table.perform_apply_of_unbound hunbound]
      rfl

end Execution

/-! ## Machines -/

namespace Machine

/-- A run is that of the bytes before the place where it stops, followed by what happens
there. -/
theorem exists_stop (m : Machine) (program : Program) :
    ∃ before rest, program = before ++ rest ∧ (m.run before).ending = .exhausted ∧
      Execution.Stops m.policy (m.run before).table ⟨before.length, rest⟩ ∧
      m.run program = (m.run before).followedBy
        (Execution.run m.policy (m.run before).table ⟨before.length, rest⟩) := by
  obtain ⟨before, rest, hprogram, hexhausted, hstops⟩ :=
    Execution.exists_stop m.policy m.table (Cursor.start program)
  have hrun := Execution.run_append_of_exhausted hexhausted rest
  simp only [Cursor.start, Nat.zero_add] at hprogram hexhausted hstops hrun
  refine ⟨before, rest, hprogram, hexhausted, hstops, ?_⟩
  rw [hprogram]
  exact hrun

/-- The place where a run that fails stops is the one it reports, and the bytes before it leave
the same table and, but for the notice of a lookup, the same notices. -/
theorem stop_of_failed {m : Machine} {program : Program} {error : ExecError}
    (h : (m.run program).outcome = .error error) :
    ∃ before rest, program = before ++ rest ∧ error.offset = before.length ∧ rest ≠ [] ∧
      (m.run before).ending = .exhausted ∧ (m.run program).table = (m.run before).table ∧
      ((∃ cause, error = .malformed cause ∧ (m.run program).notices = (m.run before).notices) ∨
        ∃ id after, error = .undefined before.length (.notDefined id) ∧
          rest = 0xE1 :: id :: after ∧ m.policy = .abort ∧
          (m.run before).table.bindings.get? id = none ∧
          (m.run program).notices = (m.run before).notices ++ [.undefined id]) := by
  obtain ⟨before, rest, hprogram, hexhausted, hstops, hrun⟩ := m.exists_stop program
  rw [hrun, Execution.outcome_followedBy _ _ false, map_eq_error_iff] at h
  obtain ⟨hoffset, hrest, htable, hkind⟩ := hstops.failed h
  refine ⟨before, rest, hprogram, hoffset, hrest, hexhausted, ?_, ?_⟩
  · rw [hrun, Execution.table_followedBy, htable]
  · rw [hrun, Execution.notices_followedBy]
    rcases hkind with ⟨cause, hcause, hnone⟩ | ⟨id, after, herror, hbytes, hpolicy, hunbound, hone⟩
    · rw [hnone, List.append_nil]
      exact Or.inl ⟨cause, hcause, rfl⟩
    · rw [hone]
      exact Or.inr ⟨id, after, herror, hbytes, hpolicy, hunbound, rfl⟩

/-- **A failed run leaves the effect of the bytes before its offset.**  The offset of the error
lies within the program.  The bytes before it are run to their end without a halt, and leave
the same table.  A fault adds no notice to theirs, and a lookup adds the one that names its
identifier; in this case the two bytes of the lookup stand at the offset, the policy is to
abort, and the identifier is not bound in the table that is left. -/
theorem run_failed (m : Machine) (program : Program) (error : ExecError)
    (h : (m.run program).outcome = .error error) :
    let failed := m.run program
    let before := m.run (program.take error.offset)
    error.offset < program.length ∧
      (∃ report, before.outcome = .ok report ∧ report.halted = false) ∧
      failed.table = before.table ∧
      (∀ cause, error = .malformed cause → failed.notices = before.notices) ∧
      ∀ offset id, error = .undefined offset (.notDefined id) →
        failed.notices = before.notices ++ [.undefined id] ∧
        (Notice.undefined id).text = "[Symbolic] Undefined symbol 0x" ++ Text.hexByte id ∧
        program[offset]? = some 0xE1 ∧ program[offset + 1]? = some id ∧
        m.policy = .abort ∧ failed.table.bindings.get? id = none := by
  intro failed before
  obtain ⟨bytes, rest, hprogram, hoffset, hrest, hexhausted, htable, hkind⟩ := stop_of_failed h
  have hbefore : before = m.run bytes := by
    show m.run (program.take error.offset) = m.run bytes
    rw [hoffset, hprogram, List.take_left]
  rw [hbefore]
  refine ⟨?_, ?_, htable, ?_, ?_⟩
  · have hlength := List.length_pos_iff.mpr hrest
    rw [hoffset, hprogram, List.length_append]
    omega
  · exact ⟨_, Execution.outcome_eq_ok_iff.mpr (Or.inr ⟨hexhausted, rfl⟩), rfl⟩
  · rintro cause rfl
    rcases hkind with ⟨_, -, hnotices⟩ | ⟨_, _, hundefined, -⟩
    · exact hnotices
    · cases hundefined
  · rintro offset id rfl
    rcases hkind with ⟨_, hmalformed, -⟩ | ⟨id', after, herror, hbytes, hpolicy, hunbound, hnotices⟩
    · cases hmalformed
    · obtain ⟨rfl, hcause⟩ := ExecError.undefined.inj herror
      obtain rfl := LookupError.notDefined.inj hcause
      refine ⟨hnotices, Notice.text_undefined id, ?_, ?_, hpolicy, ?_⟩
      · rw [hprogram, hbytes, List.getElem?_append_right (by omega), Nat.sub_self]
        rfl
      · rw [hprogram, hbytes, List.getElem?_append_right (by omega), Nat.add_sub_cancel_left]
        rfl
      · rw [htable]
        exact hunbound

/-- A definition in front of a lookup that fails, and a reflection in front of a definition that
lacks its second operand. -/
theorem run_failed_behind_effects :
    let m : Machine := ⟨(Table.fresh .silent).value, .abort⟩
    let program : Program := [0xE0, 1, 7, 0xE1, 2, 0x05]
    let faulty : Program := [0xE2, 0xE0, 1]
    (m.run program).outcome = .error (.undefined 3 (.notDefined 2)) ∧
      (m.run program).table = (m.run [0xE0, 1, 7]).table ∧
      (m.run program).notices = (m.run [0xE0, 1, 7]).notices ++ [.undefined 2] ∧
      (m.run faulty).outcome = .error (.malformed (.truncated .define 1)) ∧
      (m.run faulty).table = (m.run [0xE2]).table ∧
      (m.run faulty).notices = (m.run [0xE2]).notices := by
  intro m program faulty
  have hget : ∀ id, m.table.bindings.get? id = none := Table.get?_fresh .silent
  have hlookup : (m.run program).outcome = .error (.undefined 3 (.notDefined 2)) := by
    have hrun : m.run program = Execution.follow .abort .exhausted m.table
        [⟨0, .define 1 7⟩, ⟨3, .apply 2⟩, ⟨5, .halt⟩] :=
      m.run_ofInstructions [.define 1 7, .apply 2, .halt]
    rw [hrun]
    simp [Execution.follow, Execution.outcome, Execution.precede, Table.perform, Table.apply,
      Table.get?_define, Policy.ending?, hget]
  have hfault : (m.run faulty).outcome = .error (.malformed (.truncated .define 1)) := by
    have hnext : Cursor.next ⟨1, [0xE0, 1]⟩ =
        (some (.error (.truncated .define 1)), ⟨1, []⟩) := rfl
    have hgoing : Policy.ending? .abort 0 (m.table.perform .reflect).effect = none := rfl
    have hrun : m.run faulty =
        (Execution.run .abort m.table ⟨1, [0xE0, 1]⟩).precede (m.table.step ⟨0, .reflect⟩) :=
      Execution.run_encode_of_step hgoing [0xE0, 1]
    rw [hrun, Execution.run_of_fault .abort m.table hnext]
    rfl
  obtain ⟨-, -, htable, -, hkind⟩ := run_failed m program _ hlookup
  obtain ⟨-, -, htable', hkind', -⟩ := run_failed m faulty _ hfault
  exact ⟨hlookup, htable, (hkind 3 2 rfl).1, hfault, htable', hkind' _ rfl⟩

end Machine

end SymbolicBytecode
