/-
# How a run ends

Reading a program beforehand foretells how a run of it ends.  Of the instructions that are
read, one is reached if none before it ends the run; the first that does decides the ending,
and a fault of the program shows only if there is none.  So a program that cannot be read to
its end may still run to success, if a halt instruction stands before the fault.

* `Execution.ending_follow` : the first instruction that ends an execution, or none;
* `Machine.foretold_iff`    : what reading foretells is what happens;
* `Machine.run_classified`  : the four kinds of outcome.
-/
import Mathlib.Logic.ExistsUnique
import SymbolicBytecode.Proofs.Machine.Meaning

namespace SymbolicBytecode

/-! ## Instructions that are reached -/

namespace Bindings

variable (b : Bindings) (policy : Policy) (items : List Located)

/-- The item in the given place is reached: none before it is a halt instruction or, under
the policy to abort, a lookup of an identifier that is not bound at that point. -/
def Reaches (k : Nat) (item : Located) : Prop :=
  items[k]? = some item ∧
    ∀ j < k, b.stopsAt policy (items.map Located.instruction) j = false

/-- The identifier is not bound at the given place. -/
def UnboundAt (k : Nat) (id : UInt8) : Prop :=
  b.valueAfter ((items.map Located.instruction).take k) id = none

/-- Every item is reached, and none is of a kind that ends the run. -/
def Passes : Prop :=
  ∀ k item, items[k]? = some item →
    b.Reaches policy items k item ∧
      b.stopsAt policy (items.map Located.instruction) k = false

/-- The item in the given place ends a run that gets there, in the given way. -/
def EndsAt (k : Nat) (item : Located) (ending : Ending) : Prop :=
  (item.instruction = .halt ∧ ending = .halted) ∨
    (policy = .abort ∧ ∃ id, item.instruction = .apply id ∧ b.UnboundAt items k id ∧
      ending = .aborted item.offset (.notDefined id))

variable {b policy items}

/-- An item that ends a run is of a kind that does. -/
theorem stopsAt_of_endsAt {k : Nat} {item : Located} {ending : Ending}
    (hitem : items[k]? = some item) (h : b.EndsAt policy items k item ending) :
    b.stopsAt policy (items.map Located.instruction) k = true := by
  have hget : (items.map Located.instruction)[k]? = some item.instruction := by
    rw [List.getElem?_map, hitem, Option.map_some]
  rw [stopsAt, hget]
  rcases h with ⟨hi, -⟩ | ⟨rfl, id, hi, hunbound, -⟩
  · rw [hi]
  · rw [UnboundAt] at hunbound
    simp [hi, hunbound]

/-- A run is ended by one item at most, and in one way. -/
theorem endsAt_unique {k k' : Nat} {item item' : Located} {ending ending' : Ending}
    (hreach : b.Reaches policy items k item) (hend : b.EndsAt policy items k item ending)
    (hreach' : b.Reaches policy items k' item')
    (hend' : b.EndsAt policy items k' item' ending') : ending = ending' := by
  have hstop := stopsAt_of_endsAt hreach.1 hend
  have hstop' := stopsAt_of_endsAt hreach'.1 hend'
  -- of two places that both end the run, the later one would not be reached
  have hk : k = k' := by
    rcases Nat.lt_trichotomy k k' with hlt | heq | hlt
    · rw [hreach'.2 k hlt] at hstop
      exact nomatch hstop
    · exact heq
    · rw [hreach.2 k' hlt] at hstop'
      exact nomatch hstop'
  subst hk
  have hitem : item = item' := Option.some.inj (hreach.1.symm.trans hreach'.1)
  subst hitem
  rcases hend with ⟨hi, rfl⟩ | ⟨-, id, hi, -, rfl⟩ <;>
    rcases hend' with ⟨hi', rfl⟩ | ⟨-, id', hi', -, rfl⟩
  · rfl
  · rw [hi] at hi'
    exact nomatch hi'
  · rw [hi] at hi'
    exact nomatch hi'
  · rw [hi] at hi'
    rw [Instruction.apply.inj hi']

/-- Where everything passes, nothing ends the run. -/
theorem not_endsAt_of_passes {k : Nat} {item : Located} {ending : Ending}
    (hpasses : b.Passes policy items) (hitem : items[k]? = some item) :
    ¬ b.EndsAt policy items k item ending := by
  intro hend
  have hstop := stopsAt_of_endsAt hitem hend
  rw [(hpasses k item hitem).2] at hstop
  exact nomatch hstop

end Bindings

/-! ## The first instruction that ends an execution -/

namespace Execution

/-- An execution is ended by the first item of a kind that ends it; if there is none, it has
the ending that reading came to. -/
theorem ending_follow (policy : Policy) (closing : Ending) (t : Table) (items : List Located) :
    (∃ k item, t.bindings.Reaches policy items k item ∧
        t.bindings.EndsAt policy items k item (follow policy closing t items).ending) ∨
      (t.bindings.Passes policy items ∧ (follow policy closing t items).ending = closing) := by
  induction items generalizing t with
  | nil =>
    refine Or.inr ⟨fun k item hitem => ?_, rfl⟩
    rw [List.getElem?_nil] at hitem
    exact nomatch hitem
  | cons item rest ih =>
    have hzero := t.stopsAt_zero policy item.instruction (rest.map Located.instruction) item.offset
    have hsucc := t.stopsAt_succ policy item.instruction (rest.map Located.instruction)
    cases hend : policy.ending? item.offset (t.perform item.instruction).effect with
    | some ending =>
      refine Or.inl ⟨0, item, ⟨rfl, fun j hj => absurd hj (Nat.not_lt_zero j)⟩, ?_⟩
      rw [follow_of_ending hend]
      exact Table.ending?_perform_eq_some_iff.mp hend
    | none =>
      rw [hend] at hzero
      rw [follow_of_step hend, ending_precede]
      -- what is said of the rest, from the table this instruction left, holds one place later
      have hbefore : ∀ k, (∀ j < k, (t.perform item.instruction).table.bindings.stopsAt policy
            (rest.map Located.instruction) j = false) →
          ∀ j < k + 1, t.bindings.stopsAt policy
            ((item :: rest).map Located.instruction) j = false := by
        intro k hk j hj
        cases j with
        | zero => exact hzero
        | succ j => exact (hsucc j).trans (hk j (by omega))
      rcases ih (t.perform item.instruction).table with ⟨k, item', hreach, hends⟩ | ⟨hpasses, hclosing⟩
      · refine Or.inl ⟨k + 1, item', ⟨hreach.1, hbefore k hreach.2⟩, ?_⟩
        rcases hends with hhalt | ⟨hpolicy, id, hi, hunbound, hending⟩
        · exact Or.inl hhalt
        · refine Or.inr ⟨hpolicy, id, hi, ?_, hending⟩
          exact (t.valueAfter_cons item.instruction _ id).trans hunbound
      · refine Or.inr ⟨fun k item' hitem => ?_, hclosing⟩
        cases k with
        | zero => exact ⟨⟨hitem, fun j hj => absurd hj (Nat.not_lt_zero j)⟩, hzero⟩
        | succ k =>
          obtain ⟨hreach, hstop⟩ := hpasses k item' hitem
          exact ⟨⟨hitem, hbefore k hreach.2⟩, (hsucc k).trans hstop⟩

end Execution

/-! ## Foretelling the ending -/

namespace Machine

/-- What reading a program foretells of its run on a machine: the run halts if a halt
instruction is reached, and it aborts, under the policy to do so, if a lookup of an identifier
that is not bound at that point is reached.  Otherwise everything that is read takes effect,
and the run ends as reading does. -/
def Foretold (m : Machine) (program : Program) : Ending → Prop
  | .halted => ∃ k item,
      m.table.bindings.Reaches m.policy (Cursor.start program).yielded k item ∧
        item.instruction = .halt
  | .aborted offset cause => m.policy = .abort ∧ ∃ k,
      m.table.bindings.Reaches m.policy (Cursor.start program).yielded k
        ⟨offset, .apply cause.id⟩ ∧
        m.table.bindings.UnboundAt (Cursor.start program).yielded k cause.id
  | .malformed cause => program.decode = .error cause ∧
      m.table.bindings.Passes m.policy (Cursor.start program).yielded
  | .exhausted => program.decode = .ok (Cursor.start program).yielded ∧
      m.table.bindings.Passes m.policy (Cursor.start program).yielded

variable {m : Machine} {program : Program}

/-- What is foretold in the terms of the first item that ends a run. -/
theorem foretold_iff_endsAt {ending : Ending} :
    m.Foretold program ending ↔
      (∃ k item, m.table.bindings.Reaches m.policy (Cursor.start program).yielded k item ∧
          m.table.bindings.EndsAt m.policy (Cursor.start program).yielded k item ending) ∨
        (m.table.bindings.Passes m.policy (Cursor.start program).yielded ∧
          (Cursor.start program).closing = ending) := by
  cases ending with
  | halted =>
    constructor
    · rintro ⟨k, item, hreach, hi⟩
      exact Or.inl ⟨k, item, hreach, Or.inl ⟨hi, rfl⟩⟩
    · rintro (⟨k, item, hreach, ⟨hi, -⟩ | ⟨-, id, -, -, hending⟩⟩ | ⟨-, hclosing⟩)
      · exact ⟨k, item, hreach, hi⟩
      · exact nomatch hending
      · exact absurd hclosing (Cursor.closing_ne_halted _)
  | aborted offset cause =>
    constructor
    · rintro ⟨hpolicy, k, hreach, hunbound⟩
      exact Or.inl ⟨k, _, hreach, Or.inr ⟨hpolicy, cause.id, rfl, hunbound, rfl⟩⟩
    · rintro (⟨k, ⟨offset', i⟩, hreach, ⟨-, hending⟩ | ⟨hpolicy, id, hi, hunbound, hending⟩⟩ |
        ⟨-, hclosing⟩)
      · exact nomatch hending
      · obtain ⟨rfl, rfl⟩ := Ending.aborted.inj hending
        simp only at hi
        subst hi
        exact ⟨hpolicy, k, hreach, hunbound⟩
      · exact absurd hclosing (Cursor.closing_ne_aborted _ offset cause)
  | malformed cause =>
    constructor
    · rintro ⟨hdecode, hpasses⟩
      exact Or.inr ⟨hpasses, Cursor.closing_eq_malformed_iff.mpr hdecode⟩
    · rintro (⟨k, item, -, ⟨-, hending⟩ | ⟨-, id, -, -, hending⟩⟩ | ⟨hpasses, hclosing⟩)
      · exact nomatch hending
      · exact nomatch hending
      · exact ⟨Cursor.closing_eq_malformed_iff.mp hclosing, hpasses⟩
  | exhausted =>
    constructor
    · rintro ⟨hdecode, hpasses⟩
      exact Or.inr ⟨hpasses, Cursor.closing_eq_exhausted_iff.mpr hdecode⟩
    · rintro (⟨k, item, -, ⟨-, hending⟩ | ⟨-, id, -, -, hending⟩⟩ | ⟨hpasses, hclosing⟩)
      · exact nomatch hending
      · exact nomatch hending
      · exact ⟨Cursor.closing_eq_exhausted_iff.mp hclosing, hpasses⟩

/-- **What is foretold happens.** -/
theorem foretold_iff {ending : Ending} :
    m.Foretold program ending ↔ (m.run program).ending = ending := by
  have hfirst := Execution.ending_follow m.policy (Cursor.start program).closing m.table
    (Cursor.start program).yielded
  rw [← m.run_eq_follow program] at hfirst
  rw [foretold_iff_endsAt]
  constructor
  -- the run itself ends in one of the same two ways, so two of the four combinations clash
  · rintro (⟨k, item, hreach, hends⟩ | ⟨hpasses, rfl⟩)
    · rcases hfirst with ⟨k', item', hreach', hends'⟩ | ⟨hpasses, -⟩
      · exact Bindings.endsAt_unique hreach' hends' hreach hends
      · exact absurd hends (Bindings.not_endsAt_of_passes hpasses hreach.1)
    · rcases hfirst with ⟨k', item', hreach', hends'⟩ | ⟨-, hclosing⟩
      · exact absurd hends' (Bindings.not_endsAt_of_passes hpasses hreach'.1)
      · exact hclosing
  · rintro rfl
    rcases hfirst with hends | ⟨hpasses, hclosing⟩
    · exact Or.inl hends
    · exact Or.inr ⟨hpasses, hclosing.symm⟩

/-- **The four kinds of outcome.**  Of a halt instruction that is reached, a lookup that is
reached and fails under the policy to abort, a fault behind instructions that all pass, and an
end behind such instructions, exactly one is foretold by reading alone, and it is the outcome:
success with a halt, the failed lookup with its offset, the fault that decoding reports, or
success without a halt. -/
theorem run_classified (m : Machine) (program : Program) :
    (∃! ending, m.Foretold program ending) ∧
      ((∃ report, (m.run program).outcome = .ok report ∧ report.halted = true) ↔
        m.Foretold program .halted) ∧
      (∀ offset id, (m.run program).outcome = .error (.undefined offset (.notDefined id)) ↔
        m.Foretold program (.aborted offset (.notDefined id))) ∧
      (∀ cause, (m.run program).outcome = .error (.malformed cause) ↔
        m.Foretold program (.malformed cause)) ∧
      ((∃ report, (m.run program).outcome = .ok report ∧ report.halted = false) ↔
        m.Foretold program .exhausted) := by
  refine ⟨⟨(m.run program).ending, foretold_iff.mpr rfl, fun ending h => ?_⟩, ?_, ?_, ?_, ?_⟩
  · exact (foretold_iff.mp h).symm
  · rw [foretold_iff, Execution.outcome]
    cases (m.run program).ending <;> simp [Execution.report]
  · intro offset id
    rw [foretold_iff, Execution.outcome]
    cases (m.run program).ending <;> simp
  · intro cause
    rw [foretold_iff, Execution.outcome]
    cases (m.run program).ending <;> simp
  · rw [foretold_iff, Execution.outcome]
    cases (m.run program).ending <;> simp [Execution.report]

end Machine

end SymbolicBytecode
