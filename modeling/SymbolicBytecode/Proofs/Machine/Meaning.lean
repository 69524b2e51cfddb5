/-
# The meaning of a run

What a run does is determined by the instructions it executes and the bindings it starts
from, and can be stated without a table that changes on the way: the value of an identifier
at any point is that of its last definition before that point, or else the one it had at the
outset (`Bindings.valueAfter`).  Every definition of this file looks backwards in this way.

* `Bindings.executed` : the instructions up to and including the first that ends the run;
* `Bindings.found`, `Bindings.missed` : the lookups that succeed and those that fail;
* `Machine.run_meaning` : the final bindings and the report of a run.
-/
import SymbolicBytecode.Proofs.Machine.Eager

namespace SymbolicBytecode

/-! ## Looking backwards -/

namespace Instruction

/-- The value that an instruction binds the identifier to, if it is a definition of it. -/
def definition? (id : UInt8) : Instruction → Option UInt8
  | define id' value => if id' = id then some value else none
  | _ => none

/-- The value of the last definition of an identifier. -/
def lastDefinition? (id : UInt8) (is : List Instruction) : Option UInt8 :=
  (is.filterMap (definition? id)).getLast?

/-- An instruction in front counts only if there is no definition behind it. -/
theorem lastDefinition?_cons (id : UInt8) (i : Instruction) (is : List Instruction) :
    lastDefinition? id (i :: is) = (lastDefinition? id is).or (definition? id i) := by
  unfold lastDefinition?
  cases h : definition? id i with
  | none => rw [List.filterMap_cons_none h, Option.or_none]
  | some value =>
    rw [List.filterMap_cons_some h, List.getLast?_cons]
    cases (is.filterMap (definition? id)).getLast? <;> rfl

end Instruction

namespace Bindings

/-- The value of an identifier after instructions: that of its last definition among them, or
else the one from the outset. -/
def valueAfter (b : Bindings) (is : List Instruction) (id : UInt8) : Option UInt8 :=
  (Instruction.lastDefinition? id is).or (b.get? id)

/-- The lookup in the given place, if there is one: the identifier, and the value it has at
that point. -/
def lookupAt? (b : Bindings) (is : List Instruction) (k : Nat) : Option (UInt8 × Option UInt8) :=
  match is[k]? with
  | some (.apply id) => some (id, b.valueAfter (is.take k) id)
  | _ => none

/-- All lookups, in order. -/
def lookups (b : Bindings) (is : List Instruction) : List (UInt8 × Option UInt8) :=
  (List.range is.length).filterMap (b.lookupAt? is)

/-- The symbols of the lookups at points where the identifier is bound. -/
def found (b : Bindings) (is : List Instruction) : List Symbol :=
  (b.lookups is).filterMap fun lookup => lookup.2.map (Symbol.mk lookup.1)

/-- The identifiers of the other lookups. -/
def missed (b : Bindings) (is : List Instruction) : List UInt8 :=
  (b.lookups is).filterMap fun lookup => if lookup.2.isNone then some lookup.1 else none

/-- Tells whether the instruction in the given place ends a run that gets there: it is a halt
instruction or, if the policy is to abort, a lookup of an identifier that is not bound. -/
def stopsAt (b : Bindings) (policy : Policy) (is : List Instruction) (k : Nat) : Bool :=
  match is[k]? with
  | some .halt => true
  | some (.apply id) => policy = .abort && (b.valueAfter (is.take k) id).isNone
  | _ => false

/-- The instructions up to and including the first that ends the run, or all of them. -/
def executed (b : Bindings) (policy : Policy) (is : List Instruction) : List Instruction :=
  is.take ((List.range is.length).findIdx (b.stopsAt policy is) + 1)

end Bindings

/-- The lookup that an effect tells of: the identifier, and its value if it is bound. -/
def Effect.lookup? : Effect → Option (UInt8 × Option UInt8)
  | applied symbol => some (symbol.id, some symbol.value)
  | undefined id => some (id, none)
  | _ => none

/-! ## One instruction back -/

namespace Table

/-- An instruction changes the value of an identifier exactly if it defines it. -/
theorem get?_perform (t : Table) (i : Instruction) (id : UInt8) :
    (t.perform i).table.bindings.get? id = (i.definition? id).or (t.bindings.get? id) := by
  cases i with
  | halt => rfl
  | define id' value =>
    show (t.define id' value).value.bindings.get? id = _
    rw [get?_define, Instruction.definition?]
    split <;> rfl
  | apply id' =>
    rw [table_perform_apply]
    rfl
  | reflect => rfl

/-- Looking back over an instruction is looking back to the table it left behind. -/
theorem valueAfter_cons (t : Table) (i : Instruction) (is : List Instruction) (id : UInt8) :
    t.bindings.valueAfter (i :: is) id = (t.perform i).table.bindings.valueAfter is id := by
  rw [Bindings.valueAfter, Bindings.valueAfter, Instruction.lastDefinition?_cons, get?_perform,
    Option.or_assoc]

/-- The first instruction ends a run exactly if its effect does. -/
theorem stopsAt_zero (t : Table) (policy : Policy) (i : Instruction) (is : List Instruction)
    (offset : Nat) :
    t.bindings.stopsAt policy (i :: is) 0 =
      (policy.ending? offset (t.perform i).effect).isSome := by
  cases i with
  | halt => rfl
  | define id value => cases policy <;> rfl
  | apply id =>
    show (decide (policy = .abort) && (t.bindings.get? id).isNone) = _
    cases hget : t.bindings.get? id with
    | none =>
      rw [perform_apply_of_unbound hget]
      cases policy <;> rfl
    | some value =>
      rw [perform_apply_of_bound hget]
      cases policy <;> rfl
  | reflect => cases policy <;> rfl

/-- The places behind the first instruction are those of a run from the table it left. -/
theorem stopsAt_succ (t : Table) (policy : Policy) (i : Instruction) (is : List Instruction)
    (k : Nat) :
    t.bindings.stopsAt policy (i :: is) (k + 1) =
      (t.perform i).table.bindings.stopsAt policy is k := by
  simp only [Bindings.stopsAt, List.getElem?_cons_succ, List.take_succ_cons, valueAfter_cons]

theorem lookupAt?_succ (t : Table) (i : Instruction) (is : List Instruction) (k : Nat) :
    t.bindings.lookupAt? (i :: is) (k + 1) = (t.perform i).table.bindings.lookupAt? is k := by
  simp only [Bindings.lookupAt?, List.getElem?_cons_succ, List.take_succ_cons, valueAfter_cons]

/-- The first lookup is the one that the effect of the first instruction tells of. -/
theorem lookupAt?_zero (t : Table) (i : Instruction) (is : List Instruction) :
    t.bindings.lookupAt? (i :: is) 0 = (t.perform i).effect.lookup? := by
  cases i with
  | halt => rfl
  | define id value => rfl
  | apply id =>
    show some (id, t.bindings.get? id) = _
    cases hget : t.bindings.get? id with
    | none => rw [perform_apply_of_unbound hget]; rfl
    | some value => rw [perform_apply_of_bound hget]; rfl
  | reflect => rfl

/-- The lookups are that of the first instruction, if it is one, and those of the rest. -/
theorem lookups_cons (t : Table) (i : Instruction) (is : List Instruction) :
    t.bindings.lookups (i :: is) =
      (t.perform i).effect.lookup?.toList ++ (t.perform i).table.bindings.lookups is := by
  have hshift : t.bindings.lookupAt? (i :: is) ∘ Nat.succ =
      (t.perform i).table.bindings.lookupAt? is := by
    funext k
    exact lookupAt?_succ t i is k
  rw [Bindings.lookups, List.length_cons, List.range_succ_eq_map, List.filterMap_cons,
    List.filterMap_map, hshift, lookupAt?_zero]
  cases (t.perform i).effect <;> rfl

/-- The symbols found are that of the first instruction, if it found one, and the rest. -/
theorem found_cons (t : Table) (i : Instruction) (is : List Instruction) :
    t.bindings.found (i :: is) =
      (t.perform i).effect.applied?.toList ++ (t.perform i).table.bindings.found is := by
  rw [Bindings.found, lookups_cons, List.filterMap_append, ← Bindings.found]
  congr 1
  cases (t.perform i).effect <;> rfl

/-- The identifiers missed are that of the first instruction, if it missed one, and the rest. -/
theorem missed_cons (t : Table) (i : Instruction) (is : List Instruction) :
    t.bindings.missed (i :: is) =
      (t.perform i).effect.undefined?.toList ++ (t.perform i).table.bindings.missed is := by
  rw [Bindings.missed, lookups_cons, List.filterMap_append, ← Bindings.missed]
  congr 1
  cases (t.perform i).effect <;> rfl

/-- Nothing is executed behind an instruction that ends the run. -/
theorem executed_of_stop {t : Table} {policy : Policy} {i : Instruction} {is : List Instruction}
    (h : t.bindings.stopsAt policy (i :: is) 0 = true) :
    t.bindings.executed policy (i :: is) = [i] := by
  rw [Bindings.executed, List.length_cons, List.range_succ_eq_map, List.findIdx_cons, h]
  rfl

/-- Behind any other instruction the run goes on from the table it left. -/
theorem executed_of_step {t : Table} {policy : Policy} {i : Instruction} {is : List Instruction}
    (h : t.bindings.stopsAt policy (i :: is) 0 = false) :
    t.bindings.executed policy (i :: is) =
      i :: (t.perform i).table.bindings.executed policy is := by
  have hshift : t.bindings.stopsAt policy (i :: is) ∘ Nat.succ =
      (t.perform i).table.bindings.stopsAt policy is := by
    funext k
    exact stopsAt_succ t policy i is k
  rw [Bindings.executed, List.length_cons, List.range_succ_eq_map, List.findIdx_cons, h,
    List.findIdx_map, hshift]
  rfl

end Table

/-! ## Whole executions -/

namespace Execution

/-- An execution consists of the instructions up to and including the first that ends it. -/
theorem instructions_follow (policy : Policy) (closing : Ending) (t : Table)
    (items : List Located) :
    (follow policy closing t items).instructions =
      t.bindings.executed policy (items.map Located.instruction) := by
  induction items generalizing t with
  | nil => rfl
  | cons item rest ih =>
    -- looking backwards and the table agree about this instruction: nothing stands before it
    have hstop := t.stopsAt_zero policy item.instruction (rest.map Located.instruction) item.offset
    rw [List.map_cons]
    cases hend : policy.ending? item.offset (t.perform item.instruction).effect with
    | some ending =>
      rw [hend] at hstop
      rw [follow_of_ending hend, Table.executed_of_stop hstop]
      rfl
    | none =>
      rw [hend] at hstop
      rw [follow_of_step hend, Table.executed_of_step hstop, instructions_precede, ih]
      rfl

/-- The bindings that an execution leaves behind are those after its instructions. -/
theorem get?_follow (policy : Policy) (closing : Ending) (t : Table) (items : List Located)
    (id : UInt8) :
    (follow policy closing t items).table.bindings.get? id =
      t.bindings.valueAfter (follow policy closing t items).instructions id := by
  apply follow_induction (motive := fun t e =>
    e.table.bindings.get? id = t.bindings.valueAfter e.instructions id)
  · intro t ending
    rfl
  · intro t item e h
    rw [table_precede, instructions_precede, h]
    exact (t.valueAfter_cons item.instruction e.instructions id).symm

/-- The report of an execution lists the lookups of its instructions, apart by success. -/
theorem report_follow (policy : Policy) (closing : Ending) (t : Table) (items : List Located)
    (halted : Bool) :
    (follow policy closing t items).report halted =
      ⟨(follow policy closing t items).instructions.length, halted,
        t.bindings.found (follow policy closing t items).instructions,
        t.bindings.missed (follow policy closing t items).instructions⟩ := by
  apply follow_induction (motive := fun t e => e.report halted =
    ⟨e.instructions.length, halted, t.bindings.found e.instructions,
      t.bindings.missed e.instructions⟩)
  · intro t ending
    rfl
  · intro t item e h
    have hfound := t.found_cons item.instruction e.instructions
    have hmissed := t.missed_cons item.instruction e.instructions
    rw [report_precede, h, instructions_precede]
    show Report.followedBy ⟨1, false, _, _⟩ _ = ⟨_, _, t.bindings.found (item.instruction :: _),
      t.bindings.missed (item.instruction :: _)⟩
    rw [hfound, hmissed, Report.followedBy, List.length_cons, Nat.add_comm]
    rfl

/-- An execution halts exactly if its last instruction is a halt instruction. -/
theorem ending_follow_eq_halted_iff {closing : Ending} (hclosing : closing ≠ .halted)
    (policy : Policy) (t : Table) (items : List Located) :
    (follow policy closing t items).ending = .halted ↔
      (follow policy closing t items).instructions.getLast? = some .halt := by
  induction items generalizing t with
  | nil => exact ⟨fun h => absurd h hclosing, fun h => nomatch h⟩
  | cons item rest ih =>
    cases hend : policy.ending? item.offset (t.perform item.instruction).effect with
    | some ending =>
      rw [follow_of_ending hend]
      show ending = .halted ↔ some item.instruction = some .halt
      rcases Table.ending?_perform_eq_some_iff.mp hend with ⟨hi, rfl⟩ | ⟨-, id, hi, -, rfl⟩
      · simp [hi]
      · simp [hi]
    | none =>
      have hi : item.instruction ≠ .halt := by
        intro hhalt
        rw [Table.ending?_perform_eq_some_iff.mpr (Or.inl ⟨hhalt, rfl⟩)] at hend
        exact nomatch hend
      rw [follow_of_step hend, ending_precede, ih, instructions_precede, List.getLast?_cons]
      -- with nothing behind it this instruction is the last, and it is no halt instruction
      cases (follow policy closing (t.perform item.instruction).table rest).instructions.getLast? with
      | none => simpa [Table.step] using hi
      | some last => simp

end Execution

namespace Machine

/-- The instructions that a machine executes of a program: those that reading yields, up to
and including the first that ends the run. -/
def executes (m : Machine) (program : Program) : List Instruction :=
  m.table.bindings.executed m.policy ((Cursor.start program).yielded.map Located.instruction)

/-- **The meaning of a run.**  The executed instructions alone determine it: whatever the
outcome, the final value of an identifier is that of its last definition, or else the one it
had before; and the report of a run that succeeds counts the instructions, says whether the
last of them is a halt instruction, and lists the lookups, those of identifiers that are bound
at that point with the value they have there, and the others. -/
theorem run_meaning (m : Machine) (program : Program) :
    let is := m.executes program
    (m.run program).instructions = is ∧
      (∀ id, (m.run program).table.bindings.get? id = m.table.bindings.valueAfter is id) ∧
      ∀ report, (m.run program).outcome = .ok report →
        report.steps = is.length ∧
        (report.halted = true ↔ is.getLast? = some .halt) ∧
        report.applied = m.table.bindings.found is ∧
        report.undefined = m.table.bindings.missed is := by
  intro is
  have hrun := m.run_eq_follow program
  have his : (m.run program).instructions = is := by
    rw [hrun]
    exact Execution.instructions_follow _ _ _ _
  refine ⟨his, fun id => ?_, fun report houtcome => ?_⟩
  · rw [← his, hrun]
    exact Execution.get?_follow _ _ _ _ id
  · have hhalted : (m.run program).ending = .halted ↔ is.getLast? = some .halt := by
      rw [← his, hrun]
      exact Execution.ending_follow_eq_halted_iff (Cursor.closing_ne_halted _) _ _ _
    have hreport : ∀ halted, (m.run program).report halted =
        ⟨is.length, halted, m.table.bindings.found is, m.table.bindings.missed is⟩ := by
      intro halted
      rw [← his, hrun]
      exact Execution.report_follow _ _ _ _ halted
    rcases Execution.outcome_eq_ok_iff.mp houtcome with ⟨hending, rfl⟩ | ⟨hending, rfl⟩
    · rw [hreport]
      exact ⟨rfl, by simp [← hhalted, hending], rfl, rfl⟩
    · rw [hreport]
      exact ⟨rfl, by simp [← hhalted, hending], rfl, rfl⟩

/-- The identifier 0 is looked up before and after it is bound anew, to the value 0, and the
byte behind the halt instruction is never read. -/
theorem run_meaning_redefinition :
    let m : Machine := ⟨((Table.fresh .silent).value.define 0 7).value, .proceed⟩
    let program : Program := [0xE1, 0, 0xE0, 0, 0, 0xE1, 0, 0xE1, 1, 0x05, 0xFF]
    (m.run program).outcome = .ok ⟨5, true, [⟨0, 7⟩, ⟨0, 0⟩], [1]⟩ ∧
      (m.executes program).length = 5 ∧
      (m.executes program).getLast? = some .halt ∧
      m.table.bindings.found (m.executes program) = [⟨0, 7⟩, ⟨0, 0⟩] ∧
      m.table.bindings.missed (m.executes program) = [1] := by
  intro m program
  have hyielded : (Cursor.start program).yielded =
      [⟨0, .apply 0⟩, ⟨2, .define 0 0⟩, ⟨5, .apply 0⟩, ⟨7, .apply 1⟩, ⟨9, .halt⟩] := by cbv
  have hpolicy : m.policy = .proceed := rfl
  have hget : ∀ id, m.table.bindings.get? id = if 0 = id then some 7 else none := by
    intro id
    rw [Table.get?_define, Table.get?_fresh]
  have houtcome : (m.run program).outcome = .ok ⟨5, true, [⟨0, 7⟩, ⟨0, 0⟩], [1]⟩ := by
    rw [run_eq_follow, hyielded]
    simp [Execution.follow, Execution.outcome, Execution.precede, Execution.report, Table.step,
      Table.perform, Table.apply, Table.get?_define, Policy.ending?, Effect.applied?,
      Effect.undefined?, hget, hpolicy]
  obtain ⟨hsteps, hhalted, happlied, hundefined⟩ := (run_meaning m program).2.2 _ houtcome
  exact ⟨houtcome, hsteps.symm, hhalted.mp rfl, happlied.symm, hundefined.symm⟩

end Machine

end SymbolicBytecode
