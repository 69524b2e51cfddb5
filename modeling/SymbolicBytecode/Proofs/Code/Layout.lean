/-
# Laying instructions out and reading them back

A program that consists of whole instructions is read back as exactly these instructions,
each at the sum of the sizes before it.  Conversely a program that can be read to its end
consists of the instructions that were read:

* `Cursor.readingInduction` : one induction for every function that follows a cursor;
* `Cursor.yielded`          : what is read before the end or a fault;
* `Cursor.walk_eq_ok_iff`   : what a walk that meets no fault has read;
* `Cursor.write_eq_map_walk` : writing instructions as they are read comes to the same as walking
  to the end first;
* `Program.decode_eq_ok_iff`, `Program.disassemble_eq_map_decode` : the same for a whole program.
-/
import SymbolicBytecode.Code.Cursor

namespace SymbolicBytecode

/-- A result that was passed on through a function is a success exactly if it was one before. -/
theorem map_eq_ok_iff {ε α β : Type} {x : Except ε α} {f : α → β} {b : β} :
    x.map f = .ok b ↔ ∃ a, x = .ok a ∧ f a = b := by
  cases x <;> simp [Except.map]

/-- A result that was passed on through a function is an error exactly if it was that error. -/
theorem map_eq_error_iff {ε α β : Type} {x : Except ε α} {f : α → β} {e : ε} :
    x.map f = .error e ↔ x = .error e := by
  cases x <;> simp [Except.map]

/-- Two computations in a row succeed exactly if both of them do. -/
theorem bind_eq_ok_iff {ε α β : Type} {x : Except ε α} {f : α → Except ε β} {b : β} :
    x >>= f = .ok b ↔ ∃ a, x = .ok a ∧ f a = .ok b := by
  cases x <;> simp [bind, Except.bind]

/-! ## The layout of instructions -/

/-- Instructions that stand one behind the other, the first of them at the given offset. -/
def Located.layout : Nat → List Instruction → List Located
  | _, [] => []
  | offset, i :: rest => ⟨offset, i⟩ :: layout (offset + i.size) rest

namespace Located

@[simp] theorem layout_cons (offset : Nat) (i : Instruction) (rest : List Instruction) :
    layout offset (i :: rest) = ⟨offset, i⟩ :: layout (offset + i.size) rest := rfl

/-- A layout holds the instructions it was made from. -/
@[simp] theorem map_instruction_layout (offset : Nat) (is : List Instruction) :
    (layout offset is).map instruction = is := by
  induction is generalizing offset with
  | nil => rfl
  | cons i rest ih => rw [layout_cons, List.map_cons, ih]

end Located

namespace Cursor

/-! ## Induction along a cursor -/

/-- Only a cursor with nothing left is at the end. -/
theorem rest_eq_nil_of_end {cursor after : Cursor} (h : cursor.next = (none, after)) :
    cursor.rest = [] := by
  rw [next] at h
  split at h
  · rename_i hfront
    exact Front.of_eq_finished_iff.mp hfront
  all_goals cases h

/-- Where an instruction is reported, its byte form stands, and the cursor moves behind it. -/
theorem rest_eq_encode_append {cursor after : Cursor} {item : Located}
    (h : cursor.next = (some (.ok item), after)) :
    item.offset = cursor.offset ∧ after.offset = cursor.offset + item.instruction.size ∧
      cursor.rest = item.instruction.encode ++ after.rest := by
  rw [next] at h
  split at h
  · cases h
  · rename_i i rest hfront
    obtain ⟨hitem, rfl⟩ := Prod.mk.inj h
    obtain rfl := Except.ok.inj (Option.some.inj hitem)
    exact ⟨rfl, rfl, Front.of_eq_found_iff.mp hfront⟩
  all_goals cases h

/-- **Induction along a cursor.**  A property of cursors holds of all of them if it holds at
the end and at every fault, and moves backwards over an instruction. -/
@[elab_as_elim]
theorem readingInduction {motive : Cursor → Prop}
    (finished : ∀ offset, motive ⟨offset, []⟩)
    (fault : ∀ cursor after cause, cursor.next = (some (.error cause), after) → motive cursor)
    (item : ∀ offset (i : Instruction) rest,
      motive ⟨offset + i.size, rest⟩ → motive ⟨offset, i.encode ++ rest⟩)
    (cursor : Cursor) : motive cursor := by
  -- every instruction takes at least one byte, so the bytes that are left bound the induction
  induction hlen : cursor.rest.length using Nat.strongRecOn generalizing cursor with
  | ind length ih =>
    obtain ⟨offset, bytes⟩ := cursor
    match hnext : next ⟨offset, bytes⟩ with
    | (none, after) =>
      obtain rfl : bytes = [] := rest_eq_nil_of_end hnext
      exact finished offset
    | (some (.error cause), after) => exact fault _ after cause hnext
    | (some (.ok ⟨start, i⟩), ⟨stop, rest⟩) =>
      have hshort : rest.length < length := hlen ▸ length_rest_next hnext
      obtain ⟨hstart, hstop, hbytes⟩ := rest_eq_encode_append hnext
      simp only at hstart hstop hbytes
      subst hstart hstop hbytes
      exact item start i rest (ih rest.length hshort _ rfl)

/-! ## What a walk reads -/

@[simp] theorem walk_nil (offset : Nat) : walk ⟨offset, []⟩ = .ok [] :=
  walk_of_end (next_nil offset)

@[simp] theorem walk_encode_append (offset : Nat) (i : Instruction) (rest : List UInt8) :
    walk ⟨offset, i.encode ++ rest⟩ =
      (walk ⟨offset + i.size, rest⟩).map (⟨offset, i⟩ :: ·) :=
  walk_of_item (next_encode_append offset i rest)

/-- Whole instructions are read as their layout. -/
theorem walk_ofInstructions (offset : Nat) (is : List Instruction) :
    walk ⟨offset, Program.ofInstructions is⟩ = .ok (Located.layout offset is) := by
  induction is generalizing offset with
  | nil => exact walk_nil offset
  | cons i rest ih =>
    rw [Program.ofInstructions_cons, walk_encode_append, ih]
    rfl

/-- A walk without a fault has read whole instructions, and nothing is left of the bytes. -/
theorem walk_eq_ok_iff {cursor : Cursor} {items : List Located} :
    cursor.walk = .ok items ↔
      ∃ is, cursor.rest = Program.ofInstructions is ∧ items = Located.layout cursor.offset is := by
  constructor
  · induction cursor using readingInduction generalizing items with
    | finished offset =>
      intro h
      rw [walk_nil] at h
      exact ⟨[], rfl, (Except.ok.inj h).symm⟩
    | fault cursor after cause hnext =>
      intro h
      rw [walk_of_fault hnext] at h
      exact nomatch h
    | item offset i rest ih =>
      intro h
      rw [walk_encode_append] at h
      obtain ⟨tail, hwalk, rfl⟩ := map_eq_ok_iff.mp h
      obtain ⟨is, hrest, rfl⟩ := ih hwalk
      simp only at hrest
      refine ⟨i :: is, ?_, rfl⟩
      rw [Program.ofInstructions_cons, hrest]
  · rintro ⟨is, hrest, rfl⟩
    obtain ⟨offset, bytes⟩ := cursor
    simp only at hrest
    rw [hrest]
    exact walk_ofInstructions offset is

/-! ## Writing as one reads -/

/-- **Reading and writing may be interleaved.**  Instructions that are written down as they are read
come to the text of the walk, behind what was written before, and a fault comes to the same
fault. -/
theorem write_eq_map_walk (text : String) (cursor : Cursor) :
    cursor.write text = cursor.walk.map fun items =>
      text ++ String.join (items.map fun item => item.instruction.text ++ "\n") := by
  -- the text written so far grows with every instruction, so it is arbitrary in the induction
  induction cursor using readingInduction generalizing text with
  | finished offset =>
    rw [write_of_end (next_nil offset), walk_nil]
    simp [Except.map]
  | fault cursor after cause hnext =>
    rw [write_of_fault hnext, walk_of_fault hnext]
    rfl
  | item offset i rest ih =>
    rw [write_of_item (next_encode_append offset i rest), ih, walk_encode_append]
    cases walk ⟨offset + i.size, rest⟩ with
    | error cause => rfl
    | ok items => simp [Except.map, String.append_assoc]

/-! ## What a cursor yields -/

/-- The instructions that a cursor reports before it comes to the end or to a fault. -/
def yielded (cursor : Cursor) : List Located :=
  match _step : cursor.next with
  | (none, _) => []
  | (some (.error _), _) => []
  | (some (.ok item), after) => item :: yielded after
termination_by cursor.rest.length
decreasing_by exact length_rest_next (by assumption)

@[simp] theorem yielded_nil (offset : Nat) : yielded ⟨offset, []⟩ = [] := by
  rw [yielded]
  split <;> simp_all

theorem yielded_of_fault {cursor after : Cursor} {cause : DecodeError}
    (h : cursor.next = (some (.error cause), after)) : cursor.yielded = [] := by
  rw [yielded]
  split <;> simp_all

@[simp] theorem yielded_encode_append (offset : Nat) (i : Instruction) (rest : List UInt8) :
    yielded ⟨offset, i.encode ++ rest⟩ = ⟨offset, i⟩ :: yielded ⟨offset + i.size, rest⟩ := by
  rw [yielded]
  split <;> simp_all

/-- A walk without a fault reads all that is yielded. -/
theorem yielded_of_walk {cursor : Cursor} {items : List Located} (h : cursor.walk = .ok items) :
    cursor.yielded = items := by
  obtain ⟨is, hrest, rfl⟩ := walk_eq_ok_iff.mp h
  obtain ⟨offset, bytes⟩ := cursor
  simp only at hrest
  subst hrest
  clear h
  induction is generalizing offset with
  | nil => exact yielded_nil offset
  | cons i rest ih =>
    rw [Program.ofInstructions_cons, yielded_encode_append, ih]
    rfl

end Cursor

namespace Program

/-- The program of a list of instructions decodes to its layout. -/
@[simp] theorem decode_ofInstructions (is : List Instruction) :
    decode (ofInstructions is) = .ok (Located.layout 0 is) :=
  Cursor.walk_ofInstructions 0 is

/-- A program decodes exactly when it consists of whole instructions. -/
theorem decode_eq_ok_iff {program : Program} {items : List Located} :
    program.decode = .ok items ↔
      ∃ is, program = ofInstructions is ∧ items = Located.layout 0 is :=
  Cursor.walk_eq_ok_iff

/-- A disassembly is the text of what a program decodes to, or the same fault. -/
theorem disassemble_eq_map_decode (program : Program) :
    program.disassemble = program.decode.map fun items =>
      String.join (items.map fun item => item.instruction.text ++ "\n") := by
  unfold disassemble decode
  rw [Cursor.write_eq_map_walk]
  simp only [String.empty_append]

end Program

end SymbolicBytecode
