/-
# The byte form as a bijection

The byte form of instructions has no separators, and an operand may have the value of any
opcode.  Yet lists of instructions and the programs that decode are in one-to-one
correspondence, since the size of each instruction is known from its first byte:

* `Located.getElem?_layout`   : an item stands behind the bytes of the items before it;
* `Program.decode_emitAll`    : what was emitted is decoded again;
* `Program.emitAll_of_decode` : what was decoded is emitted again, behind any other bytes;
* `Program.decode_emitAll_correspondence` : both directions, with the offsets.
-/
import Mathlib.Algebra.GroupWithZero.Nat
import SymbolicBytecode.Proofs.Code.Layout

namespace SymbolicBytecode

/-! ## Offsets in a layout -/

namespace Instruction

/-- The number of bytes of instructions that stand one behind the other. -/
def totalSize (is : List Instruction) : Nat :=
  (is.map size).sum

@[simp] theorem totalSize_cons (i : Instruction) (is : List Instruction) :
    totalSize (i :: is) = i.size + totalSize is :=
  List.sum_cons

@[simp] theorem totalSize_append (first second : List Instruction) :
    totalSize (first ++ second) = totalSize first + totalSize second := by
  rw [totalSize, List.map_append, List.sum_append]
  rfl

/-- Every instruction takes a byte at least. -/
theorem length_le_totalSize (is : List Instruction) : is.length ≤ totalSize is := by
  induction is with
  | nil => exact Nat.zero_le _
  | cons i rest ih =>
    have hpos := i.size_pos
    rw [List.length_cons, totalSize_cons]
    omega

end Instruction

theorem Program.length_ofInstructions (is : List Instruction) :
    (ofInstructions is).length = Instruction.totalSize is := by
  induction is with
  | nil => rfl
  | cons i rest ih =>
    rw [ofInstructions_cons, List.length_append, Instruction.length_encode, ih,
      Instruction.totalSize_cons]

namespace Located

/-- Instructions behind others are laid out behind the bytes of these. -/
theorem layout_append (offset : Nat) (first second : List Instruction) :
    layout offset (first ++ second) =
      layout offset first ++ layout (offset + Instruction.totalSize first) second := by
  induction first generalizing offset with
  | nil => rfl
  | cons i rest ih =>
    rw [List.cons_append, layout_cons, layout_cons, ih, Instruction.totalSize_cons,
      ← Nat.add_assoc, List.cons_append]

/-- An item belongs to a layout exactly if its instruction is one of those laid out and stands
behind the bytes of the instructions before it. -/
theorem mem_layout_iff {offset : Nat} {is : List Instruction} {item : Located} :
    item ∈ layout offset is ↔
      ∃ before after, is = before ++ item.instruction :: after ∧
        item.offset = offset + Instruction.totalSize before := by
  constructor
  · induction is generalizing offset with
    | nil => exact nofun
    | cons i rest ih =>
      intro h
      rcases List.mem_cons.mp h with rfl | hmem
      · exact ⟨[], rest, rfl, rfl⟩
      · obtain ⟨before, after, rfl, hoffset⟩ := ih hmem
        refine ⟨i :: before, after, rfl, ?_⟩
        rw [hoffset, Instruction.totalSize_cons, Nat.add_assoc]
  · rintro ⟨before, after, rfl, hoffset⟩
    rw [layout_append, layout_cons, ← hoffset]
    exact List.mem_append_right _ List.mem_cons_self

/-- The item in the given place of a layout stands behind the bytes of all items before it. -/
theorem getElem?_layout (offset : Nat) (is : List Instruction) (k : Nat) :
    (layout offset is)[k]? =
      is[k]?.map (Located.mk (offset + Instruction.totalSize (is.take k))) := by
  induction is generalizing offset k with
  | nil => rfl
  | cons i rest ih =>
    cases k with
    | zero => rfl
    | succ k =>
      rw [layout_cons, List.getElem?_cons_succ, List.getElem?_cons_succ, ih,
        List.take_succ_cons, Instruction.totalSize_cons, Nat.add_assoc]

/-- In a layout from the start, an offset is the sum of the sizes before it. -/
theorem offset_of_getElem?_layout {is : List Instruction} {k : Nat} {item : Located}
    (h : (layout 0 is)[k]? = some item) : item.offset = Instruction.totalSize (is.take k) := by
  rw [getElem?_layout, Nat.zero_add] at h
  obtain ⟨i, -, rfl⟩ := Option.map_eq_some_iff.mp h
  rfl

end Located

/-! ## Emitting and decoding -/

namespace Program

/-- Instructions that were emitted decode to their layout. -/
theorem decode_emitAll (is : List Instruction) :
    decode (emitAll [] is) = .ok (Located.layout 0 is) := by
  rw [emitAll_eq_append, List.nil_append, decode_ofInstructions]

/-- The instructions that a program decodes to are emitted as that program again. -/
theorem emitAll_of_decode {program : Program} {items : List Located}
    (h : program.decode = .ok items) (before : Program) :
    before.emitAll (items.map Located.instruction) = before ++ program := by
  obtain ⟨is, rfl, rfl⟩ := decode_eq_ok_iff.mp h
  rw [Located.map_instruction_layout, emitAll_eq_append]

/-- **Programs that decode are lists of instructions.**  Whatever instructions are emitted
into an empty program, it decodes to exactly these, each at the sum of the sizes of the
instructions before it; and whatever program decodes, emitting its instructions behind any
bytes appends the program, and its offsets are such sums as well. -/
theorem decode_emitAll_correspondence :
    (∀ is : List Instruction, ∃ items, decode (emitAll [] is) = .ok items ∧
        items.map Located.instruction = is ∧
        ∀ k item, items[k]? = some item → item.offset = Instruction.totalSize (is.take k)) ∧
      ∀ (program : Program) (items : List Located), program.decode = .ok items →
        (∀ before : Program,
          before.emitAll (items.map Located.instruction) = before ++ program) ∧
        ∀ k item, items[k]? = some item →
          item.offset = Instruction.totalSize ((items.take k).map Located.instruction) := by
  constructor
  · intro is
    refine ⟨Located.layout 0 is, decode_emitAll is, Located.map_instruction_layout 0 is, ?_⟩
    intro k item hitem
    exact Located.offset_of_getElem?_layout hitem
  · intro program items hdecode
    refine ⟨emitAll_of_decode hdecode, fun k item hitem => ?_⟩
    obtain ⟨is, -, rfl⟩ := decode_eq_ok_iff.mp hdecode
    rw [List.map_take, Located.map_instruction_layout]
    exact Located.offset_of_getElem?_layout hitem

/-- Operands with the values of opcode bytes are emitted again behind an opcode byte that
takes an operand itself. -/
theorem decode_emitAll_opcode_operands :
    let program : Program := [0xE0, 0x05, 0xE1, 0xE1, 0xE0, 0x05]
    let items : List Located := [⟨0, .define 0x05 0xE1⟩, ⟨3, .apply 0xE0⟩, ⟨5, .halt⟩]
    program.decode = .ok items ∧
      emitAll [0xE1] (items.map Located.instruction) = 0xE1 :: program ∧
      Instruction.totalSize [.define 0x05 0xE1, .apply 0xE0] = 5 := by
  intro program items
  have hdecode : program.decode = .ok items :=
    decode_ofInstructions [.define 0x05 0xE1, .apply 0xE0, .halt]
  obtain ⟨hemit, hoffset⟩ := decode_emitAll_correspondence.2 program items hdecode
  exact ⟨hdecode, hemit [0xE1], (hoffset 2 ⟨5, .halt⟩ rfl).symm⟩

end Program

end SymbolicBytecode
