/-
# Programs that are cut off

A program that decodes may be cut off after any of its bytes.  The size of an instruction is known
from its first byte, so the part that is left either ends between two instructions and decodes to
those in front of the cut, or ends inside an instruction and is found to be too short there:

* `Instruction.exists_cut`     : a cut falls between two instructions or inside one;
* `Program.decode_take_between`, `Program.decode_take_inside` : what decoding makes of it;
* `Located.filter_layout`      : the items in front of a cut;
* `Program.decode_take`        : the account of all cuts.
-/
import SymbolicBytecode.Proofs.Code.Encoding
import SymbolicBytecode.Proofs.Code.Faults

namespace SymbolicBytecode

/-! ## Where a cut falls -/

/-- A cut through the bytes of instructions falls between two of them, or else inside one, behind
its first byte and before its last. -/
theorem Instruction.exists_cut {is : List Instruction} {k : Nat} (hk : k ≤ totalSize is) :
    (∃ before after, is = before ++ after ∧ totalSize before = k) ∨
      ∃ before i after, is = before ++ i :: after ∧ totalSize before < k ∧
        k < totalSize before + i.size := by
  induction is generalizing k with
  | nil => exact Or.inl ⟨[], [], rfl, (Nat.le_zero.mp hk).symm⟩
  | cons i rest ih =>
    rw [totalSize_cons] at hk
    by_cases hzero : k = 0
    · exact Or.inl ⟨[], i :: rest, rfl, hzero.symm⟩
    by_cases hinside : k < i.size
    · refine Or.inr ⟨[], i, rest, rfl, Nat.pos_of_ne_zero hzero, ?_⟩
      show k < 0 + i.size
      omega
    -- behind the first instruction the cut falls as it does in the others
    have hrest : k - i.size ≤ totalSize rest := by omega
    rcases ih hrest with ⟨before, after, rfl, hcut⟩ | ⟨before, j, after, rfl, hlower, hupper⟩
    · refine Or.inl ⟨i :: before, after, rfl, ?_⟩
      rw [totalSize_cons]
      omega
    · refine Or.inr ⟨i :: before, j, after, rfl, ?_, ?_⟩
      · rw [totalSize_cons]
        omega
      · rw [totalSize_cons]
        omega

namespace Located

/-- An item of a layout ends before the layout does. -/
theorem offset_lt_of_mem_layout {offset : Nat} {is : List Instruction} {item : Located}
    (h : item ∈ layout offset is) : item.offset < offset + Instruction.totalSize is := by
  obtain ⟨before, after, rfl, hoffset⟩ := mem_layout_iff.mp h
  have hpos := item.instruction.size_pos
  rw [Instruction.totalSize_append, Instruction.totalSize_cons]
  omega

/-- No item of a layout stands before the layout does. -/
theorem le_offset_of_mem_layout {offset : Nat} {is : List Instruction} {item : Located}
    (h : item ∈ layout offset is) : offset ≤ item.offset := by
  obtain ⟨before, after, -, hoffset⟩ := mem_layout_iff.mp h
  omega

/-- The items in front of a place between two instructions are those laid out up to there. -/
theorem filter_layout (before after : List Instruction) :
    (layout 0 (before ++ after)).filter (fun item => item.offset < Instruction.totalSize before) =
      layout 0 before := by
  have hbefore : (layout 0 before).filter
      (fun item => item.offset < Instruction.totalSize before) = layout 0 before := by
    apply List.filter_eq_self.mpr
    intro item hitem
    have hlt := offset_lt_of_mem_layout hitem
    exact decide_eq_true (by omega)
  have hafter : (layout (0 + Instruction.totalSize before) after).filter
      (fun item => item.offset < Instruction.totalSize before) = [] := by
    apply List.filter_eq_nil_iff.mpr
    intro item hitem
    have hle := le_offset_of_mem_layout hitem
    rw [decide_eq_true_eq]
    omega
  rw [layout_append, List.filter_append, hbefore, hafter, List.append_nil]

/-- A cut falls between two instructions exactly if it is the end of them all or the place of one
of them. -/
theorem exists_offset_iff {is : List Instruction} {k : Nat} :
    (k = Instruction.totalSize is ∨ ∃ item ∈ layout 0 is, item.offset = k) ↔
      ∃ before after, is = before ++ after ∧ Instruction.totalSize before = k := by
  constructor
  · rintro (rfl | ⟨item, hitem, rfl⟩)
    · exact ⟨is, [], (List.append_nil is).symm, rfl⟩
    · obtain ⟨before, after, rfl, hoffset⟩ := mem_layout_iff.mp hitem
      exact ⟨before, item.instruction :: after, rfl, by omega⟩
  · rintro ⟨before, after, rfl, rfl⟩
    cases after with
    | nil =>
      rw [List.append_nil]
      exact Or.inl rfl
    | cons i after =>
      refine Or.inr ⟨⟨Instruction.totalSize before, i⟩, ?_, rfl⟩
      exact mem_layout_iff.mpr ⟨before, after, rfl, (Nat.zero_add _).symm⟩

/-- If a cut falls inside an instruction, no item in front of it stands further on. -/
theorem offset_le_of_inside {before after : List Instruction} {i : Instruction} {k : Nat}
    (hupper : k < Instruction.totalSize before + i.size) {item : Located}
    (hitem : item ∈ layout 0 (before ++ i :: after)) (hlt : item.offset < k) :
    item.offset ≤ Instruction.totalSize before := by
  rw [layout_append, layout_cons, List.mem_append, List.mem_cons] at hitem
  rcases hitem with hfront | rfl | hbehind
  · have hbound := offset_lt_of_mem_layout hfront
    omega
  · show 0 + Instruction.totalSize before ≤ Instruction.totalSize before
    omega
  · have hbound := le_offset_of_mem_layout hbehind
    omega

end Located

/-! ## What is left of a program -/

/-- The first bytes of an instruction without its last are an instruction that is cut short. -/
theorem Cursor.next_take_encode (offset : Nat) {i : Instruction} {k : Nat} (hpos : 0 < k)
    (hk : k < i.size) :
    (next ⟨offset, i.encode.take k⟩).1 = some (.error (.truncated i.opcode offset)) := by
  refine next_eq_fault_iff.mpr (Or.inr ⟨i.opcode, Front.of_eq_cutShort_iff.mpr ⟨?_, ?_⟩, rfl⟩)
  · rw [List.head?_take, if_neg (by omega)]
    rfl
  · show (i.encode.take k).length < i.size
    rw [List.length_take, Instruction.length_encode]
    omega

namespace Program

/-- A program that is cut off between two instructions decodes to those in front of the cut. -/
theorem decode_take_between (before after : List Instruction) :
    decode ((ofInstructions (before ++ after)).take (Instruction.totalSize before)) =
      .ok (Located.layout 0 before) := by
  rw [ofInstructions_append, ← length_ofInstructions, List.take_left, decode_ofInstructions]

/-- A program that is cut off inside an instruction is truncated at that instruction. -/
theorem decode_take_inside {before after : List Instruction} {i : Instruction} {k : Nat}
    (hlower : Instruction.totalSize before < k)
    (hupper : k < Instruction.totalSize before + i.size) :
    decode ((ofInstructions (before ++ i :: after)).take k) =
      .error (.truncated i.opcode (Instruction.totalSize before)) := by
  have hlength := length_ofInstructions before
  have hinside : k - (ofInstructions before).length < i.size := by omega
  have htake : (ofInstructions (before ++ i :: after)).take k =
      ofInstructions before ++ i.encode.take (k - (ofInstructions before).length) := by
    rw [ofInstructions_append, ofInstructions_cons, List.take_append,
      List.take_of_length_le (by omega), List.take_append_of_le_length]
    rw [Instruction.length_encode]
    omega
  refine Cursor.walk_eq_error_iff.mpr ⟨before, _, htake, ?_⟩
  rw [Cursor.start, Nat.zero_add, hlength]
  exact Cursor.next_take_encode _ (by omega) (by omega)

/-- **Cutting off a program.**  If a program decodes, what is left of it in front of a cut decodes
exactly if the cut is its end or the place of one of its items, and then to the items in front of
the cut.  Otherwise the last of these items is truncated.  An invalid opcode is never met. -/
theorem decode_take {program : Program} {items : List Located} (h : program.decode = .ok items)
    {k : Nat} (hk : k ≤ program.length) :
    ((∃ kept, decode (program.take k) = .ok kept) ↔
      k = program.length ∨ ∃ item ∈ items, item.offset = k) ∧
    (∀ kept, decode (program.take k) = .ok kept →
      kept = items.filter fun item => item.offset < k) ∧
    (¬ (k = program.length ∨ ∃ item ∈ items, item.offset = k) →
      ∃ item ∈ items, item.offset < k ∧
        (∀ other ∈ items, other.offset < k → other.offset ≤ item.offset) ∧
        decode (program.take k) = .error (.truncated item.instruction.opcode item.offset)) ∧
    ∀ b offset, decode (program.take k) ≠ .error (.invalidOpcode b offset) := by
  obtain ⟨is, rfl, rfl⟩ := decode_eq_ok_iff.mp h
  rw [length_ofInstructions] at hk ⊢
  rcases Instruction.exists_cut hk with ⟨before, after, rfl, rfl⟩ |
    ⟨before, i, after, rfl, hlower, hupper⟩
  · have hbetween := Located.exists_offset_iff.mpr ⟨before, after, rfl, rfl⟩
    rw [decode_take_between, Located.filter_layout]
    refine ⟨iff_of_true ⟨_, rfl⟩ hbetween, ?_, absurd hbetween, ?_⟩
    · intro kept hkept
      exact (Except.ok.inj hkept).symm
    · intro b offset hfault
      cases hfault
  · have hinside : decode ((ofInstructions (before ++ i :: after)).take k) =
        .error (.truncated i.opcode (Instruction.totalSize before)) :=
      decode_take_inside hlower hupper
    have hitem : ⟨Instruction.totalSize before, i⟩ ∈ Located.layout 0 (before ++ i :: after) :=
      Located.mem_layout_iff.mpr ⟨before, after, rfl, (Nat.zero_add _).symm⟩
    have hnot : ¬ (k = Instruction.totalSize (before ++ i :: after) ∨
        ∃ item ∈ Located.layout 0 (before ++ i :: after), item.offset = k) := by
      intro hbetween
      -- a cut between two instructions would let the part in front of it decode
      obtain ⟨front, back, hsplit, rfl⟩ := Located.exists_offset_iff.mp hbetween
      rw [hsplit, decode_take_between] at hinside
      cases hinside
    rw [hinside]
    refine ⟨iff_of_false ?_ hnot, ?_, fun _ => ⟨_, hitem, hlower, ?_, rfl⟩, ?_⟩
    · rintro ⟨kept, hkept⟩
      cases hkept
    · intro kept hkept
      cases hkept
    · intro other hother hlt
      exact Located.offset_le_of_inside hupper hother hlt
    · intro b offset hfault
      cases hfault

/-- A cut in front of the lookup leaves the definition whole; a cut behind its opcode byte leaves
that byte alone, and it is the lookup that is reported and not the byte in front of it, although
this is an opcode byte as well. -/
theorem decode_take_opcode_operands :
    let program : Program := [0xE0, 0x05, 0xE1, 0xE1, 0xE0, 0x05]
    let items : List Located := [⟨0, .define 0x05 0xE1⟩, ⟨3, .apply 0xE0⟩, ⟨5, .halt⟩]
    program.decode = .ok items ∧
      (∃ kept, decode (program.take 3) = .ok kept ∧ kept = [⟨0, .define 0x05 0xE1⟩]) ∧
      ∃ item ∈ items, item.offset < 4 ∧
        (∀ other ∈ items, other.offset < 4 → other.offset ≤ item.offset) ∧
        decode (program.take 4) = .error (.truncated item.instruction.opcode item.offset) := by
  intro program items
  have hdecode : program.decode = .ok items :=
    decode_ofInstructions [.define 0x05 0xE1, .apply 0xE0, .halt]
  obtain ⟨hbetween, hkept, -⟩ := decode_take hdecode (show 3 ≤ program.length by decide)
  obtain ⟨kept, hdecode'⟩ := hbetween.mpr (Or.inr ⟨⟨3, .apply 0xE0⟩, by decide, rfl⟩)
  obtain ⟨-, -, hinside, -⟩ := decode_take hdecode (show 4 ≤ program.length by decide)
  exact ⟨hdecode, ⟨kept, hdecode', hkept kept hdecode'⟩, hinside (by decide)⟩

end Program

end SymbolicBytecode
