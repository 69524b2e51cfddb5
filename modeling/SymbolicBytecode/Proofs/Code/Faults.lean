/-
# Faults

A program that does not decode has exactly one fault: a place up to which it consists of whole
instructions, and at which the byte form of no instruction stands.  The bytes at that place
alone decide what is reported:

* `Cursor.exists_fault_iff`  : where a cursor cannot read on;
* `Cursor.walk_eq_error_iff` : a walk fails behind the whole instructions that it has read;
* `Program.faultAt_iff`      : the place of the fault is the one that decoding reports;
* `Program.decode_faults`    : which fault is reported, and where, for every program.
-/
import SymbolicBytecode.Proofs.Code.Layout

namespace SymbolicBytecode

/-- A byte names no opcode exactly if it is none of the four opcode bytes. -/
theorem Opcode.ofByte?_eq_none_iff_notMem {b : UInt8} :
    ofByte? b = none ↔ b ∉ ([0x05, 0xE0, 0xE1, 0xE2] : List UInt8) := by
  have hbytes : ([0x05, 0xE0, 0xE1, 0xE2] : List UInt8) = all.map byte := rfl
  rw [ofByte?_eq_none_iff, hbytes, List.mem_map]
  constructor
  · rintro h ⟨op, -, hop⟩
    exact h op hop
  · intro h op hop
    exact h ⟨op, op.mem_all, hop⟩

namespace Cursor

/-! ## One fault -/

/-- A fault tells what stands in front of the cursor: a byte that is no opcode, or an opcode
that is cut short. -/
theorem next_eq_fault_iff {cursor : Cursor} {fault : DecodeError} :
    cursor.next.1 = some (.error fault) ↔
      (∃ b, Front.of cursor.rest = .unassigned b ∧ fault = .invalidOpcode b cursor.offset) ∨
        ∃ op, Front.of cursor.rest = .cutShort op ∧ fault = .truncated op cursor.offset := by
  rw [next]
  cases Front.of cursor.rest with
  | finished => simp
  | found i rest => simp
  | unassigned b => simp [eq_comm]
  | cutShort op => simp [eq_comm]

/-- A fault is reported for the place of the cursor. -/
theorem offset_of_next_eq_fault {cursor : Cursor} {fault : DecodeError}
    (h : cursor.next.1 = some (.error fault)) : fault.offset = cursor.offset := by
  rcases next_eq_fault_iff.mp h with ⟨b, -, rfl⟩ | ⟨op, -, rfl⟩ <;> rfl

/-- **Where a cursor cannot read on.**  It reports a fault exactly if there are bytes left and
they start with the byte form of no instruction. -/
theorem exists_fault_iff {cursor : Cursor} :
    (∃ fault, cursor.next.1 = some (.error fault)) ↔
      cursor.rest ≠ [] ∧ ∀ i : Instruction, ¬ i.encode <+: cursor.rest := by
  constructor
  · rintro ⟨fault, hfault⟩
    refine ⟨fun hnil => ?_, fun i hstarts => ?_⟩
    · rw [next, hnil] at hfault
      cases hfault
    · obtain ⟨rest, hrest⟩ := hstarts
      rw [next, ← hrest, Front.of_encode_append] at hfault
      cases hfault
  · rintro ⟨hne, hnone⟩
    rw [next]
    cases hfront : Front.of cursor.rest with
    | finished => exact absurd (Front.of_eq_finished_iff.mp hfront) hne
    | found i rest => exact absurd ⟨rest, (Front.of_eq_found_iff.mp hfront).symm⟩ (hnone i)
    | unassigned b => exact ⟨_, rfl⟩
    | cutShort op => exact ⟨_, rfl⟩

/-- A fault is reported for the place of the cursor, where there is at least one byte. -/
theorem offset_of_fault {cursor after : Cursor} {cause : DecodeError}
    (h : cursor.next = (some (.error cause), after)) :
    cause.offset = cursor.offset ∧ cursor.rest ≠ [] := by
  have hfault : cursor.next.1 = some (.error cause) := congrArg Prod.fst h
  exact ⟨offset_of_next_eq_fault hfault, (exists_fault_iff.mp ⟨cause, hfault⟩).1⟩

/-! ## The fault of a walk -/

/-- **Where a walk fails.**  It fails exactly if it reads whole instructions up to a place where
the cursor reports the fault. -/
theorem walk_eq_error_iff {cursor : Cursor} {fault : DecodeError} :
    cursor.walk = .error fault ↔
      ∃ is rest, cursor.rest = Program.ofInstructions is ++ rest ∧
        (next ⟨cursor.offset + (Program.ofInstructions is).length, rest⟩).1 =
          some (.error fault) := by
  constructor
  · induction cursor using readingInduction with
    | finished offset =>
      intro h
      rw [walk_nil] at h
      cases h
    | fault cursor after cause hnext =>
      intro h
      rw [walk_of_fault hnext] at h
      obtain rfl := Except.error.inj h
      exact ⟨[], cursor.rest, rfl, congrArg Prod.fst hnext⟩
    | item offset i bytes ih =>
      intro h
      rw [walk_encode_append, map_eq_error_iff] at h
      obtain ⟨is, rest, hbytes, hnext⟩ := ih h
      refine ⟨i :: is, rest, ?_, ?_⟩
      · rw [Program.ofInstructions_cons, List.append_assoc, ← hbytes]
      · rw [Program.ofInstructions_cons, List.length_append, Instruction.length_encode,
          ← Nat.add_assoc]
        exact hnext
  · rintro ⟨is, rest, hrest, hnext⟩
    obtain ⟨offset, bytes⟩ := cursor
    simp only at hrest hnext
    subst hrest
    induction is generalizing offset with
    | nil => exact walk_of_fault (Prod.ext hnext rfl)
    | cons i is ih =>
      rw [Program.ofInstructions_cons, List.length_append, Instruction.length_encode,
        ← Nat.add_assoc] at hnext
      rw [Program.ofInstructions_cons, List.append_assoc, walk_encode_append, ih _ hnext]
      rfl

end Cursor

namespace Program

/-- At the offset the byte form of no instruction stands, although there are bytes left and the
program can be read up to there. -/
structure FaultAt (program : Program) (offset : Nat) : Prop where
  within : offset < program.length
  readable : ∃ items, decode (program.take offset) = .ok items
  unreadable : ∀ i : Instruction, ¬ i.encode <+: program.drop offset

/-- A program fails to decode exactly at its fault, and the fault is reported for that place. -/
theorem faultAt_iff {program : Program} {offset : Nat} :
    program.FaultAt offset ↔ ∃ fault, program.decode = .error fault ∧ fault.offset = offset := by
  constructor
  · rintro ⟨hwithin, ⟨items, hitems⟩, hunreadable⟩
    obtain ⟨is, htake, -⟩ := decode_eq_ok_iff.mp hitems
    have hlength : (ofInstructions is).length = offset := by
      rw [← htake, List.length_take]
      omega
    have hne : program.drop offset ≠ [] := by
      rw [ne_eq, List.drop_eq_nil_iff]
      omega
    obtain ⟨fault, hfault⟩ : ∃ fault, (Cursor.mk offset (program.drop offset)).next.1 =
        some (.error fault) := Cursor.exists_fault_iff.mpr ⟨hne, hunreadable⟩
    refine ⟨fault, Cursor.walk_eq_error_iff.mpr ⟨is, program.drop offset, ?_, ?_⟩, ?_⟩
    · rw [← htake]
      exact (List.take_append_drop offset program).symm
    · rw [hlength, Cursor.start, Nat.zero_add]
      exact hfault
    · exact Cursor.offset_of_next_eq_fault hfault
  · rintro ⟨fault, hdecode, rfl⟩
    obtain ⟨is, rest, hprogram, hfault⟩ := Cursor.walk_eq_error_iff.mp hdecode
    simp only [Cursor.start, Nat.zero_add] at hprogram hfault
    obtain ⟨hne, hunreadable⟩ := Cursor.exists_fault_iff.mp ⟨fault, hfault⟩
    have hoffset : fault.offset = (ofInstructions is).length :=
      Cursor.offset_of_next_eq_fault hfault
    have hpos : 0 < rest.length := List.length_pos_iff.mpr hne
    rw [hoffset, hprogram]
    refine ⟨?_, ?_, ?_⟩
    · rw [List.length_append]
      omega
    · rw [List.take_left]
      exact ⟨_, decode_ofInstructions is⟩
    · rw [List.drop_left]
      exact hunreadable

/-- The bytes at a fault decide what is reported. -/
theorem exists_byte_of_decode {program : Program} {fault : DecodeError}
    (h : program.decode = .error fault) :
    ∃ offset b, fault.offset = offset ∧ program[offset]? = some b ∧
      ((fault = .invalidOpcode b offset ∧ Opcode.ofByte? b = none) ∨
        ∃ op, fault = .truncated op offset ∧ op.byte = b ∧
          (program.drop (offset + 1)).length < op.arity) := by
  obtain ⟨is, rest, hprogram, hfault⟩ := Cursor.walk_eq_error_iff.mp h
  simp only [Cursor.start, Nat.zero_add] at hprogram hfault
  have hfirst : program[(ofInstructions is).length]? = rest.head? := by
    rw [hprogram, List.getElem?_append_right (Nat.le_refl _), Nat.sub_self,
      List.head?_eq_getElem?]
  have hbehind : (program.drop ((ofInstructions is).length + 1)).length = rest.length - 1 := by
    rw [hprogram, List.length_drop, List.length_append]
    omega
  refine ⟨(ofInstructions is).length, ?_⟩
  rw [hfirst, hbehind]
  rcases Cursor.next_eq_fault_iff.mp hfault with ⟨b, hfront, hcause⟩ | ⟨op, hfront, hcause⟩
  · obtain ⟨hhead, hnone⟩ := Front.of_eq_unassigned_iff.mp hfront
    exact ⟨b, Cursor.offset_of_next_eq_fault hfault, hhead, Or.inl ⟨hcause, hnone⟩⟩
  · obtain ⟨hhead, hshort⟩ := Front.of_eq_cutShort_iff.mp hfront
    refine ⟨op.byte, Cursor.offset_of_next_eq_fault hfault, hhead, Or.inr ⟨op, hcause, rfl, ?_⟩⟩
    have hpos : 0 < rest.length := List.length_pos_of_mem (List.mem_of_head? hhead)
    simp only at hshort
    omega

/-- **Faults are exact.**  If a program does not decode, there is exactly one offset at which it
has a fault.  Of the bytes there nothing counts but the first and the number of the others: an
invalid opcode is reported exactly if the first is no opcode byte, and a truncated instruction
exactly if it is the byte of that opcode and fewer bytes follow than the opcode takes.  Writing
the program as source text fails in the same way, and otherwise gives one line for each
instruction that was read. -/
theorem decode_faults (program : Program) :
    (∀ fault, program.decode = .error fault →
      ∃ offset b, (∀ o, program.FaultAt o ↔ o = offset) ∧ program[offset]? = some b ∧
        (fault = .invalidOpcode b offset ∨ ∃ op, fault = .truncated op offset) ∧
        (fault = .invalidOpcode b offset ↔ b ∉ ([0x05, 0xE0, 0xE1, 0xE2] : List UInt8)) ∧
        ∀ op, fault = .truncated op offset ↔
          op.byte = b ∧ (program.drop (offset + 1)).length < op.arity) ∧
    (∀ fault, program.disassemble = .error fault ↔ program.decode = .error fault) ∧
    ∀ text, program.disassemble = .ok text ↔
      ∃ items, program.decode = .ok items ∧
        text = String.join (items.map fun item => item.instruction.text ++ "\n") := by
  rw [disassemble_eq_map_decode]
  refine ⟨fun fault hdecode => ?_, fun fault => map_eq_error_iff, fun text => ?_⟩
  · obtain ⟨offset, b, hoffset, hb, hkind⟩ := exists_byte_of_decode hdecode
    have honly : ∀ o, program.FaultAt o ↔ o = offset := by
      intro o
      rw [faultAt_iff, hdecode, ← hoffset]
      constructor
      · rintro ⟨fault', hfault', rfl⟩
        rw [Except.error.inj hfault']
      · rintro rfl
        exact ⟨fault, rfl, rfl⟩
    refine ⟨offset, b, honly, hb, ?_⟩
    rw [← Opcode.ofByte?_eq_none_iff_notMem]
    rcases hkind with ⟨rfl, hnone⟩ | ⟨op, rfl, rfl, hshort⟩
    · refine ⟨Or.inl rfl, iff_of_true rfl hnone, fun op => iff_of_false (by simp) ?_⟩
      rintro ⟨rfl, -⟩
      rw [Opcode.ofByte?_byte] at hnone
      cases hnone
    · refine ⟨Or.inr ⟨op, rfl⟩, iff_of_false (by simp) (by simp), fun op' => ?_⟩
      constructor
      · intro heq
        obtain ⟨rfl, -⟩ := DecodeError.truncated.inj heq
        exact ⟨rfl, hshort⟩
      · rintro ⟨hbyte, -⟩
        -- the byte leads back to the opcode
        have hop := Opcode.ofByte?_eq_some_iff.mpr hbyte
        rw [Opcode.ofByte?_byte] at hop
        rw [Option.some.inj hop]
  · rw [map_eq_ok_iff]
    simp only [eq_comm]

/-- Operands may have the values of opcodes and of unassigned bytes: only what stands in the place
of an opcode is at fault. -/
theorem decode_faults_opcode_operands :
    let program : Program := [0xE0, 0xE1, 0x42, 0xE1]
    let other : Program := [0xE1, 0x42, 0x42, 0x05]
    program.decode = .error (.truncated .apply 3) ∧ (∀ o, program.FaultAt o ↔ o = 3) ∧
      program.disassemble = .error (.truncated .apply 3) ∧
      other.decode = .error (.invalidOpcode 0x42 2) ∧ (∀ o, other.FaultAt o ↔ o = 2) := by
  intro program other
  have hdecode : program.decode = .error (.truncated .apply 3) := by cbv
  have hdecode' : other.decode = .error (.invalidOpcode 0x42 2) := by cbv
  obtain ⟨hfaults, hdisassemble, -⟩ := decode_faults program
  obtain ⟨offset, b, honly, -, hkind, -⟩ := hfaults _ hdecode
  obtain ⟨offset', b', honly', -, hkind', -⟩ := (decode_faults other).1 _ hdecode'
  have hoffset : offset = 3 := by
    rcases hkind with h | ⟨op, h⟩
    · cases h
    · exact (DecodeError.truncated.inj h).2.symm
  have hoffset' : offset' = 2 := by
    rcases hkind' with h | ⟨op, h⟩
    · exact (DecodeError.invalidOpcode.inj h).2.symm
    · cases h
  rw [hoffset] at honly
  rw [hoffset'] at honly'
  exact ⟨hdecode, honly, (hdisassemble _).mpr hdecode, hdecode', honly'⟩

end Program

end SymbolicBytecode
