/-
# Programs

A program is a flat sequence of bytes in which every instruction stands directly after the
one before it.  Operand bytes may have the value of an opcode byte, so only a walk from
the start finds the instructions; `Front.of` is the step of that walk and says what stands
at the front of a stretch of bytes.  An instruction is found exactly where its byte form
stands (`Front.of_eq_found_iff`).
-/
import SymbolicBytecode.Code.Instruction

namespace SymbolicBytecode

/-- The bytes of a program. -/
abbrev Program := List UInt8

namespace Program

/-- Appends the byte form of an instruction. -/
def emit (program : Program) (i : Instruction) : Program :=
  program ++ i.encode

/-- Appends the byte forms of instructions, in order. -/
def emitAll (program : Program) (instructions : List Instruction) : Program :=
  instructions.foldl emit program

/-- The program that consists of the given instructions. -/
def ofInstructions (instructions : List Instruction) : Program :=
  instructions.flatMap Instruction.encode

@[simp] theorem ofInstructions_nil : ofInstructions [] = [] := rfl

@[simp] theorem ofInstructions_cons (i : Instruction) (rest : List Instruction) :
    ofInstructions (i :: rest) = i.encode ++ ofInstructions rest :=
  List.flatMap_cons

@[simp] theorem ofInstructions_append (first second : List Instruction) :
    ofInstructions (first ++ second) = ofInstructions first ++ ofInstructions second :=
  List.flatMap_append

/-- Emitting instructions one by one appends the program they make up. -/
theorem emitAll_eq_append (program : Program) (instructions : List Instruction) :
    program.emitAll instructions = program ++ ofInstructions instructions := by
  induction instructions generalizing program with
  | nil => simp [emitAll]
  | cons i rest ih =>
    rw [emitAll, List.foldl_cons, ← emitAll, ih]
    simp [emit]

end Program

/-! ## The front of a program -/

/-- What stands at the front of a stretch of program bytes. -/
inductive Front
  | finished
  /-- An instruction, and the bytes behind it. -/
  | found (instruction : Instruction) (rest : List UInt8)
  | unassigned (byte : UInt8)
  /-- An opcode with too few bytes behind it. -/
  | cutShort (opcode : Opcode)
  deriving DecidableEq, Repr

namespace Front

/-- Reads the front of a stretch of bytes. -/
def of : List UInt8 → Front
  | [] => finished
  | b :: bytes =>
    match Opcode.ofByte? b with
    | none => unassigned b
    | some op =>
      match Instruction.ofParts? op (bytes.take op.arity) with
      | none => cutShort op
      | some i => found i (bytes.drop op.arity)

@[simp] theorem of_nil : of [] = finished := rfl

/-- The byte form of an instruction is found whatever stands behind it. -/
@[simp] theorem of_encode_append (i : Instruction) (rest : List UInt8) :
    of (i.encode ++ rest) = found i rest := by
  have htake : (i.operands ++ rest).take i.opcode.arity = i.operands := by
    rw [← Instruction.length_operands, List.take_left]
  have hdrop : (i.operands ++ rest).drop i.opcode.arity = rest := by
    rw [← Instruction.length_operands, List.drop_left]
  simp [Instruction.encode, of, htake, hdrop]

/-- An instruction is found exactly where its byte form stands. -/
theorem of_eq_found_iff {bytes rest : List UInt8} {i : Instruction} :
    of bytes = found i rest ↔ bytes = i.encode ++ rest := by
  constructor
  · intro h
    match bytes with
    | [] => exact nomatch h
    | b :: tail =>
      rw [of] at h
      split at h
      · exact nomatch h
      · rename_i op hop
        split at h
        · exact nomatch h
        · rename_i j hparts
          obtain ⟨rfl, rfl⟩ := Front.found.inj h
          obtain ⟨rfl, hoperands⟩ := Instruction.ofParts?_eq_some_iff.mp hparts
          rw [Instruction.encode, Opcode.ofByte?_eq_some_iff.mp hop, hoperands,
            List.cons_append, List.take_append_drop]
  · rintro rfl
    exact of_encode_append i rest

/-- A stretch of bytes is finished exactly when it is empty. -/
theorem of_eq_finished_iff {bytes : List UInt8} : of bytes = finished ↔ bytes = [] := by
  constructor
  · intro h
    match bytes with
    | [] => rfl
    | b :: tail =>
      rw [of] at h
      split at h
      · exact nomatch h
      · split at h <;> exact nomatch h
  · rintro rfl
    rfl

/-- A byte is unassigned exactly when it stands first and is no opcode byte. -/
theorem of_eq_unassigned_iff {bytes : List UInt8} {b : UInt8} :
    of bytes = unassigned b ↔ bytes.head? = some b ∧ Opcode.ofByte? b = none := by
  match bytes with
  | [] => simp
  | c :: tail =>
    rw [of]
    split
    · rename_i hop
      simp only [unassigned.injEq, List.head?_cons, Option.some.injEq]
      exact ⟨fun h => ⟨h, h ▸ hop⟩, And.left⟩
    · rename_i op hop
      have hne : c = b → Opcode.ofByte? b ≠ none := by
        rintro rfl
        simp [hop]
      split <;> simpa using hne

/-- An opcode is cut short exactly when fewer bytes follow it than it takes. -/
theorem of_eq_cutShort_iff {bytes : List UInt8} {op : Opcode} :
    of bytes = cutShort op ↔ bytes.head? = some op.byte ∧ bytes.length < 1 + op.arity := by
  match bytes with
  | [] => simp
  | c :: tail =>
    rw [of]
    split
    · rename_i hop
      simp only [reduceCtorEq, List.head?_cons, Option.some.injEq, false_iff, not_and]
      intro hc
      rw [hc, Opcode.ofByte?_byte] at hop
      exact nomatch hop
    · rename_i op' hop
      obtain rfl := Opcode.ofByte?_eq_some_iff.mp hop
      have hbyte : op'.byte = op.byte ↔ op' = op := by
        constructor
        · intro h
          rw [h, Opcode.ofByte?_byte] at hop
          exact (Option.some.inj hop).symm
        · rintro rfl
          rfl
      simp only [List.head?_cons, Option.some.injEq, hbyte, List.length_cons]
      split
      · rename_i hparts
        have hlen := Instruction.ofParts?_eq_none_iff.mp hparts
        simp only [cutShort.injEq]
        refine ⟨fun h => ⟨h, ?_⟩, And.left⟩
        subst h
        simp only [List.length_take] at hlen
        omega
      · rename_i i hparts
        simp only [reduceCtorEq, false_iff, not_and]
        rintro rfl
        obtain ⟨rfl, hoperands⟩ := Instruction.ofParts?_eq_some_iff.mp hparts
        have hlen := congrArg List.length hoperands
        simp only [Instruction.length_operands, List.length_take] at hlen
        omega

/-- The bytes behind an instruction are fewer by its size. -/
theorem length_of_found {bytes rest : List UInt8} {i : Instruction}
    (h : of bytes = found i rest) : bytes.length = i.size + rest.length := by
  rw [of_eq_found_iff.mp h, List.length_append, Instruction.length_encode]

end Front

end SymbolicBytecode
