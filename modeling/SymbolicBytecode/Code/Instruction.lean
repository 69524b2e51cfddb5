/-
# Instructions

An instruction is an opcode together with its operand bytes.  It has two written forms:
the byte form `encode`, an opcode byte followed by the operands, and the source form
`text`, which the source reader accepts.
-/
import SymbolicBytecode.Code.Opcode
import SymbolicBytecode.Text.Numeral
import SymbolicBytecode.Text.Basic

namespace SymbolicBytecode

/-- One instruction of symbolic bytecode. -/
inductive Instruction
  | halt
  | define (id value : UInt8)
  | apply (id : UInt8)
  | reflect
  deriving DecidableEq, Repr

namespace Instruction

/-! ## Opcode and operands -/

/-- The opcode of an instruction. -/
def opcode : Instruction → Opcode
  | halt => .halt
  | define _ _ => .define
  | apply _ => .apply
  | reflect => .reflect

/-- The operand bytes of an instruction, in the order in which they are written. -/
def operands : Instruction → List UInt8
  | halt => []
  | define id value => [id, value]
  | apply id => [id]
  | reflect => []

/-- The instruction with the given opcode and operands, if the operands are as many as the
opcode takes. -/
def ofParts? : Opcode → List UInt8 → Option Instruction
  | .halt, [] => some halt
  | .define, [id, value] => some (define id value)
  | .apply, [id] => some (apply id)
  | .reflect, [] => some reflect
  | _, _ => none

@[simp] theorem length_operands (i : Instruction) : i.operands.length = i.opcode.arity := by
  cases i <;> rfl

@[simp] theorem ofParts?_parts (i : Instruction) : ofParts? i.opcode i.operands = some i := by
  cases i <;> rfl

/-- An instruction is put together exactly from its own opcode and operands. -/
theorem ofParts?_eq_some_iff {op : Opcode} {bytes : List UInt8} {i : Instruction} :
    ofParts? op bytes = some i ↔ i.opcode = op ∧ i.operands = bytes := by
  refine ⟨fun h => ?_, fun h => ?_⟩
  · -- each opcode accepts one length of operand list and refuses every other
    match op, bytes, h with
    | .halt, [], h => exact Option.some.inj h ▸ ⟨rfl, rfl⟩
    | .halt, _ :: _, h => exact nomatch h
    | .define, [], h => exact nomatch h
    | .define, [_], h => exact nomatch h
    | .define, [_, _], h => exact Option.some.inj h ▸ ⟨rfl, rfl⟩
    | .define, _ :: _ :: _ :: _, h => exact nomatch h
    | .apply, [], h => exact nomatch h
    | .apply, [_], h => exact Option.some.inj h ▸ ⟨rfl, rfl⟩
    | .apply, _ :: _ :: _, h => exact nomatch h
    | .reflect, [], h => exact Option.some.inj h ▸ ⟨rfl, rfl⟩
    | .reflect, _ :: _, h => exact nomatch h
  · rw [← h.1, ← h.2]
    exact ofParts?_parts i

/-- Parts make an instruction exactly when the number of operands is right. -/
theorem ofParts?_eq_none_iff {op : Opcode} {bytes : List UInt8} :
    ofParts? op bytes = none ↔ bytes.length ≠ op.arity := by
  constructor
  · intro h hlen
    match op, bytes, hlen with
    | .halt, [], _ => exact nomatch h
    | .define, [_, _], _ => exact nomatch h
    | .apply, [_], _ => exact nomatch h
    | .reflect, [], _ => exact nomatch h
  · intro hlen
    cases h : ofParts? op bytes with
    | none => rfl
    | some i =>
      obtain ⟨rfl, rfl⟩ := ofParts?_eq_some_iff.mp h
      exact absurd (length_operands i) hlen

/-! ## Byte form -/

/-- The bytes of an instruction: its opcode byte, then its operands. -/
def encode (i : Instruction) : List UInt8 :=
  i.opcode.byte :: i.operands

/-- The number of bytes of an instruction. -/
def size (i : Instruction) : Nat :=
  1 + i.opcode.arity

@[simp] theorem length_encode (i : Instruction) : i.encode.length = i.size := by
  simp [encode, size, Nat.add_comm]

theorem size_pos (i : Instruction) : 0 < i.size := by
  simp only [size]
  omega

/-! ## Source form and structural text -/

/-- An instruction as source text: the mnemonic, then a symbol in hexadecimal, then a value
in decimal after a comma. -/
def text : Instruction → String
  | halt => Opcode.mnemonic .halt
  | define id value =>
    Opcode.mnemonic .define ++ " " ++ Text.hexLiteral id ++ ", " ++ Text.decimalByte value
  | apply id => Opcode.mnemonic .apply ++ " " ++ Text.hexLiteral id
  | reflect => Opcode.mnemonic .reflect

/-- The structural text of an instruction. -/
def inspect : Instruction → String
  | halt => Opcode.inspect .halt
  | define id value =>
    Text.record (Opcode.inspect .define)
      [Text.labelled "id" (Text.decimalByte id), Text.labelled "value" (Text.decimalByte value)]
  | apply id =>
    Text.record (Opcode.inspect .apply) [Text.labelled "id" (Text.decimalByte id)]
  | reflect => Opcode.inspect .reflect

end Instruction

end SymbolicBytecode
