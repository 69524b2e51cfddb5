/-
# Opcodes

The four operations of symbolic bytecode.  Each has an opcode byte, a mnemonic for source
text and a fixed number of operand bytes.  Bytes and mnemonics name at most one opcode:
`ofByte?` and `ofMnemonic?` are the inverses of `byte` and `mnemonic`, the latter up to the
case of ASCII letters.
-/
import SymbolicBytecode.Text.Basic

namespace SymbolicBytecode

/-- The operation that an instruction performs. -/
inductive Opcode
  | halt
  | define
  | apply
  | reflect
  deriving DecidableEq, Repr

namespace Opcode

/-- Every opcode, in ascending order of its byte. -/
def all : List Opcode :=
  [halt, define, apply, reflect]

/-- The byte that stands for the opcode in a program. -/
def byte : Opcode → UInt8
  | halt => 0x05
  | define => 0xE0
  | apply => 0xE1
  | reflect => 0xE2

/-- The word that stands for the opcode in source text. -/
def mnemonic : Opcode → String
  | halt => "HALT"
  | define => "SYMBOL_DEFINE"
  | apply => "SYMBOL_APPLY"
  | reflect => "META_REFLECT"

/-- The number of operand bytes that follow the opcode byte. -/
def arity : Opcode → Nat
  | halt => 0
  | define => 2
  | apply => 1
  | reflect => 0

/-- The name of the opcode in structural texts. -/
def inspect : Opcode → String
  | halt => "Halt"
  | define => "SymbolDefine"
  | apply => "SymbolApply"
  | reflect => "MetaReflect"

/-- The opcode with the given byte. -/
def ofByte? (b : UInt8) : Option Opcode :=
  all.find? fun op => op.byte = b

/-- The opcode with the given mnemonic, in any mixture of upper and lower case. -/
def ofMnemonic? (text : String) : Option Opcode :=
  all.find? fun op => op.mnemonic = Text.upperCase text

/-! ## Inverse laws -/

@[simp] theorem mem_all (op : Opcode) : op ∈ all := by
  cases op <;> decide

/-- An opcode byte names its opcode. -/
@[simp] theorem ofByte?_byte (op : Opcode) : ofByte? op.byte = some op := by
  cases op <;> rfl

/-- A byte names an opcode exactly when it is the byte of that opcode. -/
theorem ofByte?_eq_some_iff {b : UInt8} {op : Opcode} : ofByte? b = some op ↔ op.byte = b := by
  constructor
  · intro h
    simpa using List.find?_some h
  · rintro rfl
    exact ofByte?_byte op

/-- A byte names no opcode exactly when it is none of the opcode bytes. -/
theorem ofByte?_eq_none_iff {b : UInt8} : ofByte? b = none ↔ ∀ op : Opcode, op.byte ≠ b := by
  simp [ofByte?, List.find?_eq_none]

/-- A text names an opcode exactly when its upper-case form is the mnemonic. -/
theorem ofMnemonic?_eq_some_iff {text : String} {op : Opcode} :
    ofMnemonic? text = some op ↔ op.mnemonic = Text.upperCase text := by
  constructor
  · intro h
    simpa using List.find?_some h
  · intro h
    rw [ofMnemonic?, ← h]
    cases op <;> rfl

end Opcode

end SymbolicBytecode
