/-
# Reading a program

A cursor walks a program from the start, one instruction at a time, and reports every
instruction with the offset of its first byte.  A fault ends the walk: the cursor reports
it once and has nothing left to read afterwards.  `decode` walks the whole program and
answers with the instructions or with the fault; `disassemble` writes the instructions down
as it reads them, up to the first fault.
-/
import SymbolicBytecode.Code.Program

namespace SymbolicBytecode

/-- An instruction and the offset of its first byte. -/
structure Located where
  /-- The offset of the opcode byte, counted in bytes from the start of the program. -/
  offset : Nat
  instruction : Instruction
  deriving DecidableEq, Repr

/-- Why a program cannot be read on. -/
inductive DecodeError
  /-- The byte at the offset is no opcode. -/
  | invalidOpcode (byte : UInt8) (offset : Nat)
  /-- The program ends before the operands of the opcode at the offset do. -/
  | truncated (opcode : Opcode) (offset : Nat)
  deriving DecidableEq, Repr

namespace DecodeError

/-- The offset at which reading stopped. -/
def offset : DecodeError → Nat
  | invalidOpcode _ offset => offset
  | truncated _ offset => offset

/-- The wording of the error. -/
def message : DecodeError → String
  | invalidOpcode byte offset =>
    "invalid opcode " ++ Text.hexLiteral byte ++ " at offset " ++ Text.decimal offset
  | truncated opcode offset =>
    "truncated " ++ opcode.mnemonic ++ " instruction at offset " ++ Text.decimal offset

end DecodeError

/-- A place in a program: the offset reached and the bytes from there on. -/
structure Cursor where
  offset : Nat
  /-- The bytes not read yet; none once a fault was met. -/
  rest : List UInt8
  deriving DecidableEq, Repr

namespace Cursor

/-- The cursor at the start of a program. -/
def start (program : Program) : Cursor :=
  ⟨0, program⟩

/-- What one call of `next` can report: the end, a fault or an instruction. -/
abbrev Item := Option (Except DecodeError Located)

/-- Reports what stands at the cursor and moves behind it. -/
def next (cursor : Cursor) : Item × Cursor :=
  match Front.of cursor.rest with
  | .finished => (none, cursor)
  | .found i rest => (some (.ok ⟨cursor.offset, i⟩), ⟨cursor.offset + i.size, rest⟩)
  | .unassigned b => (some (.error (.invalidOpcode b cursor.offset)), ⟨cursor.offset, []⟩)
  | .cutShort op => (some (.error (.truncated op cursor.offset)), ⟨cursor.offset, []⟩)

/-- The reports of the given number of calls of `next`. -/
def reports : Nat → Cursor → List Item
  | 0, _ => []
  | calls + 1, cursor => cursor.next.1 :: reports calls cursor.next.2

/-- Reading an instruction shortens what is left. -/
theorem length_rest_next {cursor after : Cursor} {item : Located}
    (h : cursor.next = (some (.ok item), after)) : after.rest.length < cursor.rest.length := by
  rw [next] at h
  split at h
  · exact nomatch h
  · rename_i i rest hfront
    obtain ⟨-, rfl⟩ := Prod.mk.inj h
    rw [Front.length_of_found hfront]
    exact Nat.lt_add_of_pos_left i.size_pos
  · exact nomatch h
  · exact nomatch h

/-- Walks to the end: the instructions from the cursor on, or the first fault. -/
def walk (cursor : Cursor) : Except DecodeError (List Located) :=
  match _step : cursor.next with
  | (none, _) => .ok []
  | (some (.error fault), _) => .error fault
  | (some (.ok item), after) => (walk after).map (item :: ·)
termination_by cursor.rest.length
decreasing_by exact length_rest_next (by assumption)

/-- Writes the instructions from the cursor on behind a text, each on a line of its own.  At the
first fault what was written is given up. -/
def write (text : String) (cursor : Cursor) : Except DecodeError String :=
  match _step : cursor.next with
  | (none, _) => .ok text
  | (some (.error fault), _) => .error fault
  | (some (.ok item), after) => write (text ++ (item.instruction.text ++ "\n")) after
termination_by cursor.rest.length
decreasing_by exact length_rest_next (by assumption)

/-! ## Equations of the walk -/

/-- A cursor with nothing left is at the end. -/
@[simp] theorem next_nil (offset : Nat) : next ⟨offset, []⟩ = (none, ⟨offset, []⟩) := rfl

/-- The cursor reads the instruction whose byte form stands in front of it. -/
@[simp] theorem next_encode_append (offset : Nat) (i : Instruction) (rest : List UInt8) :
    next ⟨offset, i.encode ++ rest⟩ = (some (.ok ⟨offset, i⟩), ⟨offset + i.size, rest⟩) := by
  simp [next]

theorem walk_of_end {cursor after : Cursor} (h : cursor.next = (none, after)) :
    cursor.walk = .ok [] := by
  rw [walk]
  split <;> simp_all

theorem walk_of_fault {cursor after : Cursor} {fault : DecodeError}
    (h : cursor.next = (some (.error fault), after)) : cursor.walk = .error fault := by
  rw [walk]
  split <;> simp_all

theorem walk_of_item {cursor after : Cursor} {item : Located}
    (h : cursor.next = (some (.ok item), after)) :
    cursor.walk = after.walk.map (item :: ·) := by
  rw [walk]
  split <;> simp_all

theorem write_of_end {cursor after : Cursor} (h : cursor.next = (none, after)) (text : String) :
    cursor.write text = .ok text := by
  unfold write
  split <;> simp_all

theorem write_of_fault {cursor after : Cursor} {fault : DecodeError}
    (h : cursor.next = (some (.error fault), after)) (text : String) :
    cursor.write text = .error fault := by
  unfold write
  split <;> simp_all

theorem write_of_item {cursor after : Cursor} {item : Located}
    (h : cursor.next = (some (.ok item), after)) (text : String) :
    cursor.write text = after.write (text ++ (item.instruction.text ++ "\n")) := by
  rw [write]
  split <;> simp_all

end Cursor

namespace Program

/-- The instructions of a program with their offsets, or the first fault. -/
def decode (program : Program) : Except DecodeError (List Located) :=
  (Cursor.start program).walk

/-- A program as source text, one instruction on each line, or the first fault. -/
def disassemble (program : Program) : Except DecodeError String :=
  (Cursor.start program).write ""

end Program

end SymbolicBytecode
