/-
# Buffers

A buffer captures the notices that are sent to it, each on a line of its own.  Buffers are
never given up: whoever holds a key can go on writing to the buffer, whether or not
anything still names it.
-/
import SymbolicBytecode.Trace.Log

namespace SymbolicBytecode

/-- The captured texts of all buffers. -/
structure Buffers where
  /-- The text of each buffer, at the position that is its key. -/
  texts : List String
  deriving DecidableEq, Repr

namespace Buffers

/-- There is no buffer yet. -/
def empty : Buffers :=
  ⟨[]⟩

/-- The key of the next buffer to be created. -/
def nextKey (b : Buffers) : Nat :=
  b.texts.length

/-- Creates an empty buffer under the next key. -/
def create (b : Buffers) : Buffers :=
  ⟨b.texts ++ [""]⟩

/-- The text that a handler has captured; only buffers capture any. -/
def output (b : Buffers) : Handler → String
  | .buffer key => b.texts[key]?.getD ""
  | _ => ""

/-- Empties the buffer of a handler. -/
def clear (b : Buffers) : Handler → Buffers
  | .buffer key => ⟨b.texts.modify key fun _ => ""⟩
  | _ => b

/-- Captures one entry of a log. -/
def capture (b : Buffers) : Entry → Buffers
  | .notice (.buffer key) notice => ⟨b.texts.modify key (· ++ notice.line)⟩
  | _ => b

/-- Captures a log, entry by entry. -/
def deliver (b : Buffers) (log : Log) : Buffers :=
  log.foldl capture b

/-! ## The view -/

/-- A new buffer is empty and leaves the others as they are. -/
@[simp] theorem output_create (b : Buffers) (h : Handler) : b.create.output h = b.output h := by
  cases h with
  | buffer key =>
    rw [output, output, create, List.getElem?_append]
    by_cases hkey : key < b.texts.length
    · rw [if_pos hkey]
    · rw [if_neg hkey, List.getElem?_eq_none (Nat.le_of_not_lt hkey)]
      cases key - b.texts.length <;> rfl
  | stdout => rfl
  | tracing => rfl
  | silent => rfl

/-- Clearing a handler leaves nothing captured by it. -/
@[simp] theorem output_clear_self (b : Buffers) (h : Handler) : (b.clear h).output h = "" := by
  cases h with
  | buffer key =>
    rw [clear, output, List.getElem?_modify]
    cases b.texts[key]? <;> simp
  | stdout => rfl
  | tracing => rfl
  | silent => rfl

/-- A notice to an existing buffer is appended to it as a line. -/
theorem output_capture_self (b : Buffers) {key : Nat} (hkey : key < b.nextKey) (notice : Notice) :
    (b.capture (.notice (.buffer key) notice)).output (.buffer key) =
      b.output (.buffer key) ++ notice.line := by
  rw [capture, output, output, List.getElem?_modify, List.getElem?_eq_getElem hkey]
  simp

/-- A notice to one buffer is not seen in another. -/
theorem output_capture_of_ne (b : Buffers) {key key' : Nat} (hne : key ≠ key')
    (notice : Notice) :
    (b.capture (.notice (.buffer key) notice)).output (.buffer key') =
      b.output (.buffer key') := by
  rw [capture, output, output, List.getElem?_modify]
  simp [hne]

@[simp] theorem deliver_nil (b : Buffers) : b.deliver [] = b := rfl

end Buffers

end SymbolicBytecode
