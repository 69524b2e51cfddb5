/-
# Notices and handlers

A symbol table reports that it was reset, that an identifier was bound, that one was applied
or is not bound, and what it holds when it is listed on behalf of a caller or a program.  The
operations that only read it report nothing.  A notice is a value; `Notice.text` is its wording.
The notices of a table take one line each, but for a listing, which has a header and a line for
each symbol.  A handler says where the notices of a table go.  Handlers are shared: several
tables may report to the same buffer, so a buffer is referred to by its key.
-/
import SymbolicBytecode.Table.Symbol

namespace SymbolicBytecode

/-- Something that is reported about a symbol table. -/
inductive Notice
  | reset
  | defined (symbol : Symbol)
  | applied (symbol : Symbol)
  /-- An identifier was looked up and is not bound. -/
  | undefined (id : UInt8)
  /-- The table is about to be listed on behalf of a program. -/
  | reflection
  /-- The symbols of the table were listed. -/
  | listed (symbols : List Symbol)
  /-- A text of the caller's own. -/
  | message (text : String)
  deriving DecidableEq, Repr

/-- The wording of a notice. -/
def Notice.text : Notice → String
  | reset => "[Symbolic] Symbolic table initialized."
  | defined symbol => "[Symbolic] Defined symbol " ++ symbol.binding
  | applied symbol => "[Symbolic] Applied symbol " ++ symbol.binding
  | undefined id => "[Symbolic] Undefined symbol " ++ Text.hexLiteral id
  | reflection => "[Meta] Reflection triggered."
  | listed symbols => listing symbols
  | message text => text

/-- A notice as it is written out: its text and a line feed. -/
def Notice.line (notice : Notice) : String :=
  notice.text ++ "\n"

/-- Where notices go. -/
inductive Handler
  | stdout
  | tracing
  /-- They are captured in the buffer with the given key. -/
  | buffer (key : Nat)
  | silent
  deriving DecidableEq, Repr

/-- A result together with the notices that were reported on the way to it. -/
structure Noted (α : Type) where
  value : α
  /-- The notices, in the order in which they were reported. -/
  notices : List Notice
  deriving DecidableEq, Repr

end SymbolicBytecode
