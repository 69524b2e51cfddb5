/-
# Symbol tables

A symbol table holds bindings and reports what is done with them to its handler.  The
operations are functions on the table; each returns its notices beside its result, and the
handler never decides a result.
-/
import SymbolicBytecode.Table.Bindings
import SymbolicBytecode.Table.Notice

namespace SymbolicBytecode

/-- Why a symbol cannot be looked up. -/
inductive LookupError
  | notDefined (id : UInt8)
  deriving DecidableEq, Repr

namespace LookupError

/-- The identifier that was looked up. -/
def id : LookupError → UInt8
  | notDefined id => id

/-- The wording of the error. -/
def message : LookupError → String
  | notDefined id => "undefined symbol " ++ Text.hexLiteral id

/-- The structural text of the error. -/
def inspect : LookupError → String
  | notDefined id => Text.record "NotDefined" [Text.labelled "id" (Text.decimalByte id)]

end LookupError

/-- A symbol table. -/
structure Table where
  bindings : Bindings
  handler : Handler
  deriving DecidableEq, Repr

namespace Table

/-! ## Operations with notices -/

/-- Drops all bindings. -/
def reset (t : Table) : Noted Table :=
  ⟨{ t with bindings := .empty }, [.reset]⟩

/-- A new table that reports to the given handler; its bindings are reset first. -/
def fresh (handler : Handler) : Noted Table :=
  reset ⟨.empty, handler⟩

/-- Binds an identifier to a value. -/
def define (t : Table) (id value : UInt8) : Noted Table :=
  ⟨{ t with bindings := t.bindings.insert id value }, [.defined ⟨id, value⟩]⟩

/-- Looks an identifier up. -/
def apply (t : Table) (id : UInt8) : Noted (Except LookupError UInt8) :=
  match t.bindings.get? id with
  | some value => ⟨.ok value, [.applied ⟨id, value⟩]⟩
  | none => ⟨.error (.notDefined id), [.undefined id]⟩

/-- The listing of the table. -/
def listing (t : Table) : String :=
  SymbolicBytecode.listing t.bindings.symbols

/-- Lists the table and reports the listing. -/
def dump (t : Table) : Noted String :=
  ⟨t.listing, [.listed t.bindings.symbols]⟩

/-- Announces a reflection and then lists the table. -/
def reflect (t : Table) : Noted String :=
  ⟨t.dump.value, .reflection :: t.dump.notices⟩

/-! ## Operations without notices -/

/-- Reports to another handler from now on. -/
def redirect (t : Table) (handler : Handler) : Table :=
  { t with handler }

/-- The structural text of a table: its symbols, but not its handler. -/
def inspect (t : Table) : String :=
  Text.record "SymbolTable"
    [Text.labelled "symbols" (Text.bracketed (t.bindings.symbols.map Symbol.inspect)), ".."]

/-! ## Effects on the view -/

@[simp] theorem get?_fresh (handler : Handler) (id : UInt8) :
    (fresh handler).value.bindings.get? id = none :=
  Bindings.get?_empty id

@[simp] theorem get?_reset (t : Table) (id : UInt8) : t.reset.value.bindings.get? id = none :=
  Bindings.get?_empty id

theorem get?_define (t : Table) (id value id' : UInt8) :
    (t.define id value).value.bindings.get? id' =
      if id = id' then some value else t.bindings.get? id' :=
  Bindings.get?_insert t.bindings id value id'

theorem apply_of_bound {t : Table} {id value : UInt8} (h : t.bindings.get? id = some value) :
    t.apply id = ⟨.ok value, [.applied ⟨id, value⟩]⟩ := by
  rw [apply, h]

theorem apply_of_unbound {t : Table} {id : UInt8} (h : t.bindings.get? id = none) :
    t.apply id = ⟨.error (.notDefined id), [.undefined id]⟩ := by
  rw [apply, h]

end Table

end SymbolicBytecode
