/-
# Requests to a table

Everything that can be asked of a symbol table, as a value.  `Table.answer` carries a
request out, so a history of a table is a list of requests.
-/
import SymbolicBytecode.Table.Basic

namespace SymbolicBytecode.Table

/-- An operation on one table. -/
inductive Request
  | reset
  | define (id value : UInt8)
  /-- Look an identifier up and report it. -/
  | apply (id : UInt8)
  /-- Look an identifier up without a notice. -/
  | get (id : UInt8)
  | contains (id : UInt8)
  | size
  | isEmpty
  | symbols
  /-- Write the listing without a notice. -/
  | listing
  /-- Write the listing and report it. -/
  | dump
  /-- Announce a reflection, then write the listing and report it. -/
  | reflect
  | inspect
  /-- Report to another handler from now on. -/
  | redirect (handler : Handler)
  deriving DecidableEq, Repr

/-- What a request is answered with. -/
inductive Reply
  | done
  | value (value : UInt8)
  | value? (value : Option UInt8)
  | flag (flag : Bool)
  | count (count : Nat)
  /-- Symbols in ascending order of the identifier. -/
  | symbols (symbols : List Symbol)
  | text (text : String)
  deriving DecidableEq, Repr

/-- The reply to a request, the table afterwards, and the notices. -/
structure Answer where
  reply : Except LookupError Reply
  table : Table
  /-- The notices of the request, which go to the handler of that table. -/
  notices : List Notice

/-- An answer to a request that leaves the table as it is and reports nothing. -/
def quiet (t : Table) (reply : Reply) : Answer :=
  ⟨.ok reply, t, []⟩

/-- Carries a request out. -/
def answer (t : Table) : Request → Answer
  | .reset => ⟨.ok .done, t.reset.value, t.reset.notices⟩
  | .define id value => ⟨.ok .done, (t.define id value).value, (t.define id value).notices⟩
  | .apply id => ⟨(t.apply id).value.map .value, t, (t.apply id).notices⟩
  | .get id => t.quiet (.value? (t.bindings.get? id))
  | .contains id => t.quiet (.flag (t.bindings.contains id))
  | .size => t.quiet (.count t.bindings.size)
  | .isEmpty => t.quiet (.flag t.bindings.isEmpty)
  | .symbols => t.quiet (.symbols t.bindings.symbols)
  | .listing => t.quiet (.text t.listing)
  | .dump => ⟨.ok (.text t.dump.value), t, t.dump.notices⟩
  | .reflect => ⟨.ok (.text t.reflect.value), t, t.reflect.notices⟩
  | .inspect => t.quiet (.text t.inspect)
  | .redirect handler => ⟨.ok .done, t.redirect handler, []⟩

/-- The table after a history of requests. -/
def after (t : Table) (requests : List Request) : Table :=
  requests.foldl (fun table request => (table.answer request).table) t

end SymbolicBytecode.Table
