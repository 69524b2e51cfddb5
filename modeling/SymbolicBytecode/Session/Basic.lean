/-
# Sessions

A session holds handlers, tables and machines under names of three separate kinds.  Tables
are values: a copy shares nothing with the table it was made from but the handler, and a
table that is handed to a machine loses its name.
-/
import SymbolicBytecode.Session.Directory
import SymbolicBytecode.Session.Buffers
import SymbolicBytecode.Machine.Basic

namespace SymbolicBytecode

/-- The objects of a session. -/
structure Session where
  buffers : Buffers
  handlers : Directory Handler
  tables : Directory Table
  machines : Directory Machine
  deriving DecidableEq, Repr

/-- A name that refers to a table: its own, or that of the machine that owns it. -/
inductive Subject
  | table (name : String)
  | machine (name : String)
  deriving DecidableEq, Repr

/-- A name that refers to nothing. -/
inductive UnknownName
  | handler (name : String)
  | table (name : String)
  | machine (name : String)
  deriving DecidableEq, Repr

namespace Session

/-- The session without objects. -/
def empty : Session :=
  ⟨.empty, .empty, .empty, .empty⟩

/-! ## Finding objects -/

/-- The handler with a name. -/
def handler (s : Session) (name : String) : Except UnknownName Handler :=
  match s.handlers.get? name with
  | some handler => .ok handler
  | none => .error (.handler name)

/-- The table with a name. -/
def table (s : Session) (name : String) : Except UnknownName Table :=
  match s.tables.get? name with
  | some table => .ok table
  | none => .error (.table name)

/-- The machine with a name. -/
def machine (s : Session) (name : String) : Except UnknownName Machine :=
  match s.machines.get? name with
  | some machine => .ok machine
  | none => .error (.machine name)

/-- The table of a subject. -/
def tableOf (s : Session) : Subject → Except UnknownName Table
  | .table name => s.table name
  | .machine name => (s.machine name).map Machine.table

/-! ## Changing objects -/

/-- Gives a name to a table. -/
def putTable (s : Session) (name : String) (table : Table) : Session :=
  { s with tables := s.tables.insert name table }

/-- Gives a name to a machine. -/
def putMachine (s : Session) (name : String) (machine : Machine) : Session :=
  { s with machines := s.machines.insert name machine }

/-- Changes the table of a subject. -/
def updateTable (s : Session) (subject : Subject) (table : Table) :
    Except UnknownName Session :=
  match subject with
  | .table name => .ok (s.putTable name table)
  | .machine name => (s.machine name).map fun machine => s.putMachine name { machine with table }

/-- Captures a log in the buffers. -/
def deliver (s : Session) (log : Log) : Session :=
  { s with buffers := s.buffers.deliver log }

/-! ## Looking at a session -/

/-- A short look at a table. -/
structure Glance where
  size : Nat
  /-- The number of bytes that the handler of the table has captured. -/
  captured : Nat
  deriving DecidableEq, Repr

/-- A short look at the table of a subject, if the subject exists. -/
def glance? (s : Session) (subject : Subject) : Option Glance :=
  match s.tableOf subject with
  | .ok table => some ⟨table.bindings.size, (s.buffers.output table.handler).utf8ByteSize⟩
  | .error _ => none

/-- The captured text of every named handler. -/
def handlerOutputs (s : Session) : List (String × String) :=
  s.handlers.entries.map fun entry => (entry.1, s.buffers.output entry.2)

/-- The symbols of every named table. -/
def tableSymbols (s : Session) : List (String × List Symbol) :=
  s.tables.entries.map fun entry => (entry.1, entry.2.bindings.symbols)

/-- The symbols in the table of every named machine. -/
def machineSymbols (s : Session) : List (String × List Symbol) :=
  s.machines.entries.map fun entry => (entry.1, entry.2.table.bindings.symbols)

end Session

end SymbolicBytecode
