/-
# Machines

A machine owns a symbol table and has a policy for lookups that fail.  It is built from
settings, of which the last of each kind counts.  A machine without a table of its own
gets a fresh one, which is reset and says so; a table that is handed over is taken as it
is, and only its handler is replaced if there is a setting for it.
-/
import SymbolicBytecode.Machine.Execution

namespace SymbolicBytecode

/-- A machine. -/
structure Machine where
  table : Table
  policy : Policy
  deriving DecidableEq, Repr

namespace Machine

/-! ## Building -/

/-- One choice in building a machine. -/
inductive Setting
  | table (table : Table)
  | handler (handler : Handler)
  | policy (policy : Policy)
  deriving DecidableEq, Repr

/-- The choices made so far. -/
structure Config where
  table : Option Table := none
  handler : Option Handler := none
  policy : Policy := .proceed
  deriving DecidableEq, Repr

/-- Makes a choice, in place of an earlier one of the same kind. -/
def Config.set (c : Config) : Setting → Config
  | .table table => { c with table := some table }
  | .handler handler => { c with handler := some handler }
  | .policy policy => { c with policy }

/-- The table that a configuration asks for. -/
def Config.build (c : Config) : Noted Table :=
  match c.table, c.handler with
  | some table, some handler => ⟨table.redirect handler, []⟩
  | some table, none => ⟨table, []⟩
  | none, some handler => Table.fresh handler
  | none, none => Table.fresh .tracing

/-- Builds a machine from settings, made one after the other. -/
def build (settings : List Setting) : Noted Machine :=
  let config := settings.foldl Config.set {}
  ⟨⟨config.build.value, config.policy⟩, config.build.notices⟩

/-! ## Running -/

/-- Executes a program against the table of a machine. -/
def run (m : Machine) (program : Program) : Execution :=
  Execution.run m.policy m.table (Cursor.start program)

/-- The machine after executing a program. -/
def after (m : Machine) (program : Program) : Machine :=
  { m with table := (m.run program).table }

/-- The structural text of a machine. -/
def inspect (m : Machine) : String :=
  Text.record "Machine"
    [Text.labelled "table" m.table.inspect, Text.labelled "on_undefined" m.policy.inspect]

end Machine

end SymbolicBytecode
