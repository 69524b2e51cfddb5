/-
# Commands of a session

A command creates, uses or gives up an object of a session.  It is answered with a reply
or with a failure of the operation, and it leaves a log.  A command that uses a name for
which there is no object is refused and changes nothing.
-/
import SymbolicBytecode.Session.Basic
import SymbolicBytecode.Table.Request
import SymbolicBytecode.Machine.Report

namespace SymbolicBytecode

/-- The kinds of handler that can be created. -/
inductive HandlerKind
  | buffer
  | silent
  | stdout
  | tracing
  deriving DecidableEq, Repr

/-- A machine setting in which objects are given by name. -/
inductive NamedSetting
  | table (name : String)
  | handler (name : String)
  | policy (policy : Policy)
  deriving DecidableEq, Repr

/-- Something to be done in a session. -/
inductive Command
  | createHandler (name : String) (kind : HandlerKind)
  | send (handler : String) (text : String)
  | output (handler : String)
  | clear (handler : String)
  /-- Create a table, which reports to the trace unless a handler is given. -/
  | createTable (name : String) (handler : Option String)
  /-- Copy the table of a subject to a table of its own. -/
  | copy (subject : Subject) (target : String)
  | request (subject : Subject) (request : Table.Request)
  | redirect (subject : Subject) (handler : String)
  /-- Read what the handler of a subject's table has captured. -/
  | captured (subject : Subject)
  | createMachine (name : String) (settings : List NamedSetting)
  | policy (machine : String)
  | inspectMachine (machine : String)
  /-- Give up a machine and keep its table. -/
  | release (machine : String) (target : String)
  | run (machine : String) (program : Program)
  | runSource (machine : String) (source : String)
  | idle
  deriving DecidableEq, Repr

/-- What a command is answered with. -/
inductive Reply
  | done
  | text (text : String)
  | table (reply : Table.Reply)
  | policy (policy : Policy)
  | report (report : Report)
  deriving DecidableEq, Repr

/-- Why an operation failed. -/
inductive Failure
  | lookup (cause : LookupError)
  | assembly (cause : Source.AssembleError)
  | execution (cause : ExecError)
  deriving DecidableEq, Repr

/-- The answer to a command. -/
structure Answer where
  result : Except Failure Reply
  log : Log

namespace Answer

/-- An answer that reports nothing. -/
def quiet (reply : Reply) : Answer :=
  ⟨.ok reply, []⟩

/-- The answer to a command without a result that reported notices to a handler. -/
def noting (handler : Handler) (notices : List Notice) : Answer :=
  ⟨.ok .done, Log.ofNotices handler notices⟩

end Answer

namespace Session

/-! ## Creating objects -/

/-- Creates a handler; a new buffer comes with it if it captures. -/
def createHandler (s : Session) (name : String) : HandlerKind → Session
  | .buffer =>
    { s with
      buffers := s.buffers.create
      handlers := s.handlers.insert name (.buffer s.buffers.nextKey) }
  | .silent => { s with handlers := s.handlers.insert name .silent }
  | .stdout => { s with handlers := s.handlers.insert name .stdout }
  | .tracing => { s with handlers := s.handlers.insert name .tracing }

/-- Finds the objects of a setting; a table loses its name. -/
def resolve (s : Session) : NamedSetting → Except UnknownName (Session × Machine.Setting)
  | .table name =>
    (s.table name).map fun table => ({ s with tables := s.tables.erase name }, .table table)
  | .handler name => (s.handler name).map fun handler => (s, .handler handler)
  | .policy policy => .ok (s, .policy policy)

/-- Finds the objects of settings, one after the other. -/
def resolveAll (s : Session) :
    List NamedSetting → Except UnknownName (Session × List Machine.Setting)
  | [] => .ok (s, [])
  | setting :: rest =>
    match s.resolve setting with
    | .error unknown => .error unknown
    | .ok (s', resolved) =>
      (s'.resolveAll rest).map fun (s'', others) => (s'', resolved :: others)

/-! ## Carrying out commands -/

/-- Runs a program on a machine. -/
def runProgram (s : Session) (name : String) (machine : Machine) (program : Program) :
    Session × Answer :=
  let execution := machine.run program
  (s.putMachine name (machine.after program),
    ⟨(execution.outcome.map Reply.report).mapError Failure.execution,
      execution.log program.length⟩)

/-- Carries out a command, but for the delivery of its log. -/
def perform (s : Session) : Command → Except UnknownName (Session × Answer)
  | .createHandler name kind => .ok (s.createHandler name kind, .quiet .done)
  | .send name text => do
    let handler ← s.handler name
    return (s, .noting handler [.message text])
  | .output name => do
    let handler ← s.handler name
    return (s, .quiet (.text (s.buffers.output handler)))
  | .clear name => do
    let handler ← s.handler name
    return ({ s with buffers := s.buffers.clear handler }, .quiet .done)
  | .createTable name none =>
    let created := Table.fresh .tracing
    .ok (s.putTable name created.value, .noting .tracing created.notices)
  | .createTable name (some handlerName) => do
    let handler ← s.handler handlerName
    let created := Table.fresh handler
    return (s.putTable name created.value, .noting handler created.notices)
  | .copy subject target => do
    let table ← s.tableOf subject
    return (s.putTable target table, .quiet .done)
  | .request subject request => do
    let table ← s.tableOf subject
    let answer := table.answer request
    let s' ← s.updateTable subject answer.table
    return (s', ⟨(answer.reply.map Reply.table).mapError Failure.lookup,
      Log.ofNotices answer.table.handler answer.notices⟩)
  | .redirect subject name => do
    let table ← s.tableOf subject
    let handler ← s.handler name
    let s' ← s.updateTable subject (table.redirect handler)
    return (s', .quiet .done)
  | .captured subject => do
    let table ← s.tableOf subject
    return (s, .quiet (.text (s.buffers.output table.handler)))
  | .createMachine name settings => do
    let (s', resolved) ← s.resolveAll settings
    let built := Machine.build resolved
    return (s'.putMachine name built.value, .noting built.value.table.handler built.notices)
  | .policy name => do
    let machine ← s.machine name
    return (s, .quiet (.policy machine.policy))
  | .inspectMachine name => do
    let machine ← s.machine name
    return (s, .quiet (.text machine.inspect))
  | .release name target => do
    let machine ← s.machine name
    return ({ s with machines := s.machines.erase name }.putTable target machine.table,
      .quiet .done)
  | .run name program => do
    let machine ← s.machine name
    return s.runProgram name machine program
  | .runSource name source => do
    let machine ← s.machine name
    match Source.assemble source with
    | .error cause => return (s, ⟨.error (.assembly cause), Source.assemblyLog source⟩)
    | .ok program =>
      let (s', answer) := s.runProgram name machine program
      return (s', { answer with log := Source.assemblyLog source ++ answer.log })
  | .idle => .ok (s, .quiet .done)

/-- Carries out a command and captures what it reported. -/
def exec (s : Session) (command : Command) : Except UnknownName (Session × Answer) :=
  (s.perform command).map fun (s', answer) => (s'.deliver answer.log, answer)

/-- Carries out commands, one after the other. -/
def play (s : Session) : List Command → Except UnknownName (Session × List Answer)
  | [] => .ok (s, [])
  | command :: rest =>
    match s.exec command with
    | .error unknown => .error unknown
    | .ok (s', answer) => (s'.play rest).map fun (s'', answers) => (s'', answer :: answers)

end Session

end SymbolicBytecode
