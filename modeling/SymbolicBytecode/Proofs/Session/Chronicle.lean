/-
# The pasts of tables

In a session a table may be copied, handed to a machine and taken back, and many tables may
report to one handler.  A chronicle follows the commands by the names in them alone.  It keeps
for every table its past, which is what was done with this table and, before it was copied,
with the table that it was copied from:

* `Past.table`      : what a past makes of a new table;
* `Past.reportsTo`  : the handler that a past leads to;
* `Chronicle.after` : how a command is entered;
* `Chronicle.keeps_after`    : a command keeps a session and its chronicle together;
* `Chronicle.keeps_afterAll` : and so does every sequence of commands.
-/
import SymbolicBytecode.Proofs.Session.Steps

namespace SymbolicBytecode

/-! ## Pasts -/

/-- Something that is done with a table, under whatever name it goes. -/
inductive Deed
  | request (request : Table.Request)
  /-- A machine with the given policy that owns the table runs a program. -/
  | run (policy : Policy) (program : Program)
  deriving DecidableEq, Repr

/-- The table after a deed. -/
def Table.undergo (t : Table) : Deed → Table
  | .request request => (t.answer request).table
  | .run policy program => (Machine.run ⟨t, policy⟩ program).table

/-- The handler that a deed redirects the table to. -/
def Deed.redirection? : Deed → Option Handler
  | request (.redirect handler) => some handler
  | _ => none

/-- Where a table comes from: the handler it was created with and all that was done with it,
or with a table that it was copied from before it was copied. -/
structure Past where
  handler : Handler
  deeds : List Deed
  deriving DecidableEq, Repr

namespace Past

/-- The table that comes of a past. -/
def table (p : Past) : Table :=
  p.deeds.foldl Table.undergo (Table.fresh p.handler).value

/-- One more deed. -/
def add (p : Past) (deed : Deed) : Past :=
  { p with deeds := p.deeds ++ [deed] }

/-- The handler that the table reports to: the last one that it was redirected to, or else the
one that it was created with. -/
def reportsTo (p : Past) : Handler :=
  (lastOf? Deed.redirection? p.deeds).getD p.handler

@[simp] theorem table_add (p : Past) (deed : Deed) : (p.add deed).table = p.table.undergo deed := by
  simp [table, add]

end Past

/-! ## Chronicles -/

/-- What is known of the objects of a session from the names in its commands. -/
structure Chronicle where
  handlers : Directory Handler
  /-- The number of buffers that were created. -/
  buffers : Nat
  tables : Directory Past
  /-- The policy of each machine and the past of its table. -/
  machines : Directory (Policy × Past)

/-- A deed that a command does, the table it is done with and the past of that table. -/
structure Doing where
  subject : Subject
  past : Past
  deed : Deed

namespace Chronicle

/-- Nothing has happened yet. -/
def empty : Chronicle :=
  ⟨.empty, 0, .empty, .empty⟩

/-- The past of the table of a subject. -/
def past? (c : Chronicle) : Subject → Option Past
  | .table name => c.tables.get? name
  | .machine name => (c.machines.get? name).map Prod.snd

/-- Gives the table of a subject another past. -/
def put (c : Chronicle) (subject : Subject) (past : Past) : Chronicle :=
  match subject with
  | .table name => { c with tables := c.tables.insert name past }
  | .machine name =>
    match c.machines.get? name with
    | some machine => { c with machines := c.machines.insert name (machine.1, past) }
    | none => c

/-- The deed that a command does, if it does one. -/
def doing? (c : Chronicle) : Command → Option Doing
  | .request subject request => (c.past? subject).map fun past => ⟨subject, past, .request request⟩
  | .redirect subject name => do
    let past ← c.past? subject
    let handler ← c.handlers.get? name
    return ⟨subject, past, .request (.redirect handler)⟩
  | .run name program =>
    (c.machines.get? name).map fun machine =>
      ⟨.machine name, machine.2, .run machine.1 program⟩
  | .runSource name source =>
    match Source.assemble source with
    | .ok program =>
      (c.machines.get? name).map fun machine =>
        ⟨.machine name, machine.2, .run machine.1 program⟩
    | .error _ => none
  | _ => none

/-- Enters a new handler. -/
def createHandler (c : Chronicle) (name : String) : HandlerKind → Chronicle
  | .buffer =>
    { c with handlers := c.handlers.insert name (.buffer c.buffers), buffers := c.buffers + 1 }
  | .silent => { c with handlers := c.handlers.insert name .silent }
  | .stdout => { c with handlers := c.handlers.insert name .stdout }
  | .tracing => { c with handlers := c.handlers.insert name .tracing }

/-- The handler of a new table: the one with the given name, or else the trace. -/
def handlerFor? (c : Chronicle) (given : Option String) : Option Handler :=
  given.elim (some .tracing) c.handlers.get?

/-- The handler that settings choose, if they do. -/
def chosenHandler? (c : Chronicle) (settings : List NamedSetting) : Option Handler :=
  (lastOf? NamedSetting.handler? settings).bind c.handlers.get?

/-- The past of the table of a machine with the given settings: that of the last table among
them, with a redirection if a handler is chosen, or else that of a new table. -/
def built (c : Chronicle) (settings : List NamedSetting) : Past :=
  match (lastOf? NamedSetting.table? settings).bind c.tables.get?, c.chosenHandler? settings with
  | some past, some handler => past.add (.request (.redirect handler))
  | some past, none => past
  | none, handler? => ⟨handler?.getD .tracing, []⟩

/-- Enters a command. -/
def after (c : Chronicle) (command : Command) : Chronicle :=
  match command with
  | .createHandler name kind => c.createHandler name kind
  | .createTable name given =>
    match c.handlerFor? given with
    | some handler => { c with tables := c.tables.insert name ⟨handler, []⟩ }
    | none => c
  | .copy subject target =>
    match c.past? subject with
    | some past => { c with tables := c.tables.insert target past }
    | none => c
  | .createMachine name settings =>
    { c with
      tables := (settings.filterMap NamedSetting.table?).foldl Directory.erase c.tables
      machines := c.machines.insert name
        ((lastOf? NamedSetting.policy? settings).getD .proceed, c.built settings) }
  | .release name target =>
    match c.machines.get? name with
    | some machine =>
      { c with
        tables := c.tables.insert target machine.2
        machines := c.machines.erase name }
    | none => c
  | _ =>
    match c.doing? command with
    | some done => c.put done.subject (done.past.add done.deed)
    | none => c

/-- Enters commands, one after the other. -/
def afterAll (c : Chronicle) (commands : List Command) : Chronicle :=
  commands.foldl after c

/-! ## Sessions and their chronicles -/

/-- A chronicle tells what is in a session: its tables are what comes of their pasts. -/
structure Keeps (c : Chronicle) (s : Session) : Prop where
  handlers : s.handlers = c.handlers
  buffers : s.buffers.nextKey = c.buffers
  /-- The buffers of named handlers have been created. -/
  existing : ∀ name key, c.handlers.get? name = some (.buffer key) → key < c.buffers
  tables : ∀ name, s.tables.get? name = (c.tables.get? name).map Past.table
  machines : ∀ name, s.machines.get? name =
    (c.machines.get? name).map fun machine => ⟨machine.2.table, machine.1⟩

namespace Keeps

variable {c : Chronicle} {s s' : Session}

theorem empty : Keeps .empty .empty where
  handlers := rfl
  buffers := rfl
  existing _ _ h := nomatch h
  tables _ := rfl
  machines _ := rfl

/-- The table of a subject is what comes of its past. -/
theorem find? (h : Keeps c s) (subject : Subject) :
    s.find? subject = (c.past? subject).map Past.table := by
  cases subject with
  | table name => exact h.tables name
  | machine name =>
    rw [Session.find?, past?, h.machines, Option.map_map, Option.map_map]
    rfl

/-- A table that is found has a past. -/
theorem exists_past (h : Keeps c s) {subject : Subject} {t : Table}
    (hfind : s.find? subject = some t) : ∃ past, c.past? subject = some past ∧ past.table = t := by
  rw [h.find?] at hfind
  exact Option.map_eq_some_iff.mp hfind

/-- A machine that is found has a policy and a table with a past. -/
theorem exists_machine (h : Keeps c s) {name : String} {m : Machine}
    (hname : s.machines.get? name = some m) :
    ∃ past, c.machines.get? name = some (m.policy, past) ∧ m = ⟨past.table, m.policy⟩ := by
  rw [h.machines] at hname
  obtain ⟨⟨policy, past⟩, hmachine, rfl⟩ := Option.map_eq_some_iff.mp hname
  exact ⟨past, hmachine, rfl⟩

/-- What is reported changes no object. -/
theorem deliver (h : Keeps c s) (log : Log) : Keeps c (s.deliver log) where
  handlers := h.handlers
  buffers := by
    rw [← h.buffers]
    exact Buffers.nextKey_deliver s.buffers log
  existing := h.existing
  tables := h.tables
  machines := h.machines

theorem clear (h : Keeps c s) (handler : Handler) :
    Keeps c { s with buffers := s.buffers.clear handler } where
  handlers := h.handlers
  buffers := by
    rw [← h.buffers]
    exact Buffers.nextKey_clear s.buffers handler
  existing := h.existing
  tables := h.tables
  machines := h.machines

/-- A handler that captures nothing is given a name. -/
theorem insertHandler (h : Keeps c s) (name : String) {handler : Handler}
    (hkey : ∀ key, handler ≠ .buffer key) :
    Keeps { c with handlers := c.handlers.insert name handler }
      { s with handlers := s.handlers.insert name handler } where
  handlers := by rw [h.handlers]
  buffers := h.buffers
  existing := by
    intro name' key hget
    rw [Directory.get?_insert] at hget
    split at hget
    · exact absurd (Option.some.inj hget) (hkey key)
    · exact h.existing name' key hget
  tables := h.tables
  machines := h.machines

theorem createHandler (h : Keeps c s) (name : String) (kind : HandlerKind) :
    Keeps (c.createHandler name kind) (s.createHandler name kind) := by
  cases kind with
  | buffer =>
    refine ⟨?_, ?_, ?_, h.tables, h.machines⟩
    · show s.handlers.insert name (.buffer s.buffers.nextKey) = c.handlers.insert name _
      rw [h.handlers, h.buffers]
    · show s.buffers.create.nextKey = c.buffers + 1
      rw [Buffers.nextKey_create, h.buffers]
    · intro name' key hget
      show key < c.buffers + 1
      have hget : (c.handlers.insert name (.buffer c.buffers)).get? name' =
          some (.buffer key) := hget
      rw [Directory.get?_insert] at hget
      split at hget
      · have hkey : c.buffers = key := Handler.buffer.inj (Option.some.inj hget)
        omega
      · have hkey := h.existing name' key hget
        omega
  | silent => exact h.insertHandler name fun key hne => nomatch hne
  | stdout => exact h.insertHandler name fun key hne => nomatch hne
  | tracing => exact h.insertHandler name fun key hne => nomatch hne

/-- A table is given a name in the session, and its past in the chronicle. -/
theorem insertTable (h : Keeps c s) (name : String) (past : Past) :
    Keeps { c with tables := c.tables.insert name past } (s.putTable name past.table) where
  handlers := h.handlers
  buffers := h.buffers
  existing := h.existing
  tables := by
    intro name'
    show (s.tables.insert name past.table).get? name' = _
    rw [Directory.get?_insert, Directory.get?_insert, h.tables]
    split <;> rfl
  machines := h.machines

/-- A table loses its name. -/
theorem eraseTable (h : Keeps c s) (name : String) :
    Keeps { c with tables := c.tables.erase name } { s with tables := s.tables.erase name } where
  handlers := h.handlers
  buffers := h.buffers
  existing := h.existing
  tables := by
    intro name'
    rw [Directory.get?_erase, Directory.get?_erase, h.tables]
    split <;> rfl
  machines := h.machines

theorem withoutTables (h : Keeps c s) (names : List String) :
    Keeps { c with tables := names.foldl Directory.erase c.tables } (s.withoutTables names) := by
  induction names generalizing c s with
  | nil => exact h
  | cons name rest ih => exact ih (h.eraseTable name)

/-- A machine is given a name in the session, and the past of its table in the chronicle. -/
theorem insertMachine (h : Keeps c s) (name : String) (policy : Policy) (past : Past) :
    Keeps { c with machines := c.machines.insert name (policy, past) }
      (s.putMachine name ⟨past.table, policy⟩) where
  handlers := h.handlers
  buffers := h.buffers
  existing := h.existing
  tables := h.tables
  machines := by
    intro name'
    show (s.machines.insert name ⟨past.table, policy⟩).get? name' = _
    rw [Directory.get?_insert, Directory.get?_insert, h.machines]
    split <;> rfl

/-- A machine loses its name. -/
theorem eraseMachine (h : Keeps c s) (name : String) :
    Keeps { c with machines := c.machines.erase name }
      { s with machines := s.machines.erase name } where
  handlers := h.handlers
  buffers := h.buffers
  existing := h.existing
  tables := h.tables
  machines := by
    intro name'
    rw [Directory.get?_erase, Directory.get?_erase, h.machines]
    split <;> rfl

/-- The table of a subject changes in the session, and its past in the chronicle. -/
theorem put (h : Keeps c s) {subject : Subject} {past : Past}
    (hput : s.updateTable subject past.table = .ok s') : Keeps (c.put subject past) s' := by
  cases subject with
  | table name =>
    obtain rfl := Except.ok.inj hput
    exact h.insertTable name past
  | machine name =>
    obtain ⟨m, hname, rfl⟩ := map_eq_ok_iff.mp hput
    obtain ⟨old, hmachine, -⟩ := h.exists_machine (Session.machine_eq_ok_iff.mp hname)
    rw [Chronicle.put, hmachine]
    exact h.insertMachine name m.policy past

/-- A machine that runs a program keeps its name. -/
theorem runProgram (h : Keeps c s) {name : String} {m : Machine}
    (hname : s.machines.get? name = some m) (program : Program) :
    ∃ past, c.machines.get? name = some (m.policy, past) ∧
      Keeps (c.put (.machine name) (past.add (.run m.policy program)))
        (s.runProgram name m program).1 := by
  obtain ⟨past, hmachine, hm⟩ := h.exists_machine hname
  refine ⟨past, hmachine, ?_⟩
  rw [Chronicle.put, hmachine]
  have hafter : m.after program = ⟨(past.add (.run m.policy program)).table, m.policy⟩ := by
    rw [Past.table_add, Machine.after, hm]
    rfl
  show Keeps _ (s.putMachine name (m.after program))
  rw [hafter]
  exact h.insertMachine name m.policy _

/-- The table and the handler that settings come to are those that the chronicle has under the
last names in them. -/
theorem lastOf?_resolved (h : Keeps c s) {settings : List NamedSetting}
    {resolved : List Machine.Setting} (hresolved : s.resolveAll settings = .ok (s', resolved)) :
    lastOf? Machine.Setting.table? resolved =
        ((lastOf? NamedSetting.table? settings).bind c.tables.get?).map Past.table ∧
      lastOf? Machine.Setting.handler? resolved = c.chosenHandler? settings := by
  obtain ⟨htable, hhandler, -⟩ := Session.lastOf?_of_resolveAll hresolved
  constructor
  · rw [htable, Option.map_bind]
    congr 1
    funext name
    exact h.tables name
  · rw [hhandler, h.handlers, chosenHandler?]

/-- The machine that settings build has the table that comes of the past that is entered. -/
theorem build (h : Keeps c s) {settings : List NamedSetting} {resolved : List Machine.Setting}
    (hresolved : s.resolveAll settings = .ok (s', resolved)) :
    (Machine.build resolved).value =
      ⟨(c.built settings).table, (lastOf? NamedSetting.policy? settings).getD .proceed⟩ := by
  obtain ⟨hgiven, hchosen⟩ := h.lastOf?_resolved hresolved
  have hsame : (Machine.build resolved).value.table = (c.built settings).table := by
    unfold built
    cases htable : (lastOf? NamedSetting.table? settings).bind c.tables.get? with
    | none =>
      rw [htable] at hgiven
      rw [(Machine.build_fresh_table hgiven).1, hchosen]
      rfl
    | some past =>
      rw [htable] at hgiven
      rw [(Machine.build_given_table hgiven).1, hchosen]
      cases c.chosenHandler? settings with
      | none => rfl
      | some handler =>
        rw [Past.table_add]
        rfl
  have hpolicy := (Session.lastOf?_of_resolveAll hresolved).2.2
  calc (Machine.build resolved).value
      = ⟨(Machine.build resolved).value.table, (Machine.build resolved).value.policy⟩ := rfl
    _ = _ := by rw [hsame, Machine.policy_build, hpolicy]

end Keeps

/-- **A command is entered as it is carried out.** -/
theorem keeps_after {c : Chronicle} {s s' : Session} {command : Command} {answer : Answer}
    (h : Keeps c s) (hcarried : s.Carried command s' answer) : Keeps (c.after command) s' := by
  cases hcarried with
  | createHandler name kind => exact h.createHandler name kind
  | send text hname => exact h
  | output hname => exact h
  | clear hname => exact h.clear _
  | @createTable name given handler hgiven =>
    have hhandler : c.handlerFor? given = some handler := by
      rw [handlerFor?, ← h.handlers]
      exact hgiven
    simp only [after, hhandler]
    exact h.insertTable name ⟨handler, []⟩
  | copy target hsubject =>
    obtain ⟨past, hpast, rfl⟩ := h.exists_past hsubject
    simp only [after, hpast]
    exact h.insertTable target past
  | request request hsubject hput =>
    obtain ⟨past, hpast, rfl⟩ := h.exists_past hsubject
    simp only [after, doing?, hpast, Option.map_some]
    apply h.put
    rw [Past.table_add]
    exact hput
  | redirect hsubject hname hput =>
    obtain ⟨past, hpast, rfl⟩ := h.exists_past hsubject
    rw [h.handlers] at hname
    simp only [after, doing?, hpast, hname, Option.bind_eq_bind, Option.bind_some, Option.pure_def]
    apply h.put
    rw [Past.table_add]
    exact hput
  | captured hsubject => exact h
  | createMachine name hresolved =>
    rw [h.build hresolved, (Session.resolveAll_eq_ok hresolved).1]
    exact (h.withoutTables _).insertMachine name _ _
  | policy hname => exact h
  | inspectMachine hname => exact h
  | @release name m target hname =>
    obtain ⟨past, hmachine, hm⟩ := h.exists_machine hname
    simp only [after, hmachine]
    rw [hm]
    exact (h.eraseMachine name).insertTable target past
  | run program hname =>
    obtain ⟨past, hmachine, hkeeps⟩ := h.runProgram hname program
    simp only [after, doing?, hmachine, Option.map_some]
    exact hkeeps
  | unassembled hname hsource =>
    simp only [after, doing?, hsource]
    exact h
  | @runSource name m source program hname hsource =>
    obtain ⟨past, hmachine, hkeeps⟩ := h.runProgram hname program
    simp only [after, doing?, hsource, hmachine, Option.map_some]
    exact hkeeps
  | idle => exact h

/-- A chronicle stays with its session through every sequence of commands. -/
theorem keeps_afterAll {c : Chronicle} {s s' : Session} {commands : List Command}
    {answers : List Answer} (h : Keeps c s) (hplay : s.play commands = .ok (s', answers)) :
    Keeps (c.afterAll commands) s' := by
  induction commands generalizing c s answers with
  | nil =>
    cases hplay
    exact h
  | cons command rest ih =>
    obtain ⟨s₁, answer, others, hexec, hrest, -⟩ := Session.play_cons_eq_ok hplay
    obtain ⟨s₂, hcarried, rfl⟩ := Session.carried_of_exec hexec
    exact ih ((keeps_after h hcarried).deliver answer.log) hrest

/-- Each command of a sequence is carried out and answered in a session that the chronicle of
the commands before it keeps. -/
theorem exists_carried_of_play {c : Chronicle} {s s' : Session} {commands : List Command}
    {answers : List Answer} (h : Keeps c s) (hplay : s.play commands = .ok (s', answers))
    {k : Nat} {command : Command} (hk : commands[k]? = some command) :
    ∃ s₁ s₂ answer, answers[k]? = some answer ∧ Keeps (c.afterAll (commands.take k)) s₁ ∧
      s₁.Carried command s₂ answer := by
  induction commands generalizing c s answers k with
  | nil => cases hk
  | cons first rest ih =>
    obtain ⟨s₁, answer, others, hexec, hrest, rfl⟩ := Session.play_cons_eq_ok hplay
    obtain ⟨s₂, hcarried, rfl⟩ := Session.carried_of_exec hexec
    cases k with
    | zero =>
      cases hk
      exact ⟨s, s₂, answer, rfl, h, hcarried⟩
    | succ k => exact ih ((keeps_after h hcarried).deliver answer.log) hrest hk

end Chronicle

end SymbolicBytecode
