/-
# What a command can do

A command is carried out in one way or refused.  `Carried` says, command by command, what a
session must hold, what becomes of it and what is answered; every account of a session is kept
by going through its cases once:

* `Session.find?`             : the table of a subject;
* `Session.carried_of_perform` : a command that is not refused is carried out as described;
* `Session.carried_of_exec`    : the same with the delivery of what was reported;
* `Session.resolveAll_eq_ok`   : the tables and handlers that named settings stand for.
-/
import SymbolicBytecode.Session.Command
import SymbolicBytecode.Proofs.Code.Layout
import SymbolicBytecode.Proofs.Machine.Building

namespace SymbolicBytecode

namespace Session

/-! ## Finding objects -/

/-- The table of a subject. -/
def find? (s : Session) : Subject → Option Table
  | .table name => s.tables.get? name
  | .machine name => (s.machines.get? name).map Machine.table

theorem handler_eq_ok_iff {s : Session} {name : String} {handler : Handler} :
    s.handler name = .ok handler ↔ s.handlers.get? name = some handler := by
  unfold Session.handler
  cases s.handlers.get? name <;> simp

theorem table_eq_ok_iff {s : Session} {name : String} {t : Table} :
    s.table name = .ok t ↔ s.tables.get? name = some t := by
  unfold Session.table
  cases s.tables.get? name <;> simp

theorem machine_eq_ok_iff {s : Session} {name : String} {m : Machine} :
    s.machine name = .ok m ↔ s.machines.get? name = some m := by
  unfold Session.machine
  cases s.machines.get? name <;> simp

theorem tableOf_eq_ok_iff {s : Session} {subject : Subject} {t : Table} :
    s.tableOf subject = .ok t ↔ s.find? subject = some t := by
  cases subject with
  | table name => exact table_eq_ok_iff
  | machine name =>
    rw [tableOf, find?, map_eq_ok_iff, Option.map_eq_some_iff]
    simp only [machine_eq_ok_iff]

/-- Changing a table leaves what is captured as it is. -/
theorem buffers_updateTable {s s' : Session} {subject : Subject} {t : Table}
    (h : s.updateTable subject t = .ok s') : s'.buffers = s.buffers := by
  cases subject with
  | table name =>
    cases h
    rfl
  | machine name =>
    obtain ⟨m, -, rfl⟩ := map_eq_ok_iff.mp h
    rfl

end Session

/-! ## Keys of buffers -/

namespace Buffers

@[simp] theorem nextKey_create (b : Buffers) : b.create.nextKey = b.nextKey + 1 := by
  simp [create, nextKey]

@[simp] theorem nextKey_clear (b : Buffers) (handler : Handler) :
    (b.clear handler).nextKey = b.nextKey := by
  cases handler <;> simp [clear, nextKey]

@[simp] theorem nextKey_capture (b : Buffers) (entry : Entry) :
    (b.capture entry).nextKey = b.nextKey := by
  unfold capture
  split <;> simp [nextKey]

@[simp] theorem nextKey_deliver (b : Buffers) (log : Log) :
    (b.deliver log).nextKey = b.nextKey := by
  induction log generalizing b with
  | nil => rfl
  | cons entry rest ih =>
    show ((b.capture entry).deliver rest).nextKey = b.nextKey
    rw [ih, nextKey_capture]

/-- A notice to one handler is not seen in the buffer of another. -/
theorem output_capture_of_handler_ne (b : Buffers) {handler : Handler} {key : Nat}
    (hne : handler ≠ .buffer key) (notice : Notice) :
    (b.capture (.notice handler notice)).output (.buffer key) = b.output (.buffer key) := by
  cases handler with
  | buffer key' => exact output_capture_of_ne b (fun h => hne (by rw [h])) notice
  | _ => rfl

/-- Nothing was captured under the key of the next buffer. -/
theorem output_nextKey (b : Buffers) : b.output (.buffer b.nextKey) = "" := by
  rw [output, nextKey, List.getElem?_eq_none (Nat.le_refl _), Option.getD_none]

end Buffers

namespace Session

/-! ## Commands -/

/-- How a command is carried out in a session, but for the delivery of its log: the session
afterwards and the answer. -/
inductive Carried (s : Session) : Command → Session → Answer → Prop
  | createHandler (name : String) (kind : HandlerKind) :
    Carried s (.createHandler name kind) (s.createHandler name kind) (.quiet .done)
  | send {name : String} {handler : Handler} (text : String)
    (hname : s.handlers.get? name = some handler) :
    Carried s (.send name text) s (.noting handler [.message text])
  | output {name : String} {handler : Handler} (hname : s.handlers.get? name = some handler) :
    Carried s (.output name) s (.quiet (.text (s.buffers.output handler)))
  | clear {name : String} {handler : Handler} (hname : s.handlers.get? name = some handler) :
    Carried s (.clear name) { s with buffers := s.buffers.clear handler } (.quiet .done)
  /-- The new table reports to the handler with the given name, or else to the trace. -/
  | createTable (name : String) {given : Option String} {handler : Handler}
    (hgiven : given.elim (some .tracing) s.handlers.get? = some handler) :
    Carried s (.createTable name given) (s.putTable name (Table.fresh handler).value)
      (.noting handler (Table.fresh handler).notices)
  | copy {subject : Subject} {t : Table} (target : String) (hsubject : s.find? subject = some t) :
    Carried s (.copy subject target) (s.putTable target t) (.quiet .done)
  | request {subject : Subject} {t : Table} {s' : Session} (request : Table.Request)
    (hsubject : s.find? subject = some t)
    (hput : s.updateTable subject (t.answer request).table = .ok s') :
    Carried s (.request subject request) s'
      ⟨((t.answer request).reply.map Reply.table).mapError Failure.lookup,
        Log.ofNotices (t.answer request).table.handler (t.answer request).notices⟩
  | redirect {subject : Subject} {t : Table} {name : String} {handler : Handler} {s' : Session}
    (hsubject : s.find? subject = some t) (hname : s.handlers.get? name = some handler)
    (hput : s.updateTable subject (t.redirect handler) = .ok s') :
    Carried s (.redirect subject name) s' (.quiet .done)
  | captured {subject : Subject} {t : Table} (hsubject : s.find? subject = some t) :
    Carried s (.captured subject) s (.quiet (.text (s.buffers.output t.handler)))
  | createMachine (name : String) {settings : List NamedSetting} {s' : Session}
    {resolved : List Machine.Setting} (hresolved : s.resolveAll settings = .ok (s', resolved)) :
    Carried s (.createMachine name settings)
      (s'.putMachine name (Machine.build resolved).value)
      (.noting (Machine.build resolved).value.table.handler (Machine.build resolved).notices)
  | policy {name : String} {m : Machine} (hname : s.machines.get? name = some m) :
    Carried s (.policy name) s (.quiet (.policy m.policy))
  | inspectMachine {name : String} {m : Machine} (hname : s.machines.get? name = some m) :
    Carried s (.inspectMachine name) s (.quiet (.text m.inspect))
  | release {name : String} {m : Machine} (target : String)
    (hname : s.machines.get? name = some m) :
    Carried s (.release name target)
      ({ s with machines := s.machines.erase name }.putTable target m.table) (.quiet .done)
  | run {name : String} {m : Machine} (program : Program)
    (hname : s.machines.get? name = some m) :
    Carried s (.run name program) (s.runProgram name m program).1 (s.runProgram name m program).2
  /-- The source text cannot be assembled, so nothing is run. -/
  | unassembled {name : String} {m : Machine} {source : String} {cause : Source.AssembleError}
    (hname : s.machines.get? name = some m) (hsource : Source.assemble source = .error cause) :
    Carried s (.runSource name source) s ⟨.error (.assembly cause), Source.assemblyLog source⟩
  | runSource {name : String} {m : Machine} {source : String} {program : Program}
    (hname : s.machines.get? name = some m) (hsource : Source.assemble source = .ok program) :
    Carried s (.runSource name source) (s.runProgram name m program).1
      { (s.runProgram name m program).2 with
        log := Source.assemblyLog source ++ (s.runProgram name m program).2.log }
  | idle : Carried s .idle s (.quiet .done)

/-- A command that is not refused is carried out as described. -/
theorem carried_of_perform {s s' : Session} {command : Command} {answer : Answer}
    (h : s.perform command = .ok (s', answer)) : Carried s command s' answer := by
  cases command with
  | createHandler name kind =>
    cases h
    exact .createHandler name kind
  | send name text =>
    obtain ⟨handler, hname, h⟩ := bind_eq_ok_iff.mp h
    cases h
    exact .send text (handler_eq_ok_iff.mp hname)
  | output name =>
    obtain ⟨handler, hname, h⟩ := bind_eq_ok_iff.mp h
    cases h
    exact .output (handler_eq_ok_iff.mp hname)
  | clear name =>
    obtain ⟨handler, hname, h⟩ := bind_eq_ok_iff.mp h
    cases h
    exact .clear (handler_eq_ok_iff.mp hname)
  | createTable name given =>
    cases given with
    | none =>
      cases h
      exact .createTable name rfl
    | some handlerName =>
      obtain ⟨handler, hname, h⟩ := bind_eq_ok_iff.mp h
      cases h
      exact .createTable name (handler_eq_ok_iff.mp hname)
  | copy subject target =>
    obtain ⟨t, hsubject, h⟩ := bind_eq_ok_iff.mp h
    cases h
    exact .copy target (tableOf_eq_ok_iff.mp hsubject)
  | request subject request =>
    obtain ⟨t, hsubject, h⟩ := bind_eq_ok_iff.mp h
    obtain ⟨s₁, hput, h⟩ := bind_eq_ok_iff.mp h
    cases h
    exact .request request (tableOf_eq_ok_iff.mp hsubject) hput
  | redirect subject name =>
    obtain ⟨t, hsubject, h⟩ := bind_eq_ok_iff.mp h
    obtain ⟨handler, hname, h⟩ := bind_eq_ok_iff.mp h
    obtain ⟨s₁, hput, h⟩ := bind_eq_ok_iff.mp h
    cases h
    exact .redirect (tableOf_eq_ok_iff.mp hsubject) (handler_eq_ok_iff.mp hname) hput
  | captured subject =>
    obtain ⟨t, hsubject, h⟩ := bind_eq_ok_iff.mp h
    cases h
    exact .captured (tableOf_eq_ok_iff.mp hsubject)
  | createMachine name settings =>
    obtain ⟨⟨s₁, resolved⟩, hresolved, h⟩ := bind_eq_ok_iff.mp h
    cases h
    exact .createMachine name hresolved
  | policy name =>
    obtain ⟨m, hname, h⟩ := bind_eq_ok_iff.mp h
    cases h
    exact .policy (machine_eq_ok_iff.mp hname)
  | inspectMachine name =>
    obtain ⟨m, hname, h⟩ := bind_eq_ok_iff.mp h
    cases h
    exact .inspectMachine (machine_eq_ok_iff.mp hname)
  | release name target =>
    obtain ⟨m, hname, h⟩ := bind_eq_ok_iff.mp h
    cases h
    exact .release target (machine_eq_ok_iff.mp hname)
  | run name program =>
    obtain ⟨m, hname, h⟩ := bind_eq_ok_iff.mp h
    cases h
    exact .run program (machine_eq_ok_iff.mp hname)
  | runSource name source =>
    obtain ⟨m, hname, h⟩ := bind_eq_ok_iff.mp h
    cases hsource : Source.assemble source with
    | error cause =>
      simp only [hsource] at h
      cases h
      exact .unassembled (machine_eq_ok_iff.mp hname) hsource
    | ok program =>
      simp only [hsource] at h
      cases h
      exact .runSource (machine_eq_ok_iff.mp hname) hsource
  | idle =>
    cases h
    exact .idle

/-- What is executed is carried out, and what it reported is delivered. -/
theorem carried_of_exec {s s' : Session} {command : Command} {answer : Answer}
    (h : s.exec command = .ok (s', answer)) :
    ∃ s₁, Carried s command s₁ answer ∧ s' = s₁.deliver answer.log := by
  obtain ⟨⟨s₁, answer₁⟩, hperform, h⟩ := map_eq_ok_iff.mp h
  obtain ⟨rfl, rfl⟩ := Prod.mk.inj h
  exact ⟨s₁, carried_of_perform hperform, rfl⟩

/-- Several commands are the first of them and then the others. -/
theorem play_cons_eq_ok {s s' : Session} {command : Command} {rest : List Command}
    {answers : List Answer} (h : s.play (command :: rest) = .ok (s', answers)) :
    ∃ s₁ answer others, s.exec command = .ok (s₁, answer) ∧ s₁.play rest = .ok (s', others) ∧
      answers = answer :: others := by
  rw [play] at h
  split at h
  · cases h
  · rename_i s₁ answer hexec
    obtain ⟨⟨s₂, others⟩, hrest, h⟩ := map_eq_ok_iff.mp h
    obtain ⟨rfl, rfl⟩ := Prod.mk.inj h
    exact ⟨s₁, answer, others, hexec, hrest, rfl⟩

end Session

/-! ## Named settings -/

/-- What the last name stands for is the last thing that is given. -/
theorem getLast?_of_map_some {α β : Type} {xs : List α} {names : List β} {f : β → Option α}
    (h : xs.map some = names.map f) : xs.getLast? = names.getLast?.bind f := by
  have hlast : xs.getLast?.map some = names.getLast?.map f := by
    rw [← List.getLast?_map, ← List.getLast?_map, h]
  cases hnames : names.getLast? with
  | none =>
    rw [hnames] at hlast
    simpa using hlast
  | some name =>
    rw [hnames] at hlast
    obtain ⟨x, hx, hvalue⟩ := Option.map_eq_some_iff.mp hlast
    rw [hx, hvalue]
    rfl

namespace NamedSetting

/-- The name of the table that a setting gives. -/
def table? : NamedSetting → Option String
  | table name => some name
  | _ => none

/-- The name of the handler that a setting gives. -/
def handler? : NamedSetting → Option String
  | handler name => some name
  | _ => none

/-- The policy that a setting gives. -/
def policy? : NamedSetting → Option Policy
  | policy p => some p
  | _ => none

end NamedSetting

namespace Session

/-- Takes tables out of a session. -/
def withoutTables (s : Session) (names : List String) : Session :=
  { s with tables := names.foldl Directory.erase s.tables }

/-- **Settings that are given by name.**  If all their names are known, the tables among them
have lost their names and nothing else has changed; and the settings that they stand for are
those that the names referred to in the first place. -/
theorem resolveAll_eq_ok {s s' : Session} {settings : List NamedSetting}
    {resolved : List Machine.Setting} (h : s.resolveAll settings = .ok (s', resolved)) :
    s' = s.withoutTables (settings.filterMap NamedSetting.table?) ∧
      (resolved.filterMap Machine.Setting.table?).map some =
        (settings.filterMap NamedSetting.table?).map s.tables.get? ∧
      (resolved.filterMap Machine.Setting.handler?).map some =
        (settings.filterMap NamedSetting.handler?).map s.handlers.get? ∧
      resolved.filterMap Machine.Setting.policy? =
        settings.filterMap NamedSetting.policy? := by
  induction settings generalizing s resolved with
  | nil =>
    cases h
    exact ⟨rfl, rfl, rfl, rfl⟩
  | cons setting rest ih =>
    rw [resolveAll] at h
    split at h
    · cases h
    · rename_i s₁ first hfirst
      obtain ⟨⟨s₂, others⟩, hothers, h⟩ := map_eq_ok_iff.mp h
      obtain ⟨rfl, rfl⟩ := Prod.mk.inj h
      obtain ⟨hsession, htables, hhandlers, hpolicies⟩ := ih hothers
      cases setting with
      | table name =>
        obtain ⟨t, htable, hpair⟩ := map_eq_ok_iff.mp hfirst
        obtain ⟨rfl, rfl⟩ := Prod.mk.inj hpair
        refine ⟨hsession, ?_, hhandlers, hpolicies⟩
        -- a name that is found after `name` was taken away is another name
        have hothers : ∀ other ∈ rest.filterMap NamedSetting.table?,
            (s.tables.erase name).get? other = s.tables.get? other := by
          intro other hother
          have hfound : (s.tables.erase name).get? other ∈
              (others.filterMap Machine.Setting.table?).map some :=
            htables ▸ List.mem_map_of_mem hother
          rw [Directory.get?_erase] at hfound ⊢
          split at hfound
          · simp at hfound
          · rename_i hne
            rw [if_neg hne]
        rw [List.map_congr_left hothers] at htables
        show some t :: (others.filterMap Machine.Setting.table?).map some =
          s.tables.get? name :: _
        rw [htables, table_eq_ok_iff.mp htable]
      | handler name =>
        obtain ⟨handler, hhandler, hpair⟩ := map_eq_ok_iff.mp hfirst
        obtain ⟨rfl, rfl⟩ := Prod.mk.inj hpair
        refine ⟨hsession, htables, ?_, hpolicies⟩
        show some handler :: (others.filterMap Machine.Setting.handler?).map some =
          s.handlers.get? name :: _
        rw [hhandlers, handler_eq_ok_iff.mp hhandler]
      | policy policy =>
        obtain ⟨rfl, rfl⟩ := Prod.mk.inj (Except.ok.inj hfirst)
        refine ⟨hsession, htables, hhandlers, ?_⟩
        show policy :: others.filterMap Machine.Setting.policy? = policy :: _
        rw [hpolicies]

/-- The last choice of each kind among named settings is the last choice among the settings that
they stand for. -/
theorem lastOf?_of_resolveAll {s s' : Session} {settings : List NamedSetting}
    {resolved : List Machine.Setting} (h : s.resolveAll settings = .ok (s', resolved)) :
    lastOf? Machine.Setting.table? resolved =
        (lastOf? NamedSetting.table? settings).bind s.tables.get? ∧
      lastOf? Machine.Setting.handler? resolved =
        (lastOf? NamedSetting.handler? settings).bind s.handlers.get? ∧
      lastOf? Machine.Setting.policy? resolved = lastOf? NamedSetting.policy? settings := by
  obtain ⟨-, htables, hhandlers, hpolicies⟩ := resolveAll_eq_ok h
  exact ⟨getLast?_of_map_some htables, getLast?_of_map_some hhandlers, by
    rw [lastOf?, hpolicies, ← lastOf?]⟩

end Session

end SymbolicBytecode
