/-
# Where messages go

A message goes to the handler that its table reports to at that moment, and a buffer keeps its
messages until it is cleared.  The history of a session is told by its chronicle alone, as a
list of events; the text in a buffer is then what the buffer has heard since it was created or
last cleared.

* `Table.messages`, `Deed.messages` : what is said on account of a request or of a run;
* `Chronicle.events`                : the events that a command brings about;
* `heard`                           : the messages to a handler since it was last emptied;
* `Buffers.Holds`                   : buffers hold what was heard;
* `Chronicle.holds_carried`         : one command;
* `Session.play_routed`             : every sequence of commands.
-/
import Mathlib.Data.List.DropRight
import SymbolicBytecode.Proofs.Machine.Repetition
import SymbolicBytecode.Proofs.Session.Chronicle

namespace SymbolicBytecode

/-- What the first item gives stands in front of what the others give. -/
theorem filterMap_cons_toList {σ α : Type} (f : σ → Option α) (item : σ) (rest : List σ) :
    (item :: rest).filterMap f = (f item).toList ++ rest.filterMap f := by
  cases h : f item <;> simp [h]

/-! ## What is said -/

/-- What a table says when it is reset, as every new table is. -/
def resetMessage : String :=
  "[Symbolic] Symbolic table initialized."

namespace Table

/-- What a table says on account of a request. -/
def messages (t : Table) : Request → List String
  | .reset => [resetMessage]
  | .define id value => ["[Symbolic] Defined symbol " ++ Symbol.binding ⟨id, value⟩]
  | .apply id =>
    match t.bindings.get? id with
    | some value => ["[Symbolic] Applied symbol " ++ Symbol.binding ⟨id, value⟩]
    | none => ["[Symbolic] Undefined symbol " ++ Text.hexLiteral id]
  | .dump => [t.listing]
  | .reflect => ["[Meta] Reflection triggered.", t.listing]
  | .get _ | .contains _ | .size | .isEmpty | .symbols | .listing | .inspect | .redirect _ => []

/-- What a table says on account of requests that are made one after the other. -/
def allMessages (t : Table) : List Request → List String
  | [] => []
  | request :: rest => t.messages request ++ (t.answer request).table.allMessages rest

/-- The notices of a request say what is to be said. -/
theorem text_answer (t : Table) (request : Request) :
    (t.answer request).notices.map Notice.text = t.messages request := by
  cases request with
  | apply id =>
    cases hget : t.bindings.get? id with
    | none =>
      simp only [answer, messages, apply_of_unbound hget, hget]
      rfl
    | some value =>
      simp only [answer, messages, apply_of_bound hget, hget]
      rfl
  | _ => rfl

end Table

/-- The request that an instruction makes of the table. -/
def Instruction.request? : Instruction → Option Table.Request
  | halt => none
  | define id value => some (.define id value)
  | apply id => some (.apply id)
  | reflect => some .reflect

/-- An instruction says what its request says, and leaves the table that its request leaves. -/
theorem Table.allMessages_perform (t : Table) (i : Instruction) (rest : List Table.Request) :
    t.allMessages (i.request?.toList ++ rest) =
      (t.perform i).notices.map Notice.text ++ (t.perform i).table.allMessages rest := by
  cases i with
  | halt => rfl
  | define id value => rfl
  | apply id =>
    show t.messages (.apply id) ++ t.allMessages rest = _
    rw [Table.table_perform_apply, ← Table.text_answer]
    cases hget : t.bindings.get? id with
    | none => simp only [Table.answer, apply_of_unbound hget, perform_apply_of_unbound hget]
    | some value => simp only [Table.answer, apply_of_bound hget, perform_apply_of_bound hget]
  | reflect => rfl

namespace Execution

/-- An execution says what the requests of its instructions say. -/
theorem text_follow (policy : Policy) (closing : Ending) (t : Table) (items : List Located) :
    (follow policy closing t items).notices.map Notice.text =
      t.allMessages ((follow policy closing t items).instructions.filterMap
        Instruction.request?) := by
  apply follow_induction (motive := fun t e =>
    e.notices.map Notice.text = t.allMessages (e.instructions.filterMap Instruction.request?))
  · intro t ending
    rfl
  · intro t item e h
    rw [notices_precede, instructions_precede, List.map_append, h, filterMap_cons_toList]
    exact (t.allMessages_perform item.instruction _).symm

end Execution

namespace Deed

/-- The requests that a deed makes of a table, those of a run being the requests of the
instructions that the run executes. -/
def requests (deed : Deed) (t : Table) : List Table.Request :=
  match deed with
  | .request asked => [asked]
  | .run policy program =>
    (Machine.executes ⟨t, policy⟩ program).filterMap Instruction.request?

/-- What a table says on account of a deed. -/
def messages (deed : Deed) (t : Table) : List String :=
  t.allMessages (deed.requests t)

/-- The messages of a request are what the table says. -/
theorem messages_request (t : Table) (asked : Table.Request) :
    messages (.request asked) t = t.messages asked :=
  List.append_nil _

/-- The notices of a run say what is to be said. -/
theorem text_run (t : Table) (policy : Policy) (program : Program) :
    (Machine.run ⟨t, policy⟩ program).notices.map Notice.text =
      messages (.run policy program) t := by
  rw [Machine.run_eq_follow, Execution.text_follow, Execution.instructions_follow]
  rfl

end Deed

/-! ## Who hears it -/

/-- Only a redirection changes the handler of a table. -/
theorem Table.handler_undergo (t : Table) (deed : Deed) :
    (t.undergo deed).handler = deed.redirection?.getD t.handler := by
  cases deed with
  | request request => cases request <;> rfl
  | run policy program => exact Execution.handler_run policy t (Cursor.start program)

/-- The table that comes of a past reports to the handler that the past leads to. -/
theorem Past.handler_table (p : Past) : p.table.handler = p.reportsTo := by
  obtain ⟨handler, deeds⟩ := p
  induction deeds using List.reverseRecOn with
  | nil => rfl
  | append_singleton deeds deed ih =>
    have hadd : (⟨handler, deeds ++ [deed]⟩ : Past) = add ⟨handler, deeds⟩ deed := rfl
    rw [hadd, table_add, Table.handler_undergo, ih, ← hadd, reportsTo, reportsTo, lastOf?_concat]
    cases deed.redirection? <;> rfl

/-- What happens to handlers. -/
inductive Event
  /-- A handler that captures messages is created. -/
  | opened (handler : Handler)
  | cleared (handler : Handler)
  | said (handler : Handler) (message : String)
  deriving DecidableEq, Repr

namespace Event

/-- Tells whether nothing is left of what a handler has heard before. -/
def empties (handler : Handler) : Event → Bool
  | opened emptied => emptied = handler
  | cleared emptied => emptied = handler
  | said .. => false

/-- The message to a handler. -/
def messageTo? (handler : Handler) : Event → Option String
  | said hearer message => if hearer = handler then some message else none
  | _ => none

end Event

/-- What a handler has heard since it was created or last cleared. -/
def heard (handler : Handler) (events : List Event) : List String :=
  (events.rtakeWhile fun event => !event.empties handler).filterMap (Event.messageTo? handler)

theorem heard_concat (handler : Handler) (events : List Event) (event : Event) :
    heard handler (events ++ [event]) =
      if event.empties handler then []
      else heard handler events ++ (event.messageTo? handler).toList := by
  unfold heard
  rw [List.rtakeWhile_concat]
  cases event.empties handler with
  | true => rfl
  | false =>
    show List.filterMap _ (_ ++ [event]) = _ ++ _
    rw [List.filterMap_append, filterMap_cons_toList, List.filterMap_nil, List.append_nil]

/-- Messages as they are captured, each followed by a line feed. -/
def transcript (messages : List String) : String :=
  String.join (messages.map (· ++ "\n"))

@[simp] theorem transcript_append (first second : List String) :
    transcript (first ++ second) = transcript first ++ transcript second := by
  simp [transcript, String.join_append]

/-! ## What logs tell -/

/-- The event that an entry of a log tells of. -/
def Entry.said? : Entry → Option Event
  | .notice handler reported => some (.said handler reported.text)
  | .record _ => none

namespace Log

/-- The events that a log tells of. -/
def said (log : Log) : List Event :=
  log.filterMap Entry.said?

@[simp] theorem said_append (first second : Log) :
    said (first ++ second) = said first ++ said second :=
  List.filterMap_append

@[simp] theorem said_ofNotices (handler : Handler) (notices : List Notice) :
    said (ofNotices handler notices) = (notices.map Notice.text).map (Event.said handler) := by
  simp [said, ofNotices, List.filterMap_map, Function.comp_def, Entry.said?]

@[simp] theorem said_ofRecords (records : List Record) : said (ofRecords records) = [] := by
  simp [said, ofRecords, List.filterMap_map, Function.comp_def, Entry.said?]

end Log

@[simp] theorem Source.said_assemblyLog (source : String) :
    Log.said (assemblyLog source) = [] :=
  Log.said_ofRecords _

/-- The log of an execution tells of what the execution says to its handler, and of no more. -/
theorem Execution.said_log (e : Execution) (length : Nat) :
    Log.said (e.log length) =
      (e.notices.map Notice.text).map (Event.said e.table.handler) := by
  have hsteps : ∀ steps : List Step,
      Log.said (steps.flatMap (stepLog e.table.handler)) =
        ((steps.flatMap Step.notices).map Notice.text).map (Event.said e.table.handler) := by
    intro steps
    induction steps with
    | nil => rfl
    | cons step rest ih =>
      rw [List.flatMap_cons, List.flatMap_cons, Log.said_append, ih, List.map_append,
        List.map_append]
      congr 1
      exact Log.said_ofNotices _ _
  show Log.said (e.steps.flatMap (stepLog e.table.handler) ++ Log.ofRecords _) = _
  rw [Log.said_append, Log.said_ofRecords, List.append_nil, hsteps]
  rfl

/-- The log of a request tells of what the table says to the handler that it reports to. -/
theorem Table.said_answer (t : Table) (request : Table.Request) :
    Log.said (Log.ofNotices (t.answer request).table.handler (t.answer request).notices) =
      (t.messages request).map (Event.said t.handler) := by
  rw [Log.said_ofNotices, text_answer]
  -- a redirection does change the handler, but says nothing
  cases request <;> rfl

/-! ## What buffers hold -/

namespace Buffers

/-- Clearing one handler leaves what others have captured. -/
theorem output_clear_of_ne (b : Buffers) {handler handler' : Handler} (hne : handler ≠ handler') :
    (b.clear handler).output handler' = b.output handler' := by
  cases handler with
  | buffer key =>
    cases handler' with
    | buffer key' =>
      have hkey : key ≠ key' := fun h => hne (congrArg Handler.buffer h)
      rw [clear, output, output, List.getElem?_modify]
      simp [hkey]
    | _ => rfl
  | _ => rfl

/-- Every buffer holds what it has heard. -/
def Holds (b : Buffers) (events : List Event) : Prop :=
  ∀ key < b.nextKey, b.output (.buffer key) = transcript (heard (.buffer key) events)

namespace Holds

variable {b : Buffers} {events : List Event}

theorem empty : Holds .empty [] := by
  intro key hkey
  cases hkey

theorem create (h : b.Holds events) :
    b.create.Holds (events ++ [.opened (.buffer b.nextKey)]) := by
  intro key hkey
  rw [nextKey_create] at hkey
  rw [output_create, heard_concat]
  by_cases hnew : b.nextKey = key
  · subst hnew
    rw [if_pos (by simp [Event.empties]), output_nextKey]
    rfl
  · have hold : key < b.nextKey := by omega
    rw [if_neg (by simp [Event.empties, hnew]), h key hold]
    simp [Event.messageTo?]

theorem clear (h : b.Holds events) (handler : Handler) :
    (b.clear handler).Holds (events ++ [.cleared handler]) := by
  intro key hkey
  rw [nextKey_clear] at hkey
  rw [heard_concat]
  by_cases hcleared : handler = .buffer key
  · subst hcleared
    rw [if_pos (by simp [Event.empties]), output_clear_self]
    rfl
  · rw [if_neg (by simp [Event.empties, hcleared]), output_clear_of_ne b hcleared, h key hkey]
    simp [Event.messageTo?]

/-- A message is heard by the buffer that it goes to. -/
theorem capture (h : b.Holds events) (entry : Entry) :
    (b.capture entry).Holds (events ++ entry.said?.toList) := by
  intro key hkey
  rw [nextKey_capture] at hkey
  cases entry with
  | record record =>
    show b.output (.buffer key) = transcript (heard _ (events ++ []))
    rw [List.append_nil, h key hkey]
  | notice handler notice =>
    show _ = transcript (heard _ (events ++ [.said handler notice.text]))
    rw [heard_concat, if_neg (by simp [Event.empties]), transcript_append, ← h key hkey]
    by_cases hhears : handler = .buffer key
    · subst hhears
      rw [output_capture_self b hkey]
      simp [Event.messageTo?, transcript, Notice.line]
    · rw [output_capture_of_handler_ne b hhears]
      simp [Event.messageTo?, hhears, transcript]

/-- A log is heard entry by entry. -/
theorem deliver (h : b.Holds events) (log : Log) :
    (b.deliver log).Holds (events ++ log.said) := by
  induction log generalizing b events with
  | nil => rwa [Log.said, List.filterMap_nil, List.append_nil]
  | cons entry rest ih =>
    have hsaid : Log.said (entry :: rest) = entry.said?.toList ++ Log.said rest :=
      filterMap_cons_toList Entry.said? entry rest
    rw [hsaid, ← List.append_assoc]
    exact ih (h.capture entry)

end Holds

end Buffers

/-! ## The history of a session -/

namespace Chronicle

/-- The events that a command brings about.  A new table says that it was reset, and so does
the new table of a machine that is not given one; whatever else is said is said by a table to
the handler that it reports to. -/
def events (c : Chronicle) (command : Command) : List Event :=
  match command with
  | .createHandler _ .buffer => [.opened (.buffer c.buffers)]
  | .clear name => (c.handlers.get? name).toList.map .cleared
  | .send name text => (c.handlers.get? name).toList.map (.said · text)
  | .createTable _ given => (c.handlerFor? given).toList.map (.said · resetMessage)
  | .createMachine _ settings =>
    match (lastOf? NamedSetting.table? settings).bind c.tables.get? with
    | some _ => []
    | none => [.said ((c.chosenHandler? settings).getD .tracing) resetMessage]
  | _ =>
    match c.doing? command with
    | some done => (done.deed.messages done.past.table).map (.said done.past.reportsTo)
    | none => []

/-- The events that commands bring about, one after the other. -/
def history (c : Chronicle) : List Command → List Event
  | [] => []
  | command :: rest => c.events command ++ (c.after command).history rest

/-- A run says what its deed is to say. -/
theorem said_runProgram {c : Chronicle} {s : Session} {name : String} {m : Machine}
    (h : Keeps c s) (hname : s.machines.get? name = some m) (program : Program) :
    ∃ past, c.machines.get? name = some (m.policy, past) ∧
      Log.said (s.runProgram name m program).2.log =
        (Deed.messages (.run m.policy program) past.table).map (.said past.reportsTo) := by
  obtain ⟨past, hmachine, hm⟩ := h.exists_machine hname
  refine ⟨past, hmachine, ?_⟩
  have hhandler : (m.run program).table.handler = past.reportsTo := by
    rw [← Past.handler_table, hm]
    exact Execution.handler_run _ _ _
  show Log.said ((m.run program).log program.length) = _
  rw [Execution.said_log, hhandler, ← Deed.text_run, ← hm]

/-- The table of a new machine says what it is to say. -/
theorem said_build {c : Chronicle} {s s' : Session} {settings : List NamedSetting}
    {resolved : List Machine.Setting} (h : Keeps c s)
    (hresolved : s.resolveAll settings = .ok (s', resolved)) (name : String) :
    ((Machine.build resolved).notices.map Notice.text).map
        (.said (Machine.build resolved).value.table.handler) =
      c.events (.createMachine name settings) := by
  obtain ⟨hgiven, hchosen⟩ := h.lastOf?_resolved hresolved
  cases htable : (lastOf? NamedSetting.table? settings).bind c.tables.get? with
  | none =>
    rw [htable] at hgiven
    obtain ⟨hnew, hnotices⟩ := Machine.build_fresh_table hgiven
    simp only [events, htable]
    rw [hnew, hnotices, hchosen]
    rfl
  | some past =>
    rw [htable] at hgiven
    simp only [events, htable]
    rw [(Machine.build_given_table hgiven).2]
    rfl

/-- **One command.**  Buffers that hold what was heard before a command hold what has been heard
after it. -/
theorem holds_carried {c : Chronicle} {s s' : Session} {command : Command} {answer : Answer}
    {before : List Event} (h : Keeps c s) (hholds : s.buffers.Holds before)
    (hcarried : s.Carried command s' answer) :
    (s'.deliver answer.log).buffers.Holds (before ++ c.events command) := by
  -- apart from the two commands that change buffers themselves, only the log counts
  have hlog : s'.buffers = s.buffers → Log.said answer.log = c.events command →
      (s'.deliver answer.log).buffers.Holds (before ++ c.events command) := by
    intro hbuffers hsaid
    show (s'.buffers.deliver answer.log).Holds _
    rw [hbuffers, ← hsaid]
    exact hholds.deliver answer.log
  cases hcarried with
  | createHandler name kind =>
    cases kind with
    | buffer =>
      show (s.buffers.create).Holds (before ++ [.opened (.buffer c.buffers)])
      rw [← h.buffers]
      exact hholds.create
    | _ => exact hlog rfl rfl
  | @clear name handler hname =>
    have hevents : c.events (.clear name) = [.cleared handler] := by
      rw [h.handlers] at hname
      simp [events, hname]
    rw [hevents]
    exact hholds.clear handler
  | @send name handler text hname =>
    apply hlog rfl
    rw [h.handlers] at hname
    simp only [events, hname]
    rfl
  | @createTable name given handler hgiven =>
    apply hlog rfl
    rw [h.handlers] at hgiven
    have hhandler : c.handlerFor? given = some handler := hgiven
    simp only [events, hhandler]
    rfl
  | request request hsubject hput =>
    apply hlog (Session.buffers_updateTable hput)
    obtain ⟨past, hpast, rfl⟩ := h.exists_past hsubject
    simp only [events, doing?, hpast, Option.map_some]
    rw [Table.said_answer, Deed.messages_request, Past.handler_table]
  | redirect hsubject hname hput =>
    apply hlog (Session.buffers_updateTable hput)
    obtain ⟨past, hpast, rfl⟩ := h.exists_past hsubject
    rw [h.handlers] at hname
    simp only [events, doing?, hpast, hname, Option.bind_eq_bind, Option.bind_some, Option.pure_def]
    rfl
  | createMachine name hresolved =>
    apply hlog
    · rw [(Session.resolveAll_eq_ok hresolved).1]
      rfl
    · rw [← said_build h hresolved name]
      exact Log.said_ofNotices _ _
  | run program hname =>
    apply hlog rfl
    obtain ⟨past, hmachine, hsaid⟩ := said_runProgram h hname program
    simp only [events, doing?, hmachine, Option.map_some]
    exact hsaid
  | unassembled hname hsource =>
    apply hlog rfl
    simp only [events, doing?, hsource]
    exact Source.said_assemblyLog _
  | @runSource name m source program hname hsource =>
    apply hlog rfl
    obtain ⟨past, hmachine, hsaid⟩ := said_runProgram h hname program
    simp only [events, doing?, hsource, hmachine, Option.map_some]
    rw [Log.said_append, Source.said_assemblyLog, List.nil_append]
    exact hsaid
  | output hname => exact hlog rfl rfl
  | copy target hsubject => exact hlog rfl rfl
  | captured hsubject => exact hlog rfl rfl
  | policy hname => exact hlog rfl rfl
  | inspectMachine hname => exact hlog rfl rfl
  | release target hname => exact hlog rfl rfl
  | idle => exact hlog rfl rfl

/-- Buffers go on to hold what is heard through every sequence of commands. -/
theorem holds_history {c : Chronicle} {s s' : Session} {commands : List Command}
    {answers : List Answer} {before : List Event} (h : Keeps c s)
    (hholds : s.buffers.Holds before) (hplay : s.play commands = .ok (s', answers)) :
    s'.buffers.Holds (before ++ c.history commands) := by
  induction commands generalizing c s answers before with
  | nil =>
    cases hplay
    rwa [history, List.append_nil]
  | cons command rest ih =>
    obtain ⟨s₁, answer, others, hexec, hrest, -⟩ := Session.play_cons_eq_ok hplay
    obtain ⟨s₂, hcarried, rfl⟩ := Session.carried_of_exec hexec
    rw [history, ← List.append_assoc]
    exact ih ((keeps_after h hcarried).deliver answer.log) (holds_carried h hholds hcarried) hrest

end Chronicle

/-! ## Sessions -/

namespace Session

/-- **Messages are routed.**  After any sequence of commands from the empty session, every buffer,
and so the buffer of every handler that has a name, holds just the messages that went to it since
it was created or last cleared, in order and each followed by a line feed: those that were sent to
it directly, and those of the tables that reported to it at the time.  No other handler ever
captures anything. -/
theorem play_routed {commands : List Command} {s : Session} {answers : List Answer}
    (hplay : empty.play commands = .ok (s, answers)) :
    (∀ key < s.buffers.nextKey, s.buffers.output (.buffer key) =
      transcript (heard (.buffer key) (Chronicle.empty.history commands))) ∧
    (∀ name key, s.handlers.get? name = some (.buffer key) → key < s.buffers.nextKey) ∧
    ∀ handler, (∀ key, handler ≠ .buffer key) → s.buffers.output handler = "" := by
  have hkeeps := Chronicle.keeps_afterAll Chronicle.Keeps.empty hplay
  refine ⟨?_, ?_, ?_⟩
  · exact Chronicle.holds_history Chronicle.Keeps.empty Buffers.Holds.empty hplay
  · intro name key hname
    rw [hkeeps.handlers] at hname
    rw [hkeeps.buffers]
    exact hkeeps.existing name key hname
  · intro handler hcaptures
    cases handler with
    | buffer key => exact absurd rfl (hcaptures key)
    | _ => rfl

/-- A table and its copy share a buffer until the table is redirected to another.  Clearing the
buffer takes away what the new table said; the lookup in the run comes from the copy. -/
theorem play_routed_shared_buffer :
    let commands : List Command := [.createHandler "log" .buffer, .createTable "a" (some "log"),
      .copy (.table "a") "b", .createHandler "other" .buffer, .redirect (.table "a") "other",
      .clear "log", .request (.table "a") (.define 1 10), .send "log" "mark",
      .createMachine "m" [.table "b"], .run "m" [0xE1, 1]]
    ∃ s answers, empty.play commands = .ok (s, answers) ∧
      s.handlers.get? "log" = some (.buffer 0) ∧
      s.buffers.output (.buffer 0) = "mark\n[Symbolic] Undefined symbol 0x01\n" ∧
      s.handlers.get? "other" = some (.buffer 1) ∧
      s.buffers.output (.buffer 1) = "[Symbolic] Defined symbol 0x01 = 10\n" := by
  intro commands
  refine ⟨_, _, rfl, ?_⟩
  obtain ⟨hbuffers, hnamed, -⟩ := @play_routed commands _ _ rfl
  refine ⟨rfl, ?_, rfl, ?_⟩
  · rw [hbuffers 0 (hnamed "log" 0 rfl)]
    decide +kernel
  · rw [hbuffers 1 (hnamed "other" 1 rfl)]
    decide +kernel

end Session

end SymbolicBytecode
