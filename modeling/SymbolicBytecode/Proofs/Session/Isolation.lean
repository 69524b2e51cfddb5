/-
# Tables do not see each other

However the commands of a session are interleaved, a table is what its own past makes of it,
and it answers as its own past makes it answer.  Neither other tables and machines nor the
handlers that any of them report to have a part in it: the past may be replayed alone, with
everything reported to a single handler of any kind.

* `Table.undergo_redirect`      : what is done with a table does not depend on its handler;
* `Past.replay_eq`              : a past replayed for one handler;
* `Chronicle.replayed?_carried` : one command, answered by replaying the past of its table;
* `Session.play_isolated`       : every sequence of commands.
-/
import SymbolicBytecode.Proofs.Machine.Eager
import SymbolicBytecode.Proofs.Session.Chronicle

namespace SymbolicBytecode

/-! ## Handlers decide nothing -/

namespace Table

@[simp] theorem bindings_redirect (t : Table) (handler : Handler) :
    (t.redirect handler).bindings = t.bindings := rfl

/-- An instruction has the same effect and the same notices whatever the handler. -/
theorem perform_redirect (t : Table) (handler : Handler) (i : Instruction) :
    (t.redirect handler).perform i =
      { t.perform i with table := (t.perform i).table.redirect handler } := by
  cases i with
  | halt => rfl
  | define id value => rfl
  | apply id =>
    cases hget : t.bindings.get? id with
    | none =>
      rw [perform_apply_of_unbound hget,
        perform_apply_of_unbound (show (t.redirect handler).bindings.get? id = none from hget)]
    | some value =>
      rw [perform_apply_of_bound hget,
        perform_apply_of_bound (show (t.redirect handler).bindings.get? id = some value from hget)]
  | reflect => rfl

end Table

namespace Execution

/-- The execution with another handler for the table that it leaves behind. -/
def redirect (e : Execution) (handler : Handler) : Execution :=
  { e with table := e.table.redirect handler }

@[simp] theorem outcome_redirect (e : Execution) (handler : Handler) :
    (e.redirect handler).outcome = e.outcome := rfl

theorem follow_redirect (policy : Policy) (closing : Ending) (t : Table) (handler : Handler)
    (items : List Located) :
    follow policy closing (t.redirect handler) items =
      (follow policy closing t items).redirect handler := by
  induction items generalizing t with
  | nil => rfl
  | cons item rest ih =>
    have hstep : (t.redirect handler).step item = t.step item := by
      rw [Table.step, Table.perform_redirect]
      rfl
    have heffect : ((t.redirect handler).perform item.instruction).effect =
        (t.perform item.instruction).effect := by
      rw [Table.perform_redirect]
    cases hend : policy.ending? item.offset (t.perform item.instruction).effect with
    | some ending =>
      rw [follow_of_ending hend, follow_of_ending (heffect ▸ hend), hstep, Table.perform_redirect]
      rfl
    | none =>
      rw [follow_of_step hend, follow_of_step (heffect ▸ hend), hstep, Table.perform_redirect, ih]
      rfl

/-- A run takes the same steps and ends in the same way whatever the handler. -/
theorem run_redirect (policy : Policy) (t : Table) (handler : Handler) (cursor : Cursor) :
    run policy (t.redirect handler) cursor = (run policy t cursor).redirect handler := by
  rw [run_eq_follow, run_eq_follow, follow_redirect]

end Execution

namespace Table

/-- A request is answered with the same reply whatever the handler. -/
theorem reply_redirect (t : Table) (handler : Handler) (request : Request) :
    ((t.redirect handler).answer request).reply = (t.answer request).reply := by
  cases request with
  | apply id =>
    simp only [answer, apply, bindings_redirect]
  | _ => rfl

/-- What a deed makes of a table does not depend on the handler, which it leaves alone unless
it is a redirection. -/
theorem undergo_redirect (t : Table) (handler : Handler) {deed : Deed}
    (h : deed.redirection? = none) :
    (t.redirect handler).undergo deed = (t.undergo deed).redirect handler := by
  cases deed with
  | request request =>
    cases request with
    | redirect other => cases h
    | _ => rfl
  | run policy program =>
    show (Execution.run policy (t.redirect handler) _).table = _
    rw [Execution.run_redirect]
    rfl

/-- A redirection changes nothing but the handler. -/
theorem redirect_undergo (t : Table) (handler : Handler) {deed : Deed} {other : Handler}
    (h : deed.redirection? = some other) :
    (t.undergo deed).redirect handler = t.redirect handler := by
  cases deed with
  | request request =>
    cases request with
    | redirect _ => rfl
    | _ => cases h
  | run policy program => cases h

end Table

namespace Deed

/-- What a table answers to a deed. -/
def resultOn (deed : Deed) (t : Table) : Except Failure Reply :=
  match deed with
  | .request asked => ((t.answer asked).reply.map .table).mapError .lookup
  | .run policy program =>
    ((Machine.run ⟨t, policy⟩ program).outcome.map .report).mapError .execution

/-- A deed is answered in the same way whatever the handler. -/
theorem resultOn_redirect (deed : Deed) (t : Table) (handler : Handler) :
    deed.resultOn (t.redirect handler) = deed.resultOn t := by
  cases deed with
  | request request => simp only [resultOn, Table.reply_redirect]
  | run policy program =>
    have hrun : Machine.run ⟨t.redirect handler, policy⟩ program =
        (Machine.run ⟨t, policy⟩ program).redirect handler :=
      Execution.run_redirect policy t handler (Cursor.start program)
    simp only [resultOn, hrun, Execution.outcome_redirect]

end Deed

/-! ## Replaying a past -/

namespace Past

/-- The table that comes of a past in which everything is reported to one handler. -/
def replay (p : Past) (handler : Handler) : Table :=
  (p.deeds.filter fun deed => deed.redirection?.isNone).foldl Table.undergo
    (Table.fresh handler).value

/-- **Replaying a past for one handler.**  It makes the same table, but for the handler. -/
theorem replay_eq (p : Past) (handler : Handler) : p.replay handler = p.table.redirect handler := by
  have hfold : ∀ (deeds : List Deed) (t : Table),
      (deeds.filter fun deed => deed.redirection?.isNone).foldl Table.undergo
          (t.redirect handler) =
        (deeds.foldl Table.undergo t).redirect handler := by
    intro deeds
    induction deeds with
    | nil => exact fun t => rfl
    | cons deed rest ih =>
      intro t
      cases hdeed : deed.redirection? with
      | none =>
        rw [List.filter_cons_of_pos (by simp [hdeed]), List.foldl_cons, List.foldl_cons,
          Table.undergo_redirect t handler hdeed, ih]
      | some other =>
        rw [List.filter_cons_of_neg (by simp [hdeed]), List.foldl_cons, ← ih,
          Table.redirect_undergo t handler hdeed]
  exact hfold p.deeds (Table.fresh p.handler).value

end Past

/-! ## Replaying commands -/

/-- Tells whether a command is about a table or the machine that owns it, and not about what a
handler has captured. -/
def Command.concernsTable : Command → Bool
  | createHandler .. | send .. | output .. | clear .. | captured .. | idle => false
  | _ => true

namespace Chronicle

/-- The answer to a command about a table if nothing had ever happened but the past of that
table, and everything were reported to one handler. -/
def replayed? (c : Chronicle) (handler : Handler) : Command → Option (Except Failure Reply)
  | .createTable .. | .copy .. | .redirect .. | .createMachine .. | .release .. => some (.ok .done)
  | .request subject request =>
    (c.past? subject).map fun past => Deed.resultOn (.request request) (past.replay handler)
  | .policy name => (c.machines.get? name).map fun machine => .ok (.policy machine.1)
  | .inspectMachine name =>
    (c.machines.get? name).map fun machine =>
      .ok (.text (Machine.inspect ⟨machine.2.replay handler, machine.1⟩))
  | .run name program =>
    (c.machines.get? name).map fun machine =>
      Deed.resultOn (.run machine.1 program) (machine.2.replay handler)
  | .runSource name source =>
    match Source.assemble source with
    | .ok program =>
      (c.machines.get? name).map fun machine =>
        Deed.resultOn (.run machine.1 program) (machine.2.replay handler)
    | .error cause => some (.error (.assembly cause))
  | _ => none

/-- **One command.**  What a table answers is what it answers after its own past alone. -/
theorem replayed?_carried {c : Chronicle} {s s' : Session} {command : Command} {answer : Answer}
    (h : Keeps c s) (hcarried : s.Carried command s' answer) (handler : Handler)
    (hconcerns : command.concernsTable = true) :
    c.replayed? handler command = some answer.result := by
  -- the answer to a run, shared by the commands that give a program and a source text
  have hrun : ∀ {name : String} {m : Machine} (program : Program),
      s.machines.get? name = some m →
      ((c.machines.get? name).map fun machine =>
        Deed.resultOn (.run machine.1 program) (machine.2.replay handler)) =
          some (s.runProgram name m program).2.result := by
    intro name m program hname
    obtain ⟨past, hmachine, hm⟩ := h.exists_machine hname
    rw [hmachine, Option.map_some, Past.replay_eq, Deed.resultOn_redirect, hm]
    rfl
  cases hcarried with
  | createTable name hgiven => rfl
  | copy target hsubject => rfl
  | request request hsubject hput =>
    obtain ⟨past, hpast, rfl⟩ := h.exists_past hsubject
    rw [replayed?, hpast, Option.map_some, Past.replay_eq, Deed.resultOn_redirect]
    rfl
  | redirect hsubject hname hput => rfl
  | createMachine name hresolved => rfl
  | policy hname =>
    obtain ⟨past, hmachine, -⟩ := h.exists_machine hname
    rw [replayed?, hmachine]
    rfl
  | inspectMachine hname =>
    obtain ⟨past, hmachine, hm⟩ := h.exists_machine hname
    rw [replayed?, hmachine, Option.map_some, Past.replay_eq, hm]
    rfl
  | release target hname => rfl
  | run program hname => exact hrun program hname
  | unassembled hname hsource =>
    simp only [replayed?, hsource]
  | runSource hname hsource =>
    simp only [replayed?, hsource]
    exact hrun _ hname
  | createHandler name kind => cases hconcerns
  | send text hname => cases hconcerns
  | output hname => cases hconcerns
  | clear hname => cases hconcerns
  | captured hsubject => cases hconcerns
  | idle => cases hconcerns

end Chronicle

/-! ## Sessions -/

namespace Session

/-- **Tables are isolated.**  After any sequence of commands from the empty session, every table
has the bindings that its own past makes when it is replayed alone for a handler of any kind.
Each command on the way is answered, and if it is about a table, then with the result that the
table gives after its own past up to there. -/
theorem play_isolated {commands : List Command} {s : Session} {answers : List Answer}
    (hplay : empty.play commands = .ok (s, answers)) (handler : Handler) :
    (∀ subject, (s.find? subject).map Table.bindings =
      ((Chronicle.empty.afterAll commands).past? subject).map fun past =>
        (past.replay handler).bindings) ∧
    ∀ k command, commands[k]? = some command →
      ∃ answer, answers[k]? = some answer ∧
        (command.concernsTable = true →
          (Chronicle.empty.afterAll (commands.take k)).replayed? handler command =
            some answer.result) := by
  constructor
  · intro subject
    rw [(Chronicle.keeps_afterAll Chronicle.Keeps.empty hplay).find?, Option.map_map]
    congr 1
    funext past
    rw [Past.replay_eq]
    rfl
  · intro k command hk
    obtain ⟨s₁, s₂, answer, hanswer, hkeeps, hcarried⟩ :=
      Chronicle.exists_carried_of_play Chronicle.Keeps.empty hplay hk
    exact ⟨answer, hanswer, Chronicle.replayed?_carried hkeeps hcarried handler⟩

/-- A table and its copy share a buffer.  A machine binds the identifier 1 anew in the copy, and
the table that was copied does not see it. -/
theorem play_isolated_copy :
    let commands : List Command := [.createHandler "log" .buffer, .createTable "a" (some "log"),
      .request (.table "a") (.define 1 10), .copy (.table "a") "b",
      .createMachine "m" [.table "b", .policy .abort], .run "m" [0xE0, 1, 20],
      .request (.table "a") (.apply 1)]
    ∃ s answers, empty.play commands = .ok (s, answers) ∧
      (s.find? (.table "a")).map Table.bindings = some (Bindings.empty.insert 1 10) ∧
      (s.find? (.machine "m")).map Table.bindings =
        some ((Bindings.empty.insert 1 10).insert 1 20) ∧
      ∃ answer, answers[6]? = some answer ∧ answer.result = .ok (.table (.value 10)) := by
  intro commands
  refine ⟨_, _, rfl, ?_⟩
  obtain ⟨htables, hanswers⟩ := @play_isolated commands _ _ rfl .silent
  obtain ⟨answer, hanswer, hresult⟩ := hanswers 6 _ rfl
  refine ⟨htables (.table "a"), ?_, answer, hanswer, Option.some.inj (hresult rfl).symm⟩
  rw [htables (.machine "m")]
  -- the program is one instruction
  show some (Machine.run ⟨_, _⟩ (.ofInstructions [.define 1 20])).table.bindings = _
  rw [Machine.run_ofInstructions]
  rfl

end Session

end SymbolicBytecode
