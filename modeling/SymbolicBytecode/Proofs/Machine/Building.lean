/-
# What a machine is built from

Of the settings of each kind only the last one counts, wherever it stands among the others:

* `Machine.config_eq`         : the configuration that settings come to;
* `Machine.build_given_table` : a table that is given keeps its bindings and says nothing;
* `Machine.build_fresh_table` : without one, a new table is reset and says so;
* `Machine.build_last_settings` : the machine that is built, and what is reported to whom.
-/
import Mathlib.Data.List.Induction
import SymbolicBytecode.Session.Command

namespace SymbolicBytecode

/-- What the last of several items of a kind gives. -/
def lastOf? {σ α : Type} (kind? : σ → Option α) (items : List σ) : Option α :=
  (items.filterMap kind?).getLast?

/-- An item at the end comes before all others if it is of the kind. -/
theorem lastOf?_concat {σ α : Type} (kind? : σ → Option α) (items : List σ) (item : σ) :
    lastOf? kind? (items ++ [item]) = (kind? item).or (lastOf? kind? items) := by
  unfold lastOf?
  cases hkind : kind? item <;> simp [List.filterMap_append, hkind]

namespace Machine

namespace Setting

/-- The table that a setting gives. -/
def table? : Setting → Option Table
  | table t => some t
  | _ => none

/-- The handler that a setting gives. -/
def handler? : Setting → Option Handler
  | handler h => some h
  | _ => none

/-- The policy that a setting gives. -/
def policy? : Setting → Option Policy
  | policy p => some p
  | _ => none

end Setting

/-- The configuration that settings come to holds the last of each kind. -/
theorem config_eq (settings : List Setting) :
    settings.foldl Config.set {} =
      { table := lastOf? Setting.table? settings
        handler := lastOf? Setting.handler? settings
        policy := (lastOf? Setting.policy? settings).getD .proceed } := by
  induction settings using List.reverseRecOn with
  | nil => rfl
  | append_singleton settings setting ih =>
    rw [List.foldl_append, List.foldl_cons, List.foldl_nil, ih]
    simp only [lastOf?_concat]
    cases setting <;> rfl

/-- The policy is the last one that is given, or to proceed. -/
theorem policy_build (settings : List Setting) :
    (build settings).value.policy = (lastOf? Setting.policy? settings).getD .proceed := by
  simp only [build, config_eq]

/-- The last table that is given is taken as it is, but for a handler that is given as well. -/
theorem build_given_table {settings : List Setting} {t : Table}
    (h : lastOf? Setting.table? settings = some t) :
    (build settings).value.table =
        (lastOf? Setting.handler? settings).elim t t.redirect ∧
      (build settings).notices = [] := by
  simp only [build, config_eq, Config.build, h]
  cases lastOf? Setting.handler? settings <;> exact ⟨rfl, rfl⟩

/-- If no table is given there is a new one, which reports to the handler that is given or else
to the trace. -/
theorem build_fresh_table {settings : List Setting}
    (h : lastOf? Setting.table? settings = none) :
    let created := Table.fresh ((lastOf? Setting.handler? settings).getD .tracing)
    (build settings).value.table = created.value ∧ (build settings).notices = created.notices := by
  simp only [build, config_eq, Config.build, h]
  cases lastOf? Setting.handler? settings <;> exact ⟨rfl, rfl⟩

/-- What is reported when a machine is built: its table says it, so it goes to the handler of that
table. -/
def buildLog (settings : List Setting) : Log :=
  Log.ofNotices (build settings).value.table.handler (build settings).notices

/-- **Only the last setting of each kind counts**, in whatever order and however often settings are
made.  The policy is the last one that is given, or to proceed.  If a table is given, the last one
keeps its bindings; it reports to the last handler that is given, before or after the table, or
else to its own; and nothing is reported.  If no table is given, the table is empty and reports to
the last handler, or else to the trace; and one notice is reported, to that handler, that the table
was reset.  All this is what a session does that creates a machine from such settings. -/
theorem build_last_settings (settings : List Setting) :
    let machine := (build settings).value
    let chosen := lastOf? Setting.handler? settings
    machine.policy = (lastOf? Setting.policy? settings).getD .proceed ∧
    (∀ t, lastOf? Setting.table? settings = some t →
      machine.table = ⟨t.bindings, chosen.getD t.handler⟩ ∧ buildLog settings = []) ∧
    (lastOf? Setting.table? settings = none →
      machine.table = ⟨.empty, chosen.getD .tracing⟩ ∧
        buildLog settings = [.notice (chosen.getD .tracing) .reset]) ∧
    ∀ (s s' : Session) (name : String) (named : List NamedSetting),
      s.resolveAll named = .ok (s', settings) →
      s.perform (.createMachine name named) =
        .ok (s'.putMachine name machine, ⟨.ok .done, buildLog settings⟩) := by
  intro machine chosen
  refine ⟨policy_build settings, fun t ht => ?_, fun ht => ?_, fun s s' name named h => ?_⟩
  · obtain ⟨htable, hnotices⟩ := build_given_table ht
    refine ⟨htable.trans ?_, ?_⟩
    · show chosen.elim t t.redirect = _
      cases chosen <;> rfl
    · rw [buildLog, hnotices]
      rfl
  · obtain ⟨htable, hnotices⟩ := build_fresh_table ht
    refine ⟨htable, ?_⟩
    rw [buildLog, htable, hnotices]
    rfl
  · rw [Session.perform, h]
    rfl

/-- The handler is given before both tables and still replaces the handler of the second; without a
table the second of two handlers hears of the reset. -/
theorem build_last_settings_handler_first :
    let given : Table := ⟨Bindings.empty.insert 2 20, .silent⟩
    let settings : List Setting := [.handler (.buffer 0), .policy .abort,
      .table ⟨Bindings.empty.insert 1 10, .stdout⟩, .table given, .policy .proceed]
    let fresh : List Setting := [.handler .silent, .policy .abort, .handler (.buffer 0)]
    lastOf? Setting.table? settings = some given ∧
      (build settings).value.table = ⟨Bindings.empty.insert 2 20, .buffer 0⟩ ∧
      (build settings).value.policy = .proceed ∧ buildLog settings = [] ∧
      lastOf? Setting.table? fresh = none ∧
      (build fresh).value.table = ⟨.empty, .buffer 0⟩ ∧
      (build fresh).value.policy = .abort ∧ buildLog fresh = [.notice (.buffer 0) .reset] ∧
      Session.empty.perform (.createMachine "m" []) =
        .ok (Session.empty.putMachine "m" ⟨⟨.empty, .tracing⟩, .proceed⟩,
          ⟨.ok .done, [.notice .tracing .reset]⟩) := by
  intro given settings fresh
  obtain ⟨hpolicy, hgiven, -, -⟩ := build_last_settings settings
  obtain ⟨hpolicy', -, hfresh, -⟩ := build_last_settings fresh
  obtain ⟨-, -, -, hsession⟩ := build_last_settings []
  obtain ⟨htable, hlog⟩ := hgiven given rfl
  obtain ⟨htable', hlog'⟩ := hfresh rfl
  exact ⟨rfl, htable, hpolicy, hlog, rfl, htable', hpolicy', hlog',
    hsession .empty .empty "m" [] rfl⟩

end Machine

end SymbolicBytecode
