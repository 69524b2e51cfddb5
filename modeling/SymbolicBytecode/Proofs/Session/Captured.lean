/-
# What a buffer captures of a run

A run leaves two accounts of itself: the report, which is filled in step by step, and the notices
of the table, which a buffer captures as text.  The text holds listings of the table as well, so
it has to be read line by line; read in this way it agrees with the report.

* `Buffers.output_deliver`  : what a log adds to the text in a buffer;
* `Effect.Tells`            : the notices that go with an effect;
* `Execution.tells_of_mem`  : every step of a run reports just these;
* `Execution.countP_halted` : a run halts at most once;
* `Machine.run_captured`    : the report and the captured text tell the same.
-/
import SymbolicBytecode.Proofs.Machine.Failure
import SymbolicBytecode.Proofs.Machine.Repetition
import SymbolicBytecode.Proofs.Session.Steps
import SymbolicBytecode.Proofs.Table.Wording

namespace SymbolicBytecode

open Text

/-! ## What a log adds to a buffer -/

/-- The notice that an entry brings to a handler. -/
def Entry.noticeTo? (handler : Handler) : Entry → Option Notice
  | .notice hearer reported => if hearer = handler then some reported else none
  | .record _ => none

namespace Log

/-- The notices that a log brings to a handler. -/
def noticesTo (handler : Handler) (log : Log) : List Notice :=
  log.filterMap (Entry.noticeTo? handler)

theorem noticesTo_append (handler : Handler) (first second : Log) :
    noticesTo handler (first ++ second) = noticesTo handler first ++ noticesTo handler second :=
  List.filterMap_append

@[simp] theorem noticesTo_ofNotices (handler : Handler) (notices : List Notice) :
    noticesTo handler (ofNotices handler notices) = notices := by
  simp [noticesTo, ofNotices, List.filterMap_map, Function.comp_def, Entry.noticeTo?]

@[simp] theorem noticesTo_ofRecords (handler : Handler) (records : List Record) :
    noticesTo handler (ofRecords records) = [] := by
  simp [noticesTo, ofRecords, List.filterMap_map, Function.comp_def, Entry.noticeTo?]

end Log

/-- The log of an execution brings its notices to the handler of the table. -/
theorem Execution.noticesTo_log (e : Execution) (length : Nat) :
    Log.noticesTo e.table.handler (e.log length) = e.notices := by
  have hsteps : ∀ steps : List Step,
      Log.noticesTo e.table.handler (steps.flatMap (stepLog e.table.handler)) =
        steps.flatMap Step.notices := by
    intro steps
    induction steps with
    | nil => rfl
    | cons step rest ih =>
      rw [List.flatMap_cons, List.flatMap_cons, Log.noticesTo_append, ih]
      congr 1
      exact Log.noticesTo_ofNotices _ _
  show Log.noticesTo _ (e.steps.flatMap (stepLog e.table.handler) ++ Log.ofRecords _) = _
  rw [Log.noticesTo_append, Log.noticesTo_ofRecords, List.append_nil, hsteps]
  rfl

/-- **What a log adds.**  The text in a buffer grows by the notices that the log brings to it. -/
theorem Buffers.output_deliver {b : Buffers} {key : Nat} (hkey : key < b.nextKey) (log : Log) :
    (b.deliver log).output (.buffer key) =
      b.output (.buffer key) ++
        String.join ((Log.noticesTo (.buffer key) log).map Notice.line) := by
  induction log generalizing b with
  | nil => simp [Log.noticesTo]
  | cons entry rest ih =>
    have hrest := ih (b := b.capture entry) (by rwa [nextKey_capture])
    show ((b.capture entry).deliver rest).output _ = _
    rw [hrest]
    cases entry with
    | record record => rfl
    | notice handler notice =>
      by_cases hhears : handler = .buffer key
      · subst hhears
        rw [output_capture_self b hkey, String.append_assoc]
        simp [Log.noticesTo, Entry.noticeTo?]
      · rw [output_capture_of_handler_ne b hhears]
        simp [Log.noticesTo, Entry.noticeTo?, hhears]

/-! ## What a step tells -/

/-- The notices that go with an effect; those of a reflection list some table. -/
inductive Effect.Tells : Effect → List Notice → Prop
  | halted : Tells .halted []
  | defined (symbol : Symbol) : Tells (.defined symbol) [.defined symbol]
  | applied (symbol : Symbol) : Tells (.applied symbol) [.applied symbol]
  | undefined (id : UInt8) : Tells (.undefined id) [.undefined id]
  | reflected (symbols : List Symbol) : Tells .reflected [.reflection, .listed symbols]

/-- An instruction reports the notices that go with its effect. -/
theorem Table.tells_perform (t : Table) (i : Instruction) :
    (t.perform i).effect.Tells (t.perform i).notices := by
  cases i with
  | halt => exact .halted
  | define id value => exact .defined ⟨id, value⟩
  | apply id =>
    cases hget : t.bindings.get? id with
    | none =>
      rw [perform_apply_of_unbound hget]
      exact .undefined id
    | some value =>
      rw [perform_apply_of_bound hget]
      exact .applied ⟨id, value⟩
  | reflect => exact .reflected t.bindings.symbols

namespace Execution

/-- Every step of a run reports the notices that go with its effect. -/
theorem tells_of_mem (policy : Policy) (closing : Ending) (t : Table) (items : List Located) :
    ∀ step ∈ (follow policy closing t items).steps, step.effect.Tells step.notices := by
  apply follow_induction (motive := fun _ e => ∀ step ∈ e.steps, step.effect.Tells step.notices)
  · intro t ending step hmem
    cases hmem
  · intro t item e h step hmem
    rcases List.mem_cons.mp hmem with rfl | hmem
    · exact t.tells_perform item.instruction
    · exact h step hmem

/-- A run halts at most once, and exactly if this is how it ends. -/
theorem countP_halted (policy : Policy) (t : Table) (cursor : Cursor) :
    (run policy t cursor).steps.countP (·.effect = .halted) =
      if (run policy t cursor).ending = .halted then 1 else 0 := by
  induction t, cursor using runInduction policy with
  | finished t offset => rw [run_nil]; rfl
  | fault t cursor after cause hnext => rw [run_of_fault policy t hnext]; rfl
  | ended t offset i rest ending hend =>
    rw [run_encode_of_ending hend]
    rcases Table.ending?_perform_eq_some_iff.mp hend with
      ⟨rfl, rfl⟩ | ⟨-, id, rfl, hunbound, rfl⟩
    · rfl
    · simp [precede, Table.step, Table.perform_apply_of_unbound hunbound]
  | step t offset i rest hend ih =>
    have hgoing : (t.perform i).effect ≠ .halted := by
      intro hhalted
      rw [hhalted] at hend
      cases policy <;> cases hend
    rw [run_encode_of_step hend, ending_precede, ← ih]
    exact List.countP_cons_of_neg fun hhalted => hgoing (of_decide_eq_true hhalted)

end Execution

/-! ## The lines of a run -/

/-- A listing has only lines that open as listings do. -/
theorem Notice.filter_lines_listed {opening : Opening} (hheader : opening ≠ .header)
    (hrow : opening ≠ .row) (symbols : List Symbol) :
    (listed symbols).lines.filter (·.opening = opening) = [] := by
  have hlisting : ∀ line ∈ (listed symbols).lines,
      line.opening = .header ∨ line.opening = .row := by
    intro line hmem
    rcases List.mem_cons.mp hmem with rfl | hmem
    · exact Or.inl rfl
    · obtain ⟨s, -, rfl⟩ := List.mem_map.mp hmem
      exact Or.inr rfl
  rw [List.filter_eq_nil_iff]
  intro line hmem hopens
  obtain rfl := of_decide_eq_true hopens
  rcases hlisting line hmem with h | h
  · exact hheader h
  · exact hrow h

/-- The lines of a reflection are its announcement and the listing. -/
theorem Notice.flatMap_lines_reflected (symbols : List Symbol) :
    [reflection, listed symbols].flatMap lines = [.reflection] ++ (listed symbols).lines := by
  rw [List.flatMap_cons, List.flatMap_cons, List.flatMap_nil, List.append_nil]
  rfl

/-- The line of a lookup that succeeds. -/
theorem Line.text_applied (s : Symbol) :
    (applied s).text =
      "[Symbolic] Applied symbol 0x" ++ hexByte s.id ++ " = " ++ decimalByte s.value := by
  have hwords : "[Symbolic] Applied symbol 0x" = "[Symbolic] Applied symbol " ++ "0x" := by decide
  rw [hwords]
  show "[Symbolic] Applied symbol " ++ ("0x" ++ hexByte s.id ++ " = " ++ decimalByte s.value) = _
  simp only [String.append_assoc]

namespace Effect.Tells

variable {effect : Effect} {notices : List Notice}

/-- An effect goes with notices of the table alone. -/
theorem isOfTable (h : effect.Tells notices) : ∀ notice ∈ notices, notice.IsOfTable := by
  rintro notice hmem text rfl
  cases h <;> simp at hmem

/-- A step tells of a lookup that succeeds exactly if that is its effect. -/
theorem filter_applied (h : effect.Tells notices) :
    (notices.flatMap Notice.lines).filter (·.opening = .applied) =
      effect.applied?.toList.map Line.applied := by
  cases h with
  | reflected symbols =>
    rw [Notice.flatMap_lines_reflected, List.filter_append,
      Notice.filter_lines_listed (by decide) (by decide)]
    rfl
  | _ => rfl

/-- A step tells of a lookup that fails exactly if that is its effect. -/
theorem filter_undefined (h : effect.Tells notices) :
    (notices.flatMap Notice.lines).filter (·.opening = .undefined) =
      effect.undefined?.toList.map Line.undefined := by
  cases h with
  | reflected symbols =>
    rw [Notice.flatMap_lines_reflected, List.filter_append,
      Notice.filter_lines_listed (by decide) (by decide)]
    rfl
  | _ => rfl

end Effect.Tells

/-- The number of lines that each stand for one step: those of definitions, of lookups of either
kind and of announcements of a reflection. -/
def Line.stepCount (lines : List Line) : Nat :=
  lines.countP (·.opening = .defined) + lines.countP (·.opening = .applied) +
    lines.countP (·.opening = .undefined) + lines.countP (·.opening = .reflection)

theorem Line.stepCount_append (first second : List Line) :
    stepCount (first ++ second) = stepCount first + stepCount second := by
  simp only [stepCount, List.countP_append]
  omega

/-- In a text these lines are found by their first characters. -/
theorem Line.stepCount_eq (lines : List Line) :
    stepCount lines =
      (lines.map chars).countP (startsWith Opening.defined.text) +
        (lines.map chars).countP (startsWith Opening.applied.text) +
        (lines.map chars).countP (startsWith Opening.undefined.text) +
        (lines.map chars).count Opening.reflection.text.toList := by
  rw [countP_startsWith, countP_startsWith, countP_startsWith, count_reflection, stepCount]

/-- A step has one line that stands for it, unless it halts. -/
theorem Effect.Tells.stepCount {effect : Effect} {notices : List Notice}
    (h : effect.Tells notices) :
    Line.stepCount (notices.flatMap Notice.lines) + (if effect = .halted then 1 else 0) = 1 := by
  cases h with
  | reflected symbols =>
    have hlisted : ∀ opening, opening ≠ .header → opening ≠ .row →
        (Notice.listed symbols).lines.countP (·.opening = opening) = 0 := by
      intro opening hheader hrow
      rw [List.countP_eq_length_filter, Notice.filter_lines_listed hheader hrow]
      rfl
    rw [Notice.flatMap_lines_reflected, Line.stepCount_append, Line.stepCount, Line.stepCount,
      hlisted _ (by decide) (by decide), hlisted _ (by decide) (by decide),
      hlisted _ (by decide) (by decide), hlisted _ (by decide) (by decide)]
    rfl
  | _ => rfl

namespace Execution

/-- The lines of an execution are those of its steps, one step after the other. -/
theorem flatMap_lines_notices (e : Execution) :
    e.notices.flatMap Notice.lines =
      e.steps.flatMap fun step => step.notices.flatMap Notice.lines :=
  List.flatMap_assoc

/-- Lines that every step adds according to its effect are found from all effects, in order. -/
theorem filter_lines {β : Type} {e : Execution}
    (htells : ∀ step ∈ e.steps, step.effect.Tells step.notices) {opening : Opening}
    {found? : Effect → Option β} {line : β → Line}
    (h : ∀ {effect : Effect} {notices : List Notice}, effect.Tells notices →
      (notices.flatMap Notice.lines).filter (·.opening = opening) =
        (found? effect).toList.map line) :
    (e.notices.flatMap Notice.lines).filter (·.opening = opening) =
      (e.steps.filterMap fun step => found? step.effect).map line := by
  rw [flatMap_lines_notices, List.filter_flatMap, List.filterMap_eq_flatMap_toList,
    List.map_flatMap]
  apply List.flatMap_congr
  intro step hmem
  exact h (htells step hmem)

/-- Every step has a line that stands for it, apart from those that halt. -/
theorem stepCount_lines {e : Execution}
    (htells : ∀ step ∈ e.steps, step.effect.Tells step.notices) :
    Line.stepCount (e.notices.flatMap Notice.lines) + e.steps.countP (·.effect = .halted) =
      e.steps.length := by
  rw [flatMap_lines_notices]
  generalize e.steps = steps at htells
  induction steps with
  | nil => rfl
  | cons step rest ih =>
    have hstep := (htells step List.mem_cons_self).stepCount
    have hrest := ih fun step' hmem => htells step' (List.mem_cons_of_mem step hmem)
    rw [List.flatMap_cons, Line.stepCount_append, List.countP_cons, List.length_cons]
    simp only [decide_eq_true_eq]
    omega

end Execution

namespace Machine

/-- **The report and the captured text tell the same.**  When a machine whose table reports to a
buffer runs a program with success, the lines that this adds to the buffer are such that those of
lookups that succeed are the symbols in the report, those of lookups that fail are the identifiers
in the report, both in order, and each step of the report but the one that halts has one line
that stands for it. -/
theorem run_captured {m : Machine} {program : Program} {report : Report} {b : Buffers} {key : Nat}
    (hhandler : m.table.handler = .buffer key) (hkey : key < b.nextKey)
    (houtcome : (m.run program).outcome = .ok report) :
    ∃ text, (b.deliver ((m.run program).log program.length)).output (.buffer key) =
        b.output (.buffer key) ++ text ∧
      let lines := Text.lines text.toList
      lines.filter (startsWith "[Symbolic] Applied symbol ") =
        report.applied.map (fun s =>
          ("[Symbolic] Applied symbol 0x" ++ hexByte s.id ++ " = " ++ decimalByte s.value).toList) ∧
      lines.filter (startsWith "[Symbolic] Undefined symbol ") =
        report.undefined.map (fun id => ("[Symbolic] Undefined symbol 0x" ++ hexByte id).toList) ∧
      lines.countP (startsWith "[Symbolic] Defined symbol ") +
          lines.countP (startsWith "[Symbolic] Applied symbol ") +
          lines.countP (startsWith "[Symbolic] Undefined symbol ") +
          lines.count "[Meta] Reflection triggered.".toList +
          (if report.halted then 1 else 0) = report.steps := by
  have htells : ∀ step ∈ (m.run program).steps, step.effect.Tells step.notices := by
    rw [run_eq_follow]
    exact Execution.tells_of_mem _ _ _ _
  have hreport := Execution.eq_report_of_outcome houtcome
  have hown : ∀ notice ∈ (m.run program).notices, notice.IsOfTable := by
    intro notice hmem
    obtain ⟨step, hstep, hmem⟩ := List.mem_flatMap.mp hmem
    exact (htells step hstep).isOfTable notice hmem
  have hsame : (m.run program).table.handler = .buffer key :=
    (Execution.handler_run _ _ _).trans hhandler
  have hadded := Buffers.output_deliver hkey ((m.run program).log program.length)
  rw [← hsame, Execution.noticesTo_log, hsame] at hadded
  refine ⟨_, hadded, ?_⟩
  intro lines
  have hlines : lines = ((m.run program).notices.flatMap Notice.lines).map Line.chars :=
    Notice.lines_join hown
  rw [hlines]
  refine ⟨?_, ?_, ?_⟩
  · have happlied : report.applied = _ := congrArg Report.applied hreport
    have hfound := Line.filter_startsWith .applied ((m.run program).notices.flatMap Notice.lines)
    rw [Execution.filter_lines htells Effect.Tells.filter_applied, List.map_map] at hfound
    rw [happlied]
    refine hfound.trans (List.map_congr_left fun s _ => ?_)
    exact congrArg String.toList (Line.text_applied s)
  · have hundefined : report.undefined = _ := congrArg Report.undefined hreport
    have hfound := Line.filter_startsWith .undefined ((m.run program).notices.flatMap Notice.lines)
    rw [Execution.filter_lines htells Effect.Tells.filter_undefined, List.map_map] at hfound
    rw [hundefined]
    refine hfound.trans (List.map_congr_left fun id _ => ?_)
    exact congrArg String.toList (Notice.text_undefined id)
  · have hhalted : (if report.halted then 1 else 0) =
        if (m.run program).ending = .halted then 1 else 0 := by
      rcases Execution.outcome_eq_ok_iff.mp houtcome with ⟨hending, rfl⟩ | ⟨hending, rfl⟩
      · rw [hending]
        rfl
      · rw [hending]
        rfl
    have hsteps : report.steps = (m.run program).steps.length := congrArg Report.steps hreport
    have hcount := Execution.stepCount_lines htells
    rw [Machine.run, Execution.countP_halted, ← Machine.run, ← hhalted, ← hsteps,
      Line.stepCount_eq] at hcount
    exact hcount

/-- A reflection lists the symbol that was defined before it and is looked up behind it, in a buffer
that holds other text already. -/
theorem run_captured_with_listing :
    let m : Machine := ⟨(Table.fresh (.buffer 0)).value, .proceed⟩
    let b : Buffers := ⟨["earlier\n"]⟩
    let program : Program := [0xE0, 1, 10, 0xE2, 0xE1, 1, 0xE1, 2, 0x05]
    m.table.handler = .buffer 0 ∧ 0 < b.nextKey ∧
      (m.run program).outcome = .ok ⟨5, true, [⟨1, 10⟩], [2]⟩ ∧
      ∃ text, (b.deliver ((m.run program).log program.length)).output (.buffer 0) =
          "earlier\n" ++ text ∧
        (Text.lines text.toList).filter (startsWith "[Symbolic] Applied symbol ") =
          ["[Symbolic] Applied symbol 0x01 = 10".toList] ∧
        (Text.lines text.toList).filter (startsWith "[Symbolic] Undefined symbol ") =
          ["[Symbolic] Undefined symbol 0x02".toList] := by
  intro m b program
  have hget : ∀ id, m.table.bindings.get? id = none := Table.get?_fresh (.buffer 0)
  have houtcome : (m.run program).outcome = .ok ⟨5, true, [⟨1, 10⟩], [2]⟩ := by
    have hrun : m.run program = Execution.follow .proceed .exhausted m.table
        [⟨0, .define 1 10⟩, ⟨3, .reflect⟩, ⟨4, .apply 1⟩, ⟨6, .apply 2⟩, ⟨8, .halt⟩] :=
      m.run_ofInstructions [.define 1 10, .reflect, .apply 1, .apply 2, .halt]
    rw [hrun]
    simp [Execution.follow, Execution.outcome, Execution.precede, Execution.report, Table.step,
      Table.perform, Table.apply, Table.get?_define, Policy.ending?, Effect.applied?,
      Effect.undefined?, hget]
  have hkey : 0 < b.nextKey := by decide
  obtain ⟨text, hadded, happlied, hundefined, -⟩ := run_captured (m := m) rfl hkey houtcome
  refine ⟨rfl, hkey, houtcome, text, hadded, ?_, ?_⟩
  · rw [happlied]
    decide
  · rw [hundefined]
    decide

end Machine

end SymbolicBytecode
