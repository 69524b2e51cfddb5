/-
# Interpreting source text without assembling it

Source text has a meaning of its own: its lines, taken in order, act on a symbol table.
`interpret` works on the lines alone and knows nothing of bytes; it counts lines where a
run counts bytes.

* `agrees_interpret` : an execution of the layout of the lines' instructions and the
  interpretation of the lines move in step, from any line and any state;
* `agrees_run`       : the same for the run of an assembled program, from the first line;
* `run_assembled`    : assembling and then running agrees with interpreting.
-/
import Mathlib.Algebra.GroupWithZero.Nat
import SymbolicBytecode.Source.Assembly
import SymbolicBytecode.Proofs.Machine.Eager

namespace SymbolicBytecode.Source

/-! ## The interpreter -/

/-- The instruction that a line holds; a line that cannot be read holds none. -/
def held? (line : List Char) : Option Instruction :=
  match readLine line with
  | .ok held => held
  | .error _ => none

/-- A lookup that ends an interpretation. -/
structure Interruption where
  /-- The number of lines before the line with the lookup. -/
  line : Nat
  cause : LookupError
  deriving DecidableEq, Repr

/-- What comes of interpreting lines. -/
structure Interpretation where
  outcome : Except Interruption Report
  table : Table
  notices : List Notice

/-- How far an interpretation has come. -/
structure Progress where
  line : Nat
  table : Table
  notices : List Notice
  report : Report

/-- Nothing is done yet. -/
def Progress.start (t : Table) : Progress :=
  ⟨0, t, [], ⟨0, false, [], []⟩⟩

/-- One more line is done. -/
def Progress.next (s : Progress) (table : Table) (notices : List Notice) (report : Report) :
    Progress :=
  ⟨s.line + 1, table, s.notices ++ notices, report⟩

/-- Interprets lines in order, up to the first halt instruction, the last line or, if the
policy is to abort, the first lookup that fails. -/
def interpret (policy : Policy) : Progress → List (List Char) → Interpretation
  | s, [] => ⟨.ok s.report, s.table, s.notices⟩
  | s, line :: rest =>
    let r := s.report
    match held? line with
    | none => interpret policy (s.next s.table [] r) rest
    | some .halt => ⟨.ok { r with steps := r.steps + 1, halted := true }, s.table, s.notices⟩
    | some (.define id value) =>
      let defined := s.table.define id value
      interpret policy
        (s.next defined.value defined.notices { r with steps := r.steps + 1 }) rest
    | some (.apply id) =>
      let applied := s.table.apply id
      match applied.value, policy with
      | .ok value, _ =>
        interpret policy (s.next s.table applied.notices
          { r with steps := r.steps + 1, applied := r.applied ++ [⟨id, value⟩] }) rest
      | .error _, .proceed =>
        interpret policy (s.next s.table applied.notices
          { r with steps := r.steps + 1, undefined := r.undefined ++ [id] }) rest
      | .error cause, .abort =>
        ⟨.error ⟨s.line, cause⟩, s.table, s.notices ++ applied.notices⟩
    | some .reflect =>
      interpret policy
        (s.next s.table s.table.reflect.notices { r with steps := r.steps + 1 }) rest

/-! ## Bytes and lines -/

/-- The number of bytes that lines assemble to. -/
def byteCount (lines : List (List Char)) : Nat :=
  ((lines.filterMap held?).map Instruction.size).sum

theorem byteCount_concat_of_none {line : List Char} (h : held? line = none)
    (before : List (List Char)) : byteCount (before ++ [line]) = byteCount before := by
  simp [byteCount, h]

theorem byteCount_concat_of_some {line : List Char} {i : Instruction} (h : held? line = some i)
    (before : List (List Char)) : byteCount (before ++ [line]) = byteCount before + i.size := by
  simp [byteCount, h]

/-- The error of a run that stands for a lookup in a line of the given text. -/
def Interruption.error (lines : List (List Char)) (f : Interruption) : ExecError :=
  .undefined (byteCount (lines.take f.line)) f.cause

/-- Lines that can all be read give the instructions that they hold. -/
theorem readLines_eq_ok {number : Nat} {lines : List (List Char)} {is : List Instruction}
    (h : readLines number lines = .ok is) : is = lines.filterMap held? := by
  induction lines generalizing number is with
  | nil => exact (Except.ok.inj h).symm
  | cons line rest ih =>
    rw [readLines] at h
    split at h
    · exact nomatch h
    · rename_i hread
      have hheld : held? line = none := by simp [held?, hread]
      rw [List.filterMap_cons_none hheld]
      exact ih h
    · rename_i i hread
      have hheld : held? line = some i := by simp [held?, hread]
      obtain ⟨tail, hrest, rfl⟩ := map_eq_ok_iff.mp h
      rw [List.filterMap_cons_some hheld, ih hrest]

/-- A program that was assembled consists of the instructions that the lines hold. -/
theorem assemble_eq_ok {source : String} {program : Program} (h : assemble source = .ok program) :
    program = Program.ofInstructions ((Text.lines source.toList).filterMap held?) := by
  obtain ⟨is, hread, rfl⟩ := map_eq_ok_iff.mp h
  rw [readLines_eq_ok hread]

/-! ## One line at a time -/

section

variable {policy : Policy} {s : Progress} {line : List Char} {rest : List (List Char)}

/-- A line without an instruction changes nothing. -/
theorem interpret_blank (h : held? line = none) :
    interpret policy s (line :: rest) = interpret policy (s.next s.table [] s.report) rest := by
  simp only [interpret, h]

theorem interpret_halt (h : held? line = some .halt) :
    interpret policy s (line :: rest) =
      ⟨.ok { s.report with steps := s.report.steps + 1, halted := true }, s.table, s.notices⟩ := by
  simp only [interpret, h]

theorem interpret_aborted {id : UInt8} (h : held? line = some (.apply id))
    (hunbound : s.table.bindings.get? id = none) :
    interpret .abort s (line :: rest) =
      ⟨.error ⟨s.line, .notDefined id⟩, s.table, s.notices ++ [.undefined id]⟩ := by
  simp only [interpret, h, Table.apply_of_unbound hunbound]

/-- Any other instruction on a line is a step that an execution takes as well, wherever the
instruction stands there. -/
theorem interpret_of_step {offset : Nat} {i : Instruction} (h : held? line = some i)
    (hgoing : s.report.halted = false)
    (hend : policy.ending? offset (s.table.perform i).effect = none) :
    interpret policy s (line :: rest) =
      interpret policy (s.next (s.table.perform i).table (s.table.perform i).notices
        (s.report.followedBy (s.table.step ⟨offset, i⟩).report)) rest := by
  rw [Report.followedBy_report hgoing, Table.step]
  -- the instructions that end an execution are excluded by `hend`
  cases i with
  | halt => cases hend
  | define id value =>
    simp only [interpret, h, Table.perform, Effect.applied?, Effect.undefined?,
      Option.toList_none, List.append_nil]
  | apply id =>
    cases hget : s.table.bindings.get? id with
    | some value =>
      simp only [interpret, h, Table.apply_of_bound hget, Table.perform_apply_of_bound hget,
        Effect.applied?, Effect.undefined?, Option.toList_some, Option.toList_none,
        List.append_nil]
    | none =>
      rw [Table.perform_apply_of_unbound hget] at hend
      cases policy with
      | proceed =>
        simp only [interpret, h, Table.apply_of_unbound hget, Table.perform_apply_of_unbound hget,
          Effect.applied?, Effect.undefined?, Option.toList_some, Option.toList_none,
          List.append_nil]
      | abort => cases hend
  | reflect =>
    simp only [interpret, h, Table.perform, Effect.applied?, Effect.undefined?,
      Option.toList_none, List.append_nil]

end

/-! ## Interpreting and executing in step -/

/-- What is left of an execution, after the given progress, agrees with what comes of the
interpretation. -/
structure Agrees (lines : List (List Char)) (s : Progress) (e : Execution)
    (d : Interpretation) : Prop where
  table : e.table = d.table
  /-- The notices so far and those of the execution are all notices. -/
  notices : s.notices ++ e.notices = d.notices
  /-- The report so far is continued, or the same lookup fails. -/
  outcome : e.outcome.map s.report.followedBy = d.outcome.mapError (Interruption.error lines)

/-- A step that both sides take keeps them in agreement. -/
theorem Agrees.precede {lines : List (List Char)} {s : Progress} {e : Execution}
    {d : Interpretation} {step : Step} {table : Table} {report : Report}
    (h : Agrees lines (s.next table step.notices report) e d)
    (hreport : report = s.report.followedBy step.report) : Agrees lines s (e.precede step) d where
  table := h.table
  notices := by
    rw [Execution.notices_precede, ← List.append_assoc]
    exact h.notices
  outcome := by
    have houtcome := h.outcome
    rw [Execution.outcome_precede, ← houtcome]
    subst hreport
    cases e.outcome with
    | error cause => rfl
    | ok r => exact congrArg Except.ok (Report.followedBy_assoc s.report step.report r).symm

/-- **Simulation.**  Wherever an interpretation stands, the execution of the instructions on
the lines that are left, laid out behind the bytes of the lines that are done, agrees with it. -/
theorem agrees_interpret (policy : Policy) (before rest : List (List Char)) (s : Progress)
    (hline : s.line = before.length) (hgoing : s.report.halted = false) :
    Agrees (before ++ rest) s
      (Execution.follow policy .exhausted s.table
        (Located.layout (byteCount before) (rest.filterMap held?)))
      (interpret policy s rest) := by
  induction rest generalizing before s with
  | nil =>
    refine ⟨rfl, List.append_nil _, ?_⟩
    show Except.ok (s.report.followedBy ⟨0, false, [], []⟩) = Except.ok s.report
    simp [Report.followedBy, ← hgoing]
  | cons line rest ih =>
    -- the lines done are `before` now and `before ++ [line]` when this line is done
    have hdone : before ++ line :: rest = (before ++ [line]) ++ rest := by simp
    have hcount : s.line + 1 = (before ++ [line]).length := by simp [hline]
    rw [hdone]
    cases hheld : held? line with
    | none =>
      rw [List.filterMap_cons_none hheld, interpret_blank hheld]
      have hagree := ih (before ++ [line]) (s.next s.table [] s.report) hcount hgoing
      rw [byteCount_concat_of_none hheld] at hagree
      have hnil : (s.next s.table [] s.report).notices = s.notices := List.append_nil _
      refine ⟨hagree.table, ?_, hagree.outcome⟩
      rw [← hnil]
      exact hagree.notices
    | some i =>
      rw [List.filterMap_cons_some hheld, Located.layout_cons,
        ← byteCount_concat_of_some hheld before]
      cases hend : policy.ending? (byteCount before) (s.table.perform i).effect with
      | none =>
        rw [Execution.follow_of_step hend, interpret_of_step hheld hgoing hend]
        exact Agrees.precede (ih _ _ hcount rfl) rfl
      | some ending =>
        rw [Execution.follow_of_ending hend]
        rcases Table.ending?_perform_eq_some_iff.mp hend with
          ⟨rfl, rfl⟩ | ⟨rfl, id, rfl, hunbound, rfl⟩
        · rw [interpret_halt hheld]
          refine ⟨rfl, List.append_nil _, ?_⟩
          show Except.ok (s.report.followedBy ⟨1, true, [], []⟩) = Except.ok _
          simp [Report.followedBy]
        · rw [Table.step, Table.perform_apply_of_unbound hunbound,
            interpret_aborted hheld hunbound]
          refine ⟨rfl, rfl, ?_⟩
          -- the lines before the one that fails are those that are done
          have htake : (before ++ [line] ++ rest).take s.line = before := by
            rw [hline, List.append_assoc, List.take_left]
          show Except.error (ExecError.undefined (byteCount before) (.notDefined id)) =
            Except.error (ExecError.undefined (byteCount _) (.notDefined id))
          rw [htake]

/-- Before the first line there is no report to continue. -/
theorem Agrees.outcome_start {lines : List (List Char)} {t : Table} {e : Execution}
    {d : Interpretation} (h : Agrees lines (.start t) e d) :
    e.outcome = d.outcome.mapError (Interruption.error lines) := by
  rw [← h.outcome]
  cases e.outcome with
  | error cause => rfl
  | ok r => simp [Except.map, Report.followedBy, Progress.start]

/-- The run of an assembled program agrees with the interpretation of all lines. -/
theorem agrees_run {source : String} {program : Program} (h : assemble source = .ok program)
    (m : Machine) :
    Agrees (Text.lines source.toList) (.start m.table) (m.run program)
      (interpret m.policy (.start m.table) (Text.lines source.toList)) := by
  rw [assemble_eq_ok h, Machine.run_ofInstructions]
  exact agrees_interpret m.policy [] _ (.start m.table) rfl rfl

/-- Only a failed lookup under the policy to abort interrupts an interpretation, and the
interruption names the line of the lookup. -/
theorem interpret_interrupted {policy : Policy} {lines : List (List Char)} {s : Progress}
    {f : Interruption} (hgoing : s.report.halted = false)
    (h : (interpret policy s lines).outcome = .error f) :
    policy = .abort ∧ ∃ before line after, lines = before ++ line :: after ∧
      held? line = some (.apply f.cause.id) ∧ f.line = s.line + before.length := by
  induction lines generalizing s with
  | nil => exact nomatch h
  | cons line rest ih =>
    -- an interruption further down is moved behind this line
    have hlater : ∀ {table notices report}, report.halted = false →
        (interpret policy (s.next table notices report) rest).outcome = .error f →
        policy = .abort ∧ ∃ before line' after, line :: rest = before ++ line' :: after ∧
          held? line' = some (.apply f.cause.id) ∧ f.line = s.line + before.length := by
      intro table notices report hreport hrest
      obtain ⟨hpolicy, before, line', after, rfl, hheld, hf⟩ := ih hreport hrest
      refine ⟨hpolicy, line :: before, line', after, rfl, hheld, ?_⟩
      rw [hf]
      show s.line + 1 + before.length = s.line + (before.length + 1)
      omega
    cases hheld : held? line with
    | none => exact hlater hgoing (interpret_blank hheld ▸ h)
    | some i =>
      cases hend : policy.ending? 0 (s.table.perform i).effect with
      | none => exact hlater rfl (interpret_of_step hheld hgoing hend ▸ h)
      | some ending =>
        rcases Table.ending?_perform_eq_some_iff.mp hend with
          ⟨rfl, -⟩ | ⟨rfl, id, rfl, hunbound, -⟩
        · rw [interpret_halt hheld] at h
          exact nomatch h
        · rw [interpret_aborted hheld hunbound] at h
          obtain rfl := Except.error.inj h
          exact ⟨rfl, [], line, rest, rfl, hheld, rfl⟩

/-- **Assembling and running agrees with interpreting.**  The run of an assembled program has
the result, the final table and the notices of the interpretation of its source, on every
machine.  It never meets a malformed instruction, it always succeeds if failed lookups are
passed over, and if one ends it then its offset is the number of bytes of the instructions on
the lines before the line of the lookup. -/
theorem run_assembled {source : String} {program : Program} (h : assemble source = .ok program)
    (m : Machine) :
    let lines := Text.lines source.toList
    let direct := interpret m.policy (.start m.table) lines
    let e := m.run program
    e.outcome = direct.outcome.mapError (Interruption.error lines) ∧
      e.table = direct.table ∧
      e.notices = direct.notices ∧
      (∀ cause, e.outcome ≠ .error (.malformed cause)) ∧
      (m.policy = .proceed → ∃ report, e.outcome = .ok report) ∧
      ∀ offset cause, e.outcome = .error (.undefined offset cause) →
        m.policy = .abort ∧ ∃ before line after, lines = before ++ line :: after ∧
          held? line = some (.apply cause.id) ∧ direct.outcome = .error ⟨before.length, cause⟩ ∧
          offset = ((before.filterMap held?).map Instruction.size).sum := by
  intro lines direct e
  have hagree : Agrees lines (.start m.table) e direct := agrees_run h m
  have houtcome := hagree.outcome_start
  refine ⟨houtcome, hagree.table, hagree.notices, ?_, ?_, ?_⟩
  · intro cause hcause
    rw [houtcome] at hcause
    cases hdirect : direct.outcome <;> rw [hdirect] at hcause <;> exact nomatch hcause
  · intro hpolicy
    cases hdirect : direct.outcome with
    | ok report => exact ⟨report, by rw [houtcome, hdirect]; rfl⟩
    | error f =>
      have hinterrupted := (interpret_interrupted rfl hdirect).1
      rw [hpolicy] at hinterrupted
      exact nomatch hinterrupted
  · intro offset cause hcause
    cases hdirect : direct.outcome with
    | ok report =>
      rw [houtcome, hdirect] at hcause
      exact nomatch hcause
    | error f =>
      obtain ⟨hpolicy, before, line, after, hlines, hheld, hline⟩ :=
        interpret_interrupted rfl hdirect
      have hbefore : f.line = before.length := by
        rw [hline, Progress.start, Nat.zero_add]
      rw [houtcome, hdirect] at hcause
      obtain ⟨rfl, rfl⟩ := ExecError.undefined.inj (Except.error.inj hcause)
      refine ⟨hpolicy, before, line, after, hlines, hheld, ?_, ?_⟩
      · rw [← hbefore]
      · rw [hbefore, hlines, List.take_left]
        rfl

/-- A comment and an empty line take no bytes, so the lookup in the fourth line fails at the
offset of the second instruction. -/
theorem run_assembled_aborting :
    let source := "# start\nsymbol_define 1, 0x0A\n\nSYMBOL_APPLY 2"
    let program : Program := [0xE0, 1, 10, 0xE1, 2]
    let m : Machine := ⟨(Table.fresh .silent).value, .abort⟩
    assemble source = .ok program ∧
      (m.run program).outcome = .error (.undefined 3 (.notDefined 2)) ∧
      ∃ before line after, Text.lines source.toList = before ++ line :: after ∧
        held? line = some (.apply 2) ∧
        3 = ((before.filterMap held?).map Instruction.size).sum := by
  have h : assemble "# start\nsymbol_define 1, 0x0A\n\nSYMBOL_APPLY 2" =
      .ok [0xE0, 1, 10, 0xE1, 2] := by rfl
  intro source program m
  have hrun : m.run program = Execution.follow .abort .exhausted m.table
      [⟨0, .define 1 10⟩, ⟨3, .apply 2⟩] := m.run_ofInstructions [.define 1 10, .apply 2]
  have hunbound : (m.table.perform (.define 1 10)).table.bindings.get? 2 = none := by
    show (m.table.define 1 10).value.bindings.get? 2 = none
    rw [Table.get?_define, if_neg (by decide)]
    exact Table.get?_fresh .silent 2
  have houtcome : (m.run program).outcome = .error (.undefined 3 (.notDefined 2)) := by
    rw [hrun, Execution.follow_of_step rfl, Execution.outcome_precede,
      Execution.follow_of_ending (Table.ending?_perform_eq_some_iff.mpr
        (Or.inr ⟨rfl, 2, rfl, hunbound, rfl⟩))]
    rfl
  obtain ⟨-, before, line, after, hlines, hheld, -, hoffset⟩ :=
    (run_assembled h m).2.2.2.2.2 3 (.notDefined 2) houtcome
  exact ⟨h, houtcome, before, line, after, hlines, hheld, hoffset⟩

end SymbolicBytecode.Source
