/-
# What the trace of a run tells

A run that is traced leaves a record when it begins, one for every instruction before it takes
effect, one for the way it ended unless the program could not be read on, and one when it is over.
The instructions in it are given as source text, so the trace can be assembled; what comes out is
the stretch of the program that was executed, byte for byte.

* `Table.traceOf`          : the records of instructions that are executed one after the other;
* `Execution.records_log`  : the records of a run, in order;
* `Execution.Reads`        : how far a run has read, and what it left unread;
* `Execution.exists_reads` : every run has read the instructions that it executed;
* `Machine.run_traced`     : the trace as an account of the run.
-/
import SymbolicBytecode.Proofs.Code.Encoding
import SymbolicBytecode.Proofs.Code.Faults
import SymbolicBytecode.Proofs.Machine.Repetition
import SymbolicBytecode.Proofs.Source.Disassembly

namespace SymbolicBytecode

/-! ## Reading a trace -/

namespace Shape

/-- The value that an event gives for a field. -/
def field? : Shape → String → Option Field
  | event _ _ fields, name => fields.lookup name
  | _, _ => none

/-- The offset and the text of the instruction in an event that says that a step was taken. -/
def step? (shape : Shape) : Option (Nat × String) :=
  match shape.field? "message", shape.field? "offset", shape.field? "instruction" with
  | some (.text "step"), some (.number offset), some (.text text) => some (offset, text)
  | _, _, _ => none

end Shape

namespace Record

/-- The steps that a trace shows, each with its offset and the text of its instruction. -/
def shownSteps (trace : List Record) : List (Nat × String) :=
  (trace.map shape).filterMap Shape.step?

/-- The instructions of steps as source text, each on a line of its own. -/
def source (steps : List (Nat × String)) : String :=
  String.join (steps.map fun step => step.2 ++ "\n")

/-- A notice is not taken for a step, whatever it says: it has no offset. -/
theorem step?_shape_noticed (notice : Notice) : (noticed notice).shape.step? = none := by
  have hoffset : (noticed notice).shape.field? "offset" = none := rfl
  rw [Shape.step?, hoffset]
  split <;> simp_all

theorem shownSteps_append (first second : List Record) :
    shownSteps (first ++ second) = shownSteps first ++ shownSteps second := by
  rw [shownSteps, List.map_append, List.filterMap_append, ← shownSteps, ← shownSteps]

theorem shownSteps_map_noticed (notices : List Notice) : shownSteps (notices.map noticed) = [] := by
  simp [shownSteps, List.filterMap_map, step?_shape_noticed]

end Record

/-! ## The records of a run -/

namespace Table

/-- The records of instructions that are executed one after the other: each is announced before
it takes effect, and followed by its notices if the table reports to the trace. -/
def traceOf (t : Table) : List Located → List Record
  | [] => []
  | item :: rest =>
    .stepped item.offset item.instruction ::
      ((if t.handler = .tracing then (t.perform item.instruction).notices.map .noticed else []) ++
        (t.perform item.instruction).table.traceOf rest)

/-- The trace shows the instructions that were executed, in order. -/
theorem shownSteps_traceOf (t : Table) (items : List Located) :
    Record.shownSteps (t.traceOf items) =
      items.map fun item => (item.offset, item.instruction.text) := by
  induction items generalizing t with
  | nil => rfl
  | cons item rest ih =>
    have hnotices : Record.shownSteps (if t.handler = .tracing then
        (t.perform item.instruction).notices.map .noticed else []) = [] := by
      split
      · exact Record.shownSteps_map_noticed _
      · rfl
    show (item.offset, item.instruction.text) :: Record.shownSteps (_ ++ _) = _
    rw [Record.shownSteps_append, hnotices, List.nil_append, ih, List.map_cons]

/-- Apart from steps and notices nothing is recorded on the way. -/
theorem eq_of_mem_traceOf {t : Table} {items : List Located} {record : Record}
    (h : record ∈ t.traceOf items) :
    (∃ offset i, record = .stepped offset i) ∨ ∃ notice, record = .noticed notice := by
  induction items generalizing t with
  | nil => cases h
  | cons item rest ih =>
    rcases List.mem_cons.mp h with rfl | htail
    · exact Or.inl ⟨_, _, rfl⟩
    · rcases List.mem_append.mp htail with hnotice | hrest
      · split at hnotice
        · obtain ⟨notice, -, rfl⟩ := List.mem_map.mp hnotice
          exact Or.inr ⟨notice, rfl⟩
        · cases hnotice
      · exact ih hrest

end Table

/-- Notices are recorded if they go to the trace. -/
theorem Log.records_ofNotices (handler : Handler) (notices : List Notice) :
    records (ofNotices handler notices) =
      if handler = .tracing then notices.map .noticed else [] := by
  rw [records, ofNotices, List.filterMap_map]
  by_cases htracing : handler = .tracing
  · subst htracing
    rw [if_pos rfl]
    exact congrFun (List.filterMap_eq_map (f := Record.noticed)) notices
  · have hnone : recordOf? ∘ Entry.notice handler = fun _ => none := by
      funext notice
      cases handler with
      | tracing => exact absurd rfl htracing
      | _ => rfl
    rw [if_neg htracing, hnone]
    exact List.filterMap_eq_nil_iff.mpr fun _ _ => rfl

/-- The record of the way a run ended, given what the run is answered with. -/
def closingRecord? : Except ExecError Report → Option Record
  | .ok report => some (.runFinished report.steps report.halted)
  | .error (.undefined offset cause) => some (.aborting offset cause.id)
  | .error (.malformed _) => none

namespace Execution

/-- The instructions that were executed, with their offsets. -/
def items (e : Execution) : List Located :=
  e.steps.map Step.item

theorem map_instruction_items (e : Execution) :
    e.items.map Located.instruction = e.instructions := by
  rw [items, List.map_map]
  rfl

theorem endingRecords_eq (e : Execution) : e.endingRecords = (closingRecord? e.outcome).toList := by
  unfold endingRecords outcome
  cases e.ending <;> rfl

/-- The steps of a run are recorded as those of its instructions. -/
theorem records_steps (policy : Policy) (closing : Ending) (t : Table) (located : List Located) :
    Log.records ((follow policy closing t located).steps.flatMap (stepLog t.handler)) =
      t.traceOf (follow policy closing t located).items := by
  apply follow_induction (motive := fun t e =>
    Log.records (e.steps.flatMap (stepLog t.handler)) = t.traceOf e.items)
  · intro t ending
    rfl
  · intro t item e h
    rw [Table.handler_perform] at h
    show Log.records (stepLog t.handler (t.step item) ++ e.steps.flatMap (stepLog t.handler)) = _
    rw [Log.records_append, h]
    show _ :: Log.records (Log.ofNotices _ _) ++ _ = _
    rw [Log.records_ofNotices]
    rfl

/-- **The records of a run**, in order. -/
theorem records_log (m : Machine) (program : Program) (length : Nat) :
    Log.records ((m.run program).log length) =
      .runOpened length :: (m.table.traceOf (m.run program).items ++
        ((closingRecord? (m.run program).outcome).toList ++ [.runClosed])) := by
  have hhandler : (m.run program).table.handler = m.table.handler := handler_run _ _ _
  have hsteps := records_steps m.policy (Cursor.start program).closing m.table
    (Cursor.start program).yielded
  rw [← m.run_eq_follow] at hsteps
  show _ :: Log.records (_ ++ _) = _
  rw [hhandler, Log.records_append, hsteps, Log.records_ofRecords, endingRecords_eq]

end Execution

/-! ## How far a run reads -/

/-- The last instruction of a layout ends where the layout ends. -/
theorem Located.end_of_getLast?_layout {offset : Nat} {is : List Instruction} {item : Located}
    (h : (layout offset is).getLast? = some item) :
    offset + Instruction.totalSize is = item.offset + item.instruction.size := by
  induction is generalizing offset with
  | nil => cases h
  | cons i rest ih =>
    rw [Instruction.totalSize_cons, ← Nat.add_assoc]
    cases rest with
    | nil =>
      obtain rfl := Option.some.inj h
      rfl
    | cons j rest =>
      apply ih
      rw [layout_cons, layout_cons, List.getLast?_cons_cons] at h
      exact h

namespace Execution

/-- From the cursor on, the execution has read exactly the instructions that it executed.  What is
left unread depends on the way it ended. -/
structure Reads (e : Execution) (cursor : Cursor) (unread : List UInt8) : Prop where
  items : e.items = Located.layout cursor.offset e.instructions
  bytes : cursor.rest = Program.ofInstructions e.instructions ++ unread
  exhausted : e.ending = .exhausted → unread = []
  halted : e.ending = .halted → e.instructions.getLast? = some .halt
  /-- A lookup takes two bytes. -/
  aborted : ∀ offset cause, e.ending = .aborted offset cause →
    cursor.offset + Instruction.totalSize e.instructions = offset + 2
  malformed : ∀ cause, e.ending = .malformed cause →
    cursor.offset + Instruction.totalSize e.instructions = cause.offset

/-- An instruction in front that does not end the execution has been read as well. -/
theorem Reads.precede {e : Execution} {offset : Nat} {i : Instruction} {rest unread : List UInt8}
    (h : e.Reads ⟨offset + i.size, rest⟩ unread) (t : Table) :
    (e.precede (t.step ⟨offset, i⟩)).Reads ⟨offset, i.encode ++ rest⟩ unread where
  items := by
    show ⟨offset, i⟩ :: e.items = ⟨offset, i⟩ :: Located.layout (offset + i.size) e.instructions
    rw [h.items]
  bytes := by
    have hbytes : rest = Program.ofInstructions e.instructions ++ unread := h.bytes
    rw [instructions_precede, hbytes, ← List.append_assoc]
    rfl
  exhausted := h.exhausted
  halted hending := by
    rw [instructions_precede, List.getLast?_cons, h.halted hending]
    rfl
  aborted offset' cause hending := by
    rw [instructions_precede, Instruction.totalSize_cons, ← Nat.add_assoc]
    exact h.aborted offset' cause hending
  malformed cause hending := by
    rw [instructions_precede, Instruction.totalSize_cons, ← Nat.add_assoc]
    exact h.malformed cause hending

/-- **Every run has read the instructions that it executed**, and no more. -/
theorem exists_reads (policy : Policy) (t : Table) (cursor : Cursor) :
    ∃ unread, (run policy t cursor).Reads cursor unread := by
  induction t, cursor using runInduction policy with
  | finished t offset =>
    refine ⟨[], ?_⟩
    rw [run_nil]
    exact ⟨rfl, rfl, fun _ => rfl, by simp, by simp, by simp⟩
  | fault t cursor after cause hnext =>
    refine ⟨cursor.rest, ?_⟩
    rw [run_of_fault policy t hnext]
    refine ⟨rfl, rfl, by simp, by simp, by simp, ?_⟩
    intro cause' hcause
    obtain rfl := Ending.malformed.inj hcause
    exact (Cursor.offset_of_fault hnext).1.symm
  | ended t offset i rest ending hend =>
    refine ⟨rest, ?_⟩
    rw [run_encode_of_ending hend]
    rcases Table.ending?_perform_eq_some_iff.mp hend with
      ⟨rfl, rfl⟩ | ⟨-, id, rfl, -, rfl⟩
    · exact ⟨rfl, rfl, by simp, fun _ => rfl, by simp, by simp⟩
    · refine ⟨rfl, rfl, by simp, by simp, ?_, by simp⟩
      intro offset' cause hcause
      obtain ⟨rfl, -⟩ := Ending.aborted.inj hcause
      rfl
  | step t offset i rest hend ih =>
    obtain ⟨unread, hreads⟩ := ih
    refine ⟨unread, ?_⟩
    rw [run_encode_of_step hend]
    exact hreads.precede t

end Execution

/-! ## The trace as an account -/

theorem closingRecord?_eq_finished_iff {outcome : Except ExecError Report} {n : Nat}
    {halted : Bool} :
    closingRecord? outcome = some (.runFinished n halted) ↔
      ∃ report, outcome = .ok report ∧ report.steps = n ∧ report.halted = halted := by
  match outcome with
  | .ok report => simp [closingRecord?]
  | .error (.undefined offset cause) => simp [closingRecord?]
  | .error (.malformed cause) => simp [closingRecord?]

theorem closingRecord?_eq_aborting_iff {outcome : Except ExecError Report} {offset : Nat}
    {id : UInt8} :
    closingRecord? outcome = some (.aborting offset id) ↔
      outcome = .error (.undefined offset (.notDefined id)) := by
  match outcome with
  | .ok report => simp [closingRecord?]
  | .error (.undefined offset (.notDefined id)) => simp [closingRecord?, LookupError.id]
  | .error (.malformed cause) => simp [closingRecord?]

namespace Machine

/-- A record of the way the run ended is the closing record. -/
theorem mem_records_log_iff {m : Machine} {program : Program} {length : Nat} {record : Record}
    (hopened : record ≠ .runOpened length) (hclosed : record ≠ .runClosed)
    (hstep : ∀ offset i, record ≠ .stepped offset i)
    (hnotice : ∀ notice, record ≠ .noticed notice) :
    record ∈ Log.records ((m.run program).log length) ↔
      closingRecord? (m.run program).outcome = some record := by
  have hway : record ∉ m.table.traceOf (m.run program).items := by
    intro hmem
    rcases Table.eq_of_mem_traceOf hmem with ⟨offset, i, h⟩ | ⟨notice, h⟩
    · exact hstep offset i h
    · exact hnotice notice h
  rw [Execution.records_log]
  simp [hopened, hclosed, hway]

/-- The trace of a run shows the instructions that were executed. -/
theorem shownSteps_log (m : Machine) (program : Program) (length : Nat) :
    Record.shownSteps (Log.records ((m.run program).log length)) =
      (m.run program).items.map fun item => (item.offset, item.instruction.text) := by
  have hclosing : Record.shownSteps
      ((closingRecord? (m.run program).outcome).toList ++ [.runClosed]) = [] := by
    match (m.run program).outcome with
    | .ok report => rfl
    | .error (.undefined offset cause) => rfl
    | .error (.malformed cause) => rfl
  rw [Execution.records_log]
  show Record.shownSteps (_ ++ _) = _
  rw [Record.shownSteps_append, hclosing, List.append_nil, Table.shownSteps_traceOf]

/-- Steps that a trace shows assemble to the program of their instructions. -/
theorem assemble_source (items : List Located) :
    Source.assemble (Record.source (items.map fun item => (item.offset, item.instruction.text))) =
      .ok (Program.ofInstructions (items.map Located.instruction)) := by
  rw [← Source.assemble_write, Record.source, Source.write, List.map_map, List.map_map]
  rfl

/-- In a layout from the start, the steps before one assemble to as many bytes as its offset
says. -/
theorem length_assemble_source {is : List Instruction} {k offset : Nat} {text : String}
    (h : ((Located.layout 0 is).map fun item => (item.offset, item.instruction.text))[k]? =
      some (offset, text)) :
    ∃ before, Source.assemble (Record.source
        (((Located.layout 0 is).map fun item => (item.offset, item.instruction.text)).take k)) =
          .ok before ∧ before.length = offset := by
  rw [List.getElem?_map] at h
  obtain ⟨item, hitem, hpair⟩ := Option.map_eq_some_iff.mp h
  refine ⟨Program.ofInstructions (is.take k), ?_, ?_⟩
  · rw [← List.map_take, assemble_source, List.map_take, Located.map_instruction_layout]
  · rw [Program.length_ofInstructions, ← Located.offset_of_getElem?_layout hitem]
    exact congrArg Prod.fst hpair

/-- The trace is a faithful account of the run of a program that executed the given instructions
and got as far as the given offset. -/
structure Traced (m : Machine) (program : Program) (trace : List Record) (items : List Located)
    (stop : Nat) : Prop where
  /-- The run begins, the instructions take effect, the run ends in one of the two ways that are
  recorded or in the one that is not, and it is over. -/
  records : trace = .runOpened program.length :: (m.table.traceOf items ++
    ((closingRecord? (m.run program).outcome).toList ++ [.runClosed]))
  /-- That the run is finished is recorded exactly if it succeeds, with what its report says. -/
  finished : ∀ n halted, .runFinished n halted ∈ trace ↔
    ∃ report, (m.run program).outcome = .ok report ∧ report.steps = n ∧ report.halted = halted
  /-- The report counts the steps that the trace shows. -/
  counted : ∀ report, (m.run program).outcome = .ok report →
    report.steps = (Record.shownSteps trace).length
  /-- That the run is aborted is recorded exactly if it fails with that lookup. -/
  aborting : ∀ offset id, .aborting offset id ∈ trace ↔
    (m.run program).outcome = .error (.undefined offset (.notDefined id))
  /-- The texts of the instructions assemble to the bytes that were executed. -/
  assembles : Source.assemble (Record.source (Record.shownSteps trace)) = .ok (program.take stop)
  /-- The offset of a step is the length of what the texts before it assemble to. -/
  offsets : ∀ k offset text, (Record.shownSteps trace)[k]? = some (offset, text) →
    ∃ before, Source.assemble (Record.source ((Record.shownSteps trace).take k)) = .ok before ∧
      before.length = offset
  /-- The bytes that were executed end where the last instruction ends. -/
  last : (items = [] ∧ stop = 0) ∨
    ∃ item, items.getLast? = some item ∧ stop = item.offset + item.instruction.size
  /-- They are all bytes if the run comes to the end of the program. -/
  exhausted : ∀ report, (m.run program).outcome = .ok report → report.halted = false →
    stop = program.length
  /-- They end one behind the offset of the halt instruction if the run halts. -/
  halted : ∀ report, (m.run program).outcome = .ok report → report.halted = true →
    ∃ offset, (Record.shownSteps trace).getLast? = some (offset, "HALT") ∧ stop = offset + 1
  /-- They end two behind the offset of the lookup if the run is aborted. -/
  undefined : ∀ offset cause, (m.run program).outcome = .error (.undefined offset cause) →
    stop = offset + 2
  /-- They end at the offset of the fault if there is one. -/
  malformed : ∀ cause, (m.run program).outcome = .error (.malformed cause) → stop = cause.offset

/-- **The trace of a run assembles to the bytes that were executed.**  Whatever the outcome, the
records of a run are those of the instructions that were executed, between the record of its
beginning and those of its end, and they tell all that the trace is to tell of the run. -/
theorem run_traced (m : Machine) (program : Program) :
    ∃ items stop,
      m.Traced program (Log.records ((m.run program).log program.length)) items stop := by
  obtain ⟨unread, hreads⟩ := Execution.exists_reads m.policy m.table (Cursor.start program)
  change (m.run program).Reads _ _ at hreads
  have hsteps := m.shownSteps_log program program.length
  have hitems : (m.run program).items = Located.layout 0 (m.run program).instructions :=
    hreads.items
  have hbytes : Program.ofInstructions (m.run program).instructions ++ unread = program :=
    hreads.bytes.symm
  have htake : program.take (Instruction.totalSize (m.run program).instructions) =
      Program.ofInstructions (m.run program).instructions := by
    rw [← Program.length_ofInstructions]
    exact (congrArg (List.take _) hbytes).symm.trans List.take_left
  have hend : ∀ item, (m.run program).items.getLast? = some item →
      Instruction.totalSize (m.run program).instructions =
        item.offset + item.instruction.size := by
    intro item hlast
    rw [hitems] at hlast
    have hstop := Located.end_of_getLast?_layout hlast
    omega
  refine ⟨(m.run program).items, Instruction.totalSize (m.run program).instructions, ?_⟩
  constructor
  case records => exact Execution.records_log m program program.length
  case finished =>
    intro n halted
    rw [mem_records_log_iff (by simp) (by simp) (by simp) (by simp), closingRecord?_eq_finished_iff]
  case counted =>
    intro report houtcome
    rw [hsteps, List.length_map, Execution.items, List.length_map]
    exact congrArg Report.steps (Execution.eq_report_of_outcome houtcome)
  case aborting =>
    intro offset id
    rw [mem_records_log_iff (by simp) (by simp) (by simp) (by simp), closingRecord?_eq_aborting_iff]
  case assembles => rw [hsteps, assemble_source, Execution.map_instruction_items, htake]
  case offsets =>
    intro k offset text h
    rw [hsteps, hitems] at h ⊢
    exact length_assemble_source h
  case last =>
    cases hlast : (m.run program).items.getLast? with
    | none =>
      have hnil : (m.run program).items = [] := List.getLast?_eq_none_iff.mp hlast
      refine Or.inl ⟨hnil, ?_⟩
      rw [← Execution.map_instruction_items, hnil]
      rfl
    | some item => exact Or.inr ⟨item, rfl, hend item hlast⟩
  case exhausted =>
    intro report houtcome hgoing
    rcases Execution.outcome_eq_ok_iff.mp houtcome with ⟨-, rfl⟩ | ⟨hending, -⟩
    · cases hgoing
    · have hlength := congrArg List.length hbytes
      rw [hreads.exhausted hending, List.append_nil, Program.length_ofInstructions] at hlength
      exact hlength
  case halted =>
    intro report houtcome hhalted
    rcases Execution.outcome_eq_ok_iff.mp houtcome with ⟨hending, -⟩ | ⟨-, rfl⟩
    · have hlast := hreads.halted hending
      rw [← Execution.map_instruction_items, List.getLast?_map] at hlast
      obtain ⟨item, hitem, hhalt⟩ := Option.map_eq_some_iff.mp hlast
      refine ⟨item.offset, ?_, ?_⟩
      · rw [hsteps, List.getLast?_map, hitem, Option.map_some, hhalt]
        rfl
      · rw [hend item hitem, hhalt]
        rfl
    · cases hhalted
  case undefined =>
    intro offset cause houtcome
    rw [← hreads.aborted offset cause (Execution.outcome_eq_undefined_iff.mp houtcome)]
    exact (Nat.zero_add _).symm
  case malformed =>
    intro cause houtcome
    rw [← hreads.malformed cause (Execution.outcome_eq_malformed_iff.mp houtcome)]
    exact (Nat.zero_add _).symm

end Machine

end SymbolicBytecode
