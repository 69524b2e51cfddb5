/-
# The captured text as an audit log

A table that has reported to a buffer of its own since it was created leaves a complete log there:
the text alone tells what every identifier is bound to.  The lines of definitions behind the last
reset are replayed one after the other; all other lines, those of listings among them, change
nothing.

* `Bindings.replay`       : the bindings that lines tell of;
* `Bindings.get?_replay`  : they are found by looking for the last definition in the text;
* `Bindings.Told`         : notices tell all that was done to bindings;
* `Table.told_answer`, `Execution.told_follow` : those of requests and of runs do;
* `Past.told`             : and so do those of a whole past;
* `Past.text_determines_bindings` : the text determines the bindings.
-/
import Mathlib.Data.List.DropRight
import SymbolicBytecode.Proofs.Session.Captured
import SymbolicBytecode.Proofs.Session.Routing

namespace SymbolicBytecode

open Text

/-! ## Replaying lines -/

namespace Bindings

/-- Does what a line tells of. -/
def record (b : Bindings) : Line → Bindings
  | .reset => empty
  | .defined symbol => b.insert symbol.id symbol.value
  | _ => b

/-- Does what lines tell of, one after the other. -/
def replay (b : Bindings) (lines : List Line) : Bindings :=
  lines.foldl record b

theorem replay_append (b : Bindings) (first second : List Line) :
    b.replay (first ++ second) = (b.replay first).replay second :=
  List.foldl_append

theorem replay_concat (b : Bindings) (lines : List Line) (line : Line) :
    b.replay (lines ++ [line]) = (b.replay lines).record line :=
  List.foldl_concat ..

/-- A listing tells of nothing that was done. -/
theorem replay_listed (b : Bindings) (symbols : List Symbol) :
    b.replay (Notice.listed symbols).lines = b := by
  have hrows : ∀ b : Bindings, b.replay (symbols.map Line.row) = b := by
    intro b
    induction symbols with
    | nil => rfl
    | cons s rest ih => exact ih
  exact hrows b

/-- A line that does not tell of a reset changes an identifier exactly if it tells of a definition
of it. -/
theorem get?_record {line : Line} (h : line.opening ≠ .reset) (b : Bindings) (id : UInt8) :
    (b.record line).get? id = (line.definition? id).or (b.get? id) := by
  cases line with
  | reset => exact absurd rfl h
  | defined s =>
    rw [record, get?_insert, Line.definition?]
    split <;> rfl
  | _ => rfl

end Bindings

/-! ## Looking for definitions in a text -/

/-- The lines of a text behind the last one that tells of a reset. -/
def linesBehindReset (lines : List (List Char)) : List (List Char) :=
  lines.rtakeWhile (· ≠ "[Symbolic] Symbolic table initialized.".toList)

theorem linesBehindReset_concat_of_reset (lines : List (List Char)) {line : Line}
    (h : line.opening = .reset) : linesBehindReset (lines ++ [line.chars]) = [] := by
  rw [Line.chars_eq_reset_iff.mpr h]
  exact List.rtakeWhile_concat_neg _ _ _ (by decide)

theorem linesBehindReset_concat (lines : List (List Char)) {line : Line}
    (h : line.opening ≠ .reset) :
    linesBehindReset (lines ++ [line.chars]) = linesBehindReset lines ++ [line.chars] := by
  apply List.rtakeWhile_concat_pos
  apply decide_eq_true
  intro hreset
  exact h (Line.chars_eq_reset_iff.mp hreset)

/-- What the lines behind the last reset give as the values of an identifier, in order. -/
def definitionsOf (id : UInt8) (lines : List (List Char)) : List (List Char) :=
  (linesBehindReset lines).filterMap (definitionOf? id)

theorem definitionsOf_concat_of_reset (id : UInt8) (lines : List (List Char)) {line : Line}
    (h : line.opening = .reset) : definitionsOf id (lines ++ [line.chars]) = [] := by
  rw [definitionsOf, linesBehindReset_concat_of_reset lines h]
  rfl

theorem definitionsOf_concat (id : UInt8) (lines : List (List Char)) {line : Line}
    (h : line.opening ≠ .reset) :
    definitionsOf id (lines ++ [line.chars]) = definitionsOf id lines ++
      ((line.definition? id).map fun v => (decimalByte v).toList).toList := by
  rw [definitionsOf, linesBehindReset_concat lines h, List.filterMap_append, ← definitionsOf,
    ← Line.definitionOf?_chars, filterMap_cons_toList, List.filterMap_nil, List.append_nil]

/-- **Replaying is looking for the last definition.**  The bindings that lines tell of are found in
their text. -/
theorem Bindings.get?_replay (lines : List Line) (id : UInt8) :
    ((empty.replay lines).get? id).map (fun v => (decimalByte v).toList) =
      (definitionsOf id (lines.map Line.chars)).getLast? := by
  induction lines using List.reverseRecOn with
  | nil => rw [replay, List.foldl_nil, get?_empty]; rfl
  | append_singleton lines line ih =>
    rw [replay_concat, List.map_append, List.map_singleton]
    by_cases hreset : line.opening = .reset
    · have hline : line = .reset := by
        cases line <;> cases hreset
        rfl
      rw [definitionsOf_concat_of_reset id _ hreset, hline, record, get?_empty]
      rfl
    · rw [get?_record hreset, definitionsOf_concat id _ hreset]
      cases line.definition? id with
      | none => rw [Option.none_or, Option.map_none, Option.toList_none, List.append_nil, ih]
      | some v => rw [Option.some_or, Option.map_some, Option.toList_some, List.getLast?_concat]

/-! ## What is reported is what was done -/

/-- Notices of tables tell all that was done to bindings: replaying their lines does it again. -/
structure Bindings.Told (before : Bindings) (notices : List Notice) (after : Bindings) : Prop where
  isOfTable : ∀ notice ∈ notices, notice.IsOfTable
  replay : before.replay (notices.flatMap Notice.lines) = after

namespace Bindings.Told

variable {b b' b'' : Bindings}

theorem nil : Told b [] b :=
  ⟨fun _ hmem => (List.not_mem_nil hmem).elim, rfl⟩

theorem append {first second : List Notice} (h : Told b first b') (h' : Told b' second b'') :
    Told b (first ++ second) b'' where
  isOfTable notice hmem := (List.mem_append.mp hmem).elim (h.isOfTable notice) (h'.isOfTable notice)
  replay := by rw [List.flatMap_append, replay_append, h.replay, h'.replay]

/-- One notice, which has lines. -/
theorem singleton {notice : Notice} {first : Line} {others : List Line}
    (h : notice.lines = first :: others) : Told b [notice] (b.replay notice.lines) where
  isOfTable := by
    rintro notice' hmem text rfl
    rw [← List.mem_singleton.mp hmem] at h
    cases h
  replay := by rw [List.flatMap_singleton]

/-- A listing tells that nothing was done. -/
theorem listed (symbols : List Symbol) : Told b [.listed symbols] b := by
  have hlisted : Told b [.listed symbols] (b.replay (Notice.listed symbols).lines) := singleton rfl
  rwa [replay_listed] at hlisted

end Bindings.Told

namespace Table

/-- Every request is told of. -/
theorem told_answer (t : Table) (request : Request) :
    t.bindings.Told (t.answer request).notices (t.answer request).table.bindings := by
  cases request with
  | reset => exact Bindings.Told.singleton rfl
  | define id value => exact Bindings.Told.singleton rfl
  | apply id =>
    cases hget : t.bindings.get? id with
    | none =>
      simp only [answer, apply_of_unbound hget]
      exact Bindings.Told.singleton rfl
    | some value =>
      simp only [answer, apply_of_bound hget]
      exact Bindings.Told.singleton rfl
  | dump => exact Bindings.Told.listed t.bindings.symbols
  | reflect =>
    have hannounced : t.bindings.Told [.reflection] t.bindings :=
      Bindings.Told.singleton rfl
    exact hannounced.append (Bindings.Told.listed t.bindings.symbols)
  | _ => exact Bindings.Told.nil

/-- An instruction does and reports what its request does. -/
theorem told_perform (t : Table) (i : Instruction) :
    t.bindings.Told (t.perform i).notices (t.perform i).table.bindings := by
  cases i with
  | halt => exact Bindings.Told.nil
  | define id value => exact t.told_answer (.define id value)
  | apply id =>
    have hnotices : (t.perform (.apply id)).notices = (t.answer (.apply id)).notices := by
      cases hget : t.bindings.get? id with
      | none => simp only [answer, apply_of_unbound hget, perform_apply_of_unbound hget]
      | some value => simp only [answer, apply_of_bound hget, perform_apply_of_bound hget]
    rw [hnotices, table_perform_apply]
    exact t.told_answer (.apply id)
  | reflect => exact t.told_answer .reflect

end Table

/-- A run is told of, step by step. -/
theorem Execution.told_follow (policy : Policy) (closing : Ending) (t : Table)
    (items : List Located) :
    t.bindings.Told (follow policy closing t items).notices
      (follow policy closing t items).table.bindings := by
  apply follow_induction (motive := fun t e => t.bindings.Told e.notices e.table.bindings)
  · intro t ending
    exact Bindings.Told.nil
  · intro t item e h
    rw [notices_precede]
    exact (t.told_perform item.instruction).append h

/-! ## The log of a past -/

/-- The notices of a deed. -/
def Deed.notices (t : Table) : Deed → List Notice
  | request asked => (t.answer asked).notices
  | run policy program => (Machine.run ⟨t, policy⟩ program).notices

/-- What is reported on account of a deed, and to whom. -/
def Deed.log (t : Table) : Deed → Log
  | request asked => Log.ofNotices (t.answer asked).table.handler (t.answer asked).notices
  | run policy program => (Machine.run ⟨t, policy⟩ program).log program.length

/-- What is reported on account of deeds that are done one after the other. -/
def Table.logOf (t : Table) : List Deed → Log
  | [] => []
  | deed :: rest => deed.log t ++ (t.undergo deed).logOf rest

/-- All that was reported since the table was created. -/
def Past.log (p : Past) : Log :=
  Log.ofNotices p.handler (Table.fresh p.handler).notices ++
    (Table.fresh p.handler).value.logOf p.deeds

/-- The handler of the table hears the notices of a deed. -/
theorem Deed.noticesTo_log (t : Table) (deed : Deed) :
    Log.noticesTo t.handler (deed.log t) = deed.notices t := by
  cases deed with
  | request asked =>
    cases asked with
    -- the handler is another one afterwards, but nothing is reported
    | redirect handler => rfl
    | _ => exact Log.noticesTo_ofNotices _ _
  | run policy program =>
    have hhandler : (Machine.run ⟨t, policy⟩ program).table.handler = t.handler :=
      Execution.handler_run _ _ _
    rw [log, ← hhandler, Execution.noticesTo_log]
    rfl

/-- Every deed is told of. -/
theorem Deed.told (t : Table) (deed : Deed) :
    t.bindings.Told (deed.notices t) (t.undergo deed).bindings := by
  cases deed with
  | request asked => exact t.told_answer asked
  | run policy program =>
    rw [notices, Table.undergo, Machine.run_eq_follow]
    exact Execution.told_follow _ _ _ _

/-- The handler hears of deeds one after the other, unless the table is redirected. -/
theorem Table.told_logOf (t : Table) {deeds : List Deed}
    (h : ∀ deed ∈ deeds, deed.redirection? = none) :
    t.bindings.Told (Log.noticesTo t.handler (t.logOf deeds))
      (deeds.foldl Table.undergo t).bindings := by
  induction deeds generalizing t with
  | nil => exact Bindings.Told.nil
  | cons deed rest ih =>
    have hsame : (t.undergo deed).handler = t.handler := by
      rw [handler_undergo, h deed List.mem_cons_self]
      rfl
    have hrest := ih (t.undergo deed) fun deed' hmem => h deed' (List.mem_cons_of_mem deed hmem)
    rw [logOf, Log.noticesTo_append, deed.noticesTo_log]
    rw [hsame] at hrest
    exact (deed.told t).append hrest

namespace Past

/-- The handler of a table that is never redirected hears of all that was done, beginning with the
reset of the new table. -/
theorem told {p : Past} (h : ∀ deed ∈ p.deeds, deed.redirection? = none) :
    Bindings.empty.Told (Log.noticesTo p.handler p.log) p.table.bindings := by
  have hcreated : Bindings.empty.Told (Table.fresh p.handler).notices Bindings.empty :=
    Bindings.Told.singleton rfl
  rw [log, Log.noticesTo_append, Log.noticesTo_ofNotices]
  exact hcreated.append ((Table.fresh p.handler).value.told_logOf h)

/-- The text in a new buffer that such a table has to itself is, line by line, what the lines of
these notices say. -/
theorem lines_output (b : Buffers) {deeds : List Deed}
    (h : ∀ deed ∈ deeds, deed.redirection? = none) :
    Text.lines ((b.create.deliver (log ⟨.buffer b.nextKey, deeds⟩)).output
        (.buffer b.nextKey)).toList =
      ((Log.noticesTo (.buffer b.nextKey) (log ⟨.buffer b.nextKey, deeds⟩)).flatMap
        Notice.lines).map Line.chars := by
  have hnew : b.nextKey < b.create.nextKey := by
    rw [Buffers.nextKey_create]
    exact Nat.lt_succ_self _
  rw [Buffers.output_deliver hnew, Buffers.output_create, Buffers.output_nextKey,
    String.empty_append]
  exact Notice.lines_join (told (p := ⟨_, deeds⟩) h).isOfTable

/-- **The captured text is an audit log.**  Of a table that was created on a new buffer, was never
redirected and had the buffer to itself, the text in the buffer alone tells the bindings: behind
the last line that tells of a reset, an identifier is bound to the value in the last line that
defines it, and it is unbound if there is no such line. -/
theorem text_determines_bindings (b : Buffers) {deeds : List Deed}
    (h : ∀ deed ∈ deeds, deed.redirection? = none) (id value : UInt8) :
    let past : Past := ⟨.buffer b.nextKey, deeds⟩
    let text := (b.create.deliver past.log).output (.buffer b.nextKey)
    let definitions := definitionsOf id (Text.lines text.toList)
    (past.table.bindings.get? id = some value ↔
      definitions.getLast? = some (decimalByte value).toList) ∧
    (past.table.bindings.get? id = none ↔ definitions = []) := by
  intro past text definitions
  have hlast : (past.table.bindings.get? id).map (fun v => (decimalByte v).toList) =
      definitions.getLast? := by
    show _ = (definitionsOf id (Text.lines text.toList)).getLast?
    rw [← (told (p := past) h).replay, Bindings.get?_replay, lines_output b h]
  constructor
  · rw [← hlast, Option.map_eq_some_iff]
    constructor
    · intro hget
      exact ⟨value, hget, rfl⟩
    · rintro ⟨v, hget, hsame⟩
      rwa [decimalByte_inj.mp (String.toList_inj.mp hsame)] at hget
  · rw [← List.getLast?_eq_none_iff, ← hlast, Option.map_eq_none_iff]

/-- A symbol that was defined before the last reset is gone, though its line is still there; of two
definitions behind it the one in the run counts, though the run fails. -/
theorem text_determines_bindings_behind_reset :
    let deeds : List Deed := [.request (.define 1 10), .request .reset, .request (.define 2 20),
      .run .abort [0xE0, 2, 30, 0xE1, 3]]
    (∀ deed ∈ deeds, deed.redirection? = none) ∧
      Bindings.get? (Past.table ⟨.buffer 0, deeds⟩).bindings 1 = none ∧
      Bindings.get? (Past.table ⟨.buffer 0, deeds⟩).bindings 2 = some 30 := by
  intro deeds
  have hdeeds : ∀ deed ∈ deeds, deed.redirection? = none := by decide
  have hnotices : Log.noticesTo (.buffer 0) (log ⟨.buffer 0, deeds⟩) =
      [.reset, .defined ⟨1, 10⟩, .reset, .defined ⟨2, 20⟩, .defined ⟨2, 30⟩, .undefined 3] := by
    decide +kernel
  have hkey : Buffers.empty.nextKey = 0 := rfl
  have hlines := lines_output .empty hdeeds
  rw [hkey, hnotices] at hlines
  obtain ⟨-, hunbound⟩ := text_determines_bindings .empty hdeeds 1 0
  obtain ⟨hbound, -⟩ := text_determines_bindings .empty hdeeds 2 30
  rw [hkey, hlines] at hunbound hbound
  exact ⟨hdeeds, hunbound.mpr (by decide +kernel), hbound.mpr (by decide +kernel)⟩

end Past

end SymbolicBytecode
