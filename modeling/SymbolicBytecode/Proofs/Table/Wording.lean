/-
# The lines of notices

A notice of a table is written as one line, or as several if it lists the table.  Lines open in
seven ways, and no opening is the beginning of another.  So the first characters of a line decide
what it says, and the rows of a listing are never taken for other notices.

* `Opening.eq_of_isPrefix`   : the openings are free of prefixes;
* `Line.opens_iff`           : what a line opens with;
* `Line.definitionOf?_chars` : which lines tell of a definition, and of what value;
* `Notice.lines_join`        : the lines of notices that are written one after the other.
-/
import SymbolicBytecode.Table.Notice
import SymbolicBytecode.Proofs.Source.Disassembly
import SymbolicBytecode.Proofs.Table.History

namespace SymbolicBytecode

open Text

/-! ## Bytes as they are written -/

/-- A way of writing bytes that is read back tells them apart. -/
theorem Text.inj_of_readOperand {written : UInt8 → String}
    (h : ∀ b, Source.readOperand (written b).toList = .ok b) {b b' : UInt8} :
    written b = written b' ↔ b = b' := by
  constructor
  · intro hsame
    have hread := h b
    rw [hsame, h] at hread
    exact (Except.ok.inj hread).symm
  · rintro rfl
    rfl

/-- A byte is determined by its hexadecimal literal. -/
theorem Text.hexLiteral_inj {b b' : UInt8} : hexLiteral b = hexLiteral b' ↔ b = b' :=
  inj_of_readOperand Source.readOperand_hexLiteral

/-- A byte is determined by its value in decimal. -/
theorem Text.decimalByte_inj {b b' : UInt8} : decimalByte b = decimalByte b' ↔ b = b' :=
  inj_of_readOperand Source.readOperand_decimalByte

/-- Tells whether a line of text starts with the given characters. -/
def Text.startsWith (start : String) (line : List Char) : Bool :=
  start.toList.isPrefixOf line

/-! ## Openings -/

/-- How a line of a notice opens. -/
inductive Opening
  | reset
  | defined
  | applied
  | undefined
  | reflection
  /-- The first line of a listing. -/
  | header
  /-- Any other line of a listing. -/
  | row
  deriving DecidableEq, Repr

namespace Opening

/-- The characters that a line opens with. -/
def text : Opening → String
  | reset => "[Symbolic] Symbolic table initialized."
  | defined => "[Symbolic] Defined symbol "
  | applied => "[Symbolic] Applied symbol "
  | undefined => "[Symbolic] Undefined symbol "
  | reflection => "[Meta] Reflection triggered."
  | header => "[Symbolic] Current Symbol Table:"
  | row => "  Symbol "

/-- No opening is the beginning of another. -/
theorem eq_of_isPrefix {a b : Opening} (h : a.text.toList <+: b.text.toList) : a = b := by
  revert h
  cases a <;> cases b <;> decide

/-- What stands behind two openings does not make up for the difference between them. -/
theorem eq_of_isPrefix_append {a b : Opening} {rest : List Char}
    (h : a.text.toList <+: b.text.toList ++ rest) : a = b := by
  rcases List.prefix_or_prefix_of_prefix h (List.prefix_append _ _) with hab | hba
  · exact eq_of_isPrefix hab
  · exact (eq_of_isPrefix hba).symm

end Opening

/-! ## Lines -/

/-- A line of a notice. -/
inductive Line
  | reset
  | defined (symbol : Symbol)
  | applied (symbol : Symbol)
  | undefined (id : UInt8)
  | reflection
  | header
  | row (symbol : Symbol)
  deriving DecidableEq, Repr

namespace Line

/-- How the line opens. -/
def opening : Line → Opening
  | reset => .reset
  | defined _ => .defined
  | applied _ => .applied
  | undefined _ => .undefined
  | reflection => .reflection
  | header => .header
  | row _ => .row

/-- What stands behind the opening. -/
def detail : Line → String
  | defined symbol | applied symbol | row symbol => symbol.binding
  | undefined id => hexLiteral id
  | reset | reflection | header => ""

/-- The line as it is written. -/
def text (line : Line) : String :=
  line.opening.text ++ line.detail

/-- The characters of the line. -/
def chars (line : Line) : List Char :=
  line.text.toList

theorem chars_eq (line : Line) : line.chars = line.opening.text.toList ++ line.detail.toList :=
  String.toList_append

/-- **A line opens in one way only.** -/
theorem opens_iff {line : Line} {opening : Opening} :
    opening.text.toList <+: line.chars ↔ line.opening = opening := by
  rw [chars_eq]
  constructor
  · intro h
    exact (Opening.eq_of_isPrefix_append h).symm
  · rintro rfl
    exact List.prefix_append _ _

/-- What a line opens with is found from its first characters. -/
theorem startsWith_chars (opening : Opening) (line : Line) :
    startsWith opening.text line.chars = decide (line.opening = opening) := by
  rw [startsWith, Bool.eq_iff_iff, List.isPrefixOf_iff_prefix, opens_iff, decide_eq_true_iff]

/-- Among lines, those that open in the given way are found by their first characters. -/
theorem filter_startsWith (opening : Opening) (lines : List Line) :
    (lines.map chars).filter (startsWith opening.text) =
      (lines.filter (·.opening = opening)).map chars := by
  rw [List.filter_map]
  congr 2
  funext line
  exact startsWith_chars opening line

/-- They are counted in the same way. -/
theorem countP_startsWith (opening : Opening) (lines : List Line) :
    (lines.map chars).countP (startsWith opening.text) =
      lines.countP (·.opening = opening) := by
  rw [List.countP_eq_length_filter, filter_startsWith, List.length_map,
    ← List.countP_eq_length_filter]

/-- A line with nothing behind its opening is that opening. -/
theorem chars_eq_iff {opening : Opening}
    (hbare : ∀ line : Line, line.opening = opening → line.detail = "") {line : Line} :
    line.chars = opening.text.toList ↔ line.opening = opening := by
  constructor
  · intro h
    exact opens_iff.mp (h ▸ List.prefix_refl _)
  · intro h
    rw [chars_eq, hbare line h, h]
    simp

theorem chars_eq_reset_iff {line : Line} :
    line.chars = Opening.reset.text.toList ↔ line.opening = .reset := by
  apply chars_eq_iff
  intro line h
  cases line <;> cases h
  rfl

theorem chars_eq_reflection_iff {line : Line} :
    line.chars = Opening.reflection.text.toList ↔ line.opening = .reflection := by
  apply chars_eq_iff
  intro line h
  cases line <;> cases h
  rfl

/-- The announcements of a reflection are counted by their text. -/
theorem count_reflection (lines : List Line) :
    (lines.map chars).count Opening.reflection.text.toList =
      lines.countP (·.opening = .reflection) := by
  rw [List.count, List.countP_map]
  congr 1
  funext line
  rw [Function.comp_apply, Bool.eq_iff_iff, beq_iff_eq, chars_eq_reflection_iff,
    decide_eq_true_iff]

/-! ## Lines that tell of a definition -/

/-- The value that the line says the identifier was bound to, if it says so. -/
def definition? (id : UInt8) : Line → Option UInt8
  | defined symbol => if symbol.id = id then some symbol.value else none
  | _ => none

end Line

/-- What a line of text gives as the value of an identifier, if it reads as a definition of it:
whatever stands behind the identifier and the equality sign. -/
def definitionOf? (id : UInt8) (line : List Char) : Option (List Char) :=
  line.dropPrefix? ("[Symbolic] Defined symbol " ++ hexLiteral id ++ " = ").toList

theorem definitionOf?_eq_some_iff {id : UInt8} {line value : List Char} :
    definitionOf? id line = some value ↔
      line = Opening.defined.text.toList ++
        ((hexLiteral id).toList ++ (" = ".toList ++ value)) := by
  rw [definitionOf?, List.dropPrefix?_eq_some_iff]
  simp [Opening.text]

theorem Symbol.toList_binding (s : Symbol) :
    s.binding.toList =
      (hexLiteral s.id).toList ++ (" = ".toList ++ (decimalByte s.value).toList) := by
  rw [binding, String.toList_append, String.toList_append, List.append_assoc]

/-- A binding can be taken apart in one way only, since all identifiers take the same number of
characters. -/
theorem Symbol.toList_binding_eq_iff {s : Symbol} {id : UInt8} {value : List Char} :
    s.binding.toList = (hexLiteral id).toList ++ (" = ".toList ++ value) ↔
      s.id = id ∧ (decimalByte s.value).toList = value := by
  rw [s.toList_binding]
  constructor
  · intro h
    obtain ⟨hid, hvalue⟩ := List.append_inj h (by simp [Source.toList_hexLiteral])
    exact ⟨hexLiteral_inj.mp (String.toList_inj.mp hid), List.append_cancel_left hvalue⟩
  · rintro ⟨rfl, rfl⟩
    rfl

/-- **Lines of definitions are read back.**  A line is read as a definition of an identifier
exactly if it tells of one, and the value is then given in decimal. -/
theorem Line.definitionOf?_chars (id : UInt8) (line : Line) :
    definitionOf? id line.chars = (line.definition? id).map fun v => (decimalByte v).toList := by
  apply Option.ext
  intro value
  rw [definitionOf?_eq_some_iff, Option.map_eq_some_iff]
  constructor
  · intro h
    have hopening : line.opening = .defined := opens_iff.mp (h ▸ List.prefix_append _ _)
    cases line <;> cases hopening
    rename_i s
    rw [chars_eq] at h
    obtain ⟨hsame, hvalue⟩ := Symbol.toList_binding_eq_iff.mp (List.append_cancel_left h)
    exact ⟨s.value, if_pos hsame, hvalue⟩
  · rintro ⟨v, hv, rfl⟩
    cases line with
    | defined s =>
      rw [definition?] at hv
      split at hv
      · rename_i hsame
        obtain rfl := Option.some.inj hv
        rw [chars_eq, ← hsame, ← s.toList_binding]
        rfl
      · cases hv
    | _ => cases hv

/-! ## Notices as lines -/

namespace Notice

/-- The lines of a notice; a text of the caller's own is not divided. -/
def lines : Notice → List Line
  | reset => [.reset]
  | defined symbol => [.defined symbol]
  | applied symbol => [.applied symbol]
  | undefined id => [.undefined id]
  | reflection => [.reflection]
  | listed symbols => .header :: symbols.map .row
  | message _ => []

/-- The notice is one that tables report, and no text of the caller's own. -/
def IsOfTable (notice : Notice) : Prop :=
  ∀ text, notice ≠ .message text

/-- A notice of a table consists of its lines, of which there is at least one. -/
theorem exists_lines {notice : Notice} (h : notice.IsOfTable) :
    ∃ first others, notice.lines = first :: others ∧
      notice.text = String.intercalate "\n" ((first :: others).map Line.text) := by
  cases notice with
  | message text => exact absurd rfl (h text)
  | listed symbols =>
    have hrow : ∀ s : Symbol, "  " ++ s.text = (Line.row s).text := by
      intro s
      show "  " ++ ("Symbol " ++ s.binding) = "  Symbol " ++ s.binding
      rw [← String.append_assoc]
      rfl
    refine ⟨.header, symbols.map .row, rfl, ?_⟩
    show listing symbols = _
    rw [listing_eq_intercalate, List.map_cons, List.map_map]
    simp only [hrow]
    rfl
  | reset => exact ⟨_, [], rfl, rfl⟩
  | defined s => exact ⟨_, [], rfl, rfl⟩
  | applied s => exact ⟨_, [], rfl, rfl⟩
  | undefined id => exact ⟨_, [], rfl, rfl⟩
  | reflection => exact ⟨_, [], rfl, rfl⟩

end Notice

/-! ## Reading lines out of a text -/

/-- A line break is blank. -/
theorem Text.not_break_of_not_blank {c : Char} (h : isBlank c = false) : c ≠ '\n' ∧ c ≠ '\r' := by
  constructor
  · rintro rfl
    cases h
  · rintro rfl
    cases h

/-- A binding that is written out holds no line break. -/
theorem Symbol.not_break_of_mem {s : Symbol} {c : Char} (h : c ∈ s.binding.toList) :
    c ≠ '\n' ∧ c ≠ '\r' := by
  rw [s.toList_binding, List.mem_append, List.mem_append] at h
  rcases h with hid | hequals | hvalue
  · exact not_break_of_not_blank ((Instruction.isWord_hexLiteral s.id).not_blank c hid)
  · have hall : " = ".toList.all (fun c => c ≠ '\n' ∧ c ≠ '\r') = true := by decide
    exact of_decide_eq_true (List.all_eq_true.mp hall c hequals)
  · exact not_break_of_not_blank ((Instruction.isWord_decimalByte s.value).not_blank c hvalue)

/-- A line holds no line break. -/
theorem Line.not_break_of_mem {line : Line} {c : Char} (h : c ∈ line.chars) :
    c ≠ '\n' ∧ c ≠ '\r' := by
  rw [chars_eq, List.mem_append] at h
  rcases h with hopening | hdetail
  · have hall : ∀ opening : Opening,
        opening.text.toList.all (fun c => c ≠ '\n' ∧ c ≠ '\r') = true := by
      intro opening
      cases opening <;> decide
    exact of_decide_eq_true (List.all_eq_true.mp (hall line.opening) c hopening)
  · cases line with
    | defined s => exact Symbol.not_break_of_mem hdetail
    | applied s => exact Symbol.not_break_of_mem hdetail
    | row s => exact Symbol.not_break_of_mem hdetail
    | undefined id =>
      exact not_break_of_not_blank ((Instruction.isWord_hexLiteral id).not_blank c hdetail)
    | _ => cases hdetail

namespace Notice

/-- Lines with a line feed between them, and one behind them, are found again. -/
theorem lines_intercalate (first : Line) (others : List Line) (rest : List Char) :
    Text.lines
        ((String.intercalate "\n" ((first :: others).map Line.text)).toList ++ '\n' :: rest) =
      (first :: others).map Line.chars ++ Text.lines rest := by
  have hline : ∀ (line : Line) (rest : List Char),
      Text.lines (line.text.toList ++ '\n' :: rest) = line.chars :: Text.lines rest := by
    intro line rest
    apply lines_append_feed
    · intro hmem
      exact (Line.not_break_of_mem hmem).1 rfl
    · intro hlast
      exact (Line.not_break_of_mem (List.mem_of_getLast? hlast)).2 rfl
  induction others generalizing first with
  | nil => exact hline first rest
  | cons second others ih =>
    have hfeed : "\n".toList = ['\n'] := rfl
    rw [List.map_cons, List.map_cons, String.intercalate_cons_cons, String.toList_append,
      String.toList_append, hfeed, List.append_assoc, List.append_assoc, List.singleton_append,
      hline]
    rw [← List.map_cons, ih]
    rfl

/-- **Notices line by line.**  Notices of tables that are written one after the other are, line by
line, what their lines say. -/
theorem lines_join {notices : List Notice} (h : ∀ notice ∈ notices, notice.IsOfTable) :
    Text.lines (String.join (notices.map line)).toList =
      (notices.flatMap lines).map Line.chars := by
  induction notices with
  | nil => rfl
  | cons notice rest ih =>
    obtain ⟨first, others, hlines, htext⟩ := exists_lines (h notice List.mem_cons_self)
    have hrest := ih fun notice' hmem => h notice' (List.mem_cons_of_mem notice hmem)
    have hwritten : (String.join ((notice :: rest).map line)).toList =
        notice.text.toList ++ '\n' :: (String.join (rest.map line)).toList := by
      simp [line]
    rw [hwritten, htext, lines_intercalate, hrest, List.flatMap_cons, List.map_append, hlines]

end Notice

end SymbolicBytecode
