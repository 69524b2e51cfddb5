/-
# Spellings of the same source

Source text leaves room for taste: any blanks between the words, small or capital letters in a
mnemonic, commas behind operands, carriage returns at line ends.  None of it can be seen in the
program or in the mistake that is reported.

* `SameWords`           : the words of two lines are spelled alike but for such differences;
* `plain`               : the one plain spelling of the words of a line;
* `plain_eq_plain_iff`  : words have the same plain spelling exactly if they differ no further;
* `readWords_plain`     : the plain spelling is read like any other;
* `assemble_spellings`  : texts that differ no further are assembled alike.
-/
import SymbolicBytecode.Source.Assembly
import SymbolicBytecode.Proofs.Source.Grammar
import SymbolicBytecode.Proofs.Text.LineEnds

namespace SymbolicBytecode.Source

open Text

/-! ## The same words -/

/-- Two words are the same once all commas at their ends are taken off. -/
def SameButCommas (word word' : List Char) : Prop :=
  ∃ raw, Stripped word raw ∧ Stripped word' raw

/-- The words of two lines are as many and the same one by one, the first but for the case of
ASCII letters and the others but for commas at their ends. -/
inductive SameWords : List (List Char) → List (List Char) → Prop
  | nil : SameWords [] []
  | cons {word word' : List Char} {ws ws' : List (List Char)} :
    List.Forall₂ SameLetter word word' → List.Forall₂ SameButCommas ws ws' →
    SameWords (word :: ws) (word' :: ws')

/-- Two lines are made of the same words. -/
def SameLine (line line' : List Char) : Prop :=
  ∃ ws ws', Spaced line ws ∧ Spaced line' ws' ∧ SameWords ws ws'

theorem sameButCommas_iff {word word' : List Char} :
    SameButCommas word word' ↔ dropCommas word = dropCommas word' := by
  simp only [SameButCommas, ← dropCommas_eq_iff, exists_eq_left']
  exact eq_comm

theorem forall₂_sameButCommas_iff {ws ws' : List (List Char)} :
    List.Forall₂ SameButCommas ws ws' ↔ ws.map dropCommas = ws'.map dropCommas :=
  forall₂_iff_map_eq (R := SameButCommas) fun _ _ => sameButCommas_iff

/-! ## The plain spelling -/

/-- The words of a line as they are spelled plainly: the first in capitals, the others without the
commas at their ends. -/
def plain : List (List Char) → List (List Char)
  | [] => []
  | word :: ws => word.map Char.toUpper :: ws.map dropCommas

/-- Words have the same plain spelling exactly if they are the same. -/
theorem plain_eq_plain_iff {ws ws' : List (List Char)} :
    plain ws = plain ws' ↔ SameWords ws ws' := by
  constructor
  · intro h
    rcases ws with _ | ⟨word, ws⟩ <;> rcases ws' with _ | ⟨word', ws'⟩
    · exact .nil
    · exact absurd h.symm (List.cons_ne_nil _ _)
    · exact absurd h (List.cons_ne_nil _ _)
    · obtain ⟨hfirst, hothers⟩ := List.cons.inj h
      exact .cons (map_toUpper_eq_iff.mp hfirst) (forall₂_sameButCommas_iff.mpr hothers)
  · rintro (_ | ⟨hfirst, hothers⟩)
    · rfl
    · rw [plain, plain, map_toUpper_eq_iff.mpr hfirst, forall₂_sameButCommas_iff.mp hothers]

theorem sameLine_iff {line line' : List Char} :
    SameLine line line' ↔ plain (words line) = plain (words line') := by
  simp only [SameLine, ← words_eq_iff, exists_and_left, exists_eq_left', plain_eq_plain_iff]

/-! ## Reading the plain spelling -/

/-- The marks of comments are no letters, so capitals make no comment and undo none. -/
theorem opensComment_map_toUpper (word : List Char) :
    opensComment (word.map Char.toUpper) = opensComment word := by
  have hmark : ∀ mark : Char, mark.toNat < 65 → ∀ c : Char, mark = c.toUpper ↔ mark = c := by
    intro mark hlt c
    rw [← Char.toNat_inj, ← Char.toNat_inj, toNat_toUpper]
    split <;> omega
  have hslash := hmark '/' (by decide)
  have hhash := hmark '#' (by decide)
  rw [Bool.eq_iff_iff, opensComment_iff, opensComment_iff]
  unfold IsComment
  rcases word with _ | ⟨c, _ | ⟨d, rest⟩⟩ <;> simp [hslash, hhash]

/-- A text in capitals is in capitals already. -/
theorem upperCase_map_toUpper (word : List Char) :
    upperCase (String.ofList (word.map Char.toUpper)) = upperCase (String.ofList word) := by
  have htwice : ∀ c : Char, c.toUpper.toUpper = c.toUpper := fun c =>
    (sameLetter_iff.mp (capital_iff.mpr rfl).1).symm
  rw [← String.toList_inj, toList_upperCase, toList_upperCase, String.toList_ofList,
    String.toList_ofList, List.map_map]
  congr 1
  funext c
  exact htwice c

theorem ofMnemonic?_map_toUpper (word : List Char) :
    Opcode.ofMnemonic? (String.ofList (word.map Char.toUpper)) =
      Opcode.ofMnemonic? (String.ofList word) := by
  unfold Opcode.ofMnemonic?
  rw [upperCase_map_toUpper]

/-- An operand is read without its commas. -/
theorem readOperand_dropCommas (word : List Char) :
    readOperand (dropCommas word) = readOperand word := by
  unfold readOperand
  rw [dropCommas_of_getLast? (stripped_dropCommas word).2]

theorem readOperation_map_dropCommas (op : Opcode) (ws : List (List Char)) :
    readOperation op (ws.map dropCommas) = readOperation op ws := by
  have hread : readOperands (ws.map dropCommas) = readOperands ws := by
    unfold readOperands
    rw [List.mapM_map]
    congr 1
    funext word
    exact readOperand_dropCommas word
  unfold readOperation
  rw [hread]

/-- **The plain spelling is read like any other**, mistakes included. -/
theorem readWords_plain (ws : List (List Char)) : readWords (plain ws) = readWords ws := by
  cases ws with
  | nil => rfl
  | cons word ws =>
    rw [plain, readWords, readWords, opensComment_map_toUpper, ofMnemonic?_map_toUpper,
      upperCase_map_toUpper]
    simp only [readOperation_map_dropCommas]

/-- Lines of the same words are read alike. -/
theorem readLine_eq_of_sameLine {line line' : List Char} (h : SameLine line line') :
    readLine line = readLine line' := by
  rw [readLine, readLine, ← readWords_plain (words line), sameLine_iff.mp h, readWords_plain]

/-! ## Texts -/

/-- Lines that are read alike one by one are read alike all together. -/
theorem readLines_congr {ls ls' : List (List Char)}
    (h : List.Forall₂ (fun line line' => readLine line = readLine line') ls ls') :
    ∀ number, readLines number ls = readLines number ls' := by
  induction h with
  | nil => intro number; rfl
  | cons hline hrest ih =>
    intro number
    rw [readLines, readLines, hline, ih (number + 1)]

theorem assemble_congr {s s' : String}
    (h : List.Forall₂ SameLine (lines s.toList) (lines s'.toList)) : assemble s = assemble s' := by
  unfold assemble instructions
  rw [readLines_congr (h.imp fun _ _ => readLine_eq_of_sameLine)]

/-- **Spelling does not matter.**  Two texts with the same number of lines, in which lines with the
same number have as many words and the same ones, the first words but for the case of ASCII letters
and all others but for the commas at their ends, are assembled alike: to the same program, or with
the same mistake in the same line.  In particular nothing changes if a carriage return is put
before every line feed of a text. -/
theorem assemble_spellings :
    (∀ s s' : String, List.Forall₂ SameLine (lines s.toList) (lines s'.toList) →
      assemble s = assemble s') ∧
    ∀ s : String, assemble (String.ofList (withReturns s.toList)) = assemble s := by
  refine ⟨fun s s' h => assemble_congr h, fun s => (assemble_congr ?_).symm⟩
  rw [String.toList_ofList]
  apply (lines_withReturns s.toList).imp
  intro line line' h
  rw [sameLine_iff, h.words_eq]

/-- Capitals, other blanks, more commas and a carriage return: both texts have the same mistake in
their third line, in the same words. -/
theorem assemble_spellings_unknown_opcode :
    let s := "symbol_define 0x01, 100\n# a note\nBogus, 7"
    let s' := "\u00A0SYMBOL_define\t0x01,, 100,\r\n # a, note\nbOGUS,  7,,"
    List.Forall₂ SameLine (lines s.toList) (lines s'.toList) ∧ assemble s = assemble s' ∧
      assemble s = .error ⟨3, .unknownOpcode "BOGUS,"⟩ ∧
      assemble (String.ofList (withReturns s.toList)) = .error ⟨3, .unknownOpcode "BOGUS,"⟩ := by
  intro s s'
  have hsame : List.Forall₂ SameLine (lines s.toList) (lines s'.toList) := by
    apply (forall₂_iff_map_eq (R := SameLine) fun _ _ => sameLine_iff).mpr
    decide +kernel
  have hs : assemble s = .error ⟨3, .unknownOpcode "BOGUS,"⟩ := by decide +kernel
  exact ⟨hsame, assemble_spellings.1 s s' hsame, hs, (assemble_spellings.2 s).trans hs⟩

end SymbolicBytecode.Source
