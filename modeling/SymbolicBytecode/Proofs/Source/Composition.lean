/-
# Assembling a text in pieces

Source text can be cut behind any line end and its pieces assembled on their own.  Their
programs are put one behind the other; a mistake in the second piece is reported as far
further down as the first piece has lines.

* `readLines_add`     : the number of the first line only moves the line that is reported;
* `readLines_append`  : lines are read one part after the other;
* `assemble_continued` : the same for texts, as one equation;
* `assemble_append`   : what becomes of the program or the mistake of each piece.
-/
import SymbolicBytecode.Source.Assembly
import SymbolicBytecode.Proofs.Text.LineEnds

namespace SymbolicBytecode.Source

open Text

/-- The same mistake in a line that stands further down. -/
def AssembleError.below (e : AssembleError) (count : Nat) : AssembleError :=
  ⟨e.line + count, e.cause⟩

/-- The number of the first line is used for nothing but the line that is reported. -/
theorem readLines_add (number count : Nat) (ls : List (List Char)) :
    readLines (number + count) ls = (readLines number ls).mapError (·.below count) := by
  induction ls generalizing number with
  | nil => rfl
  | cons line rest ih =>
    have hnext : number + count + 1 = number + 1 + count := Nat.add_right_comm number count 1
    rw [readLines, readLines, hnext, ih]
    cases readLine line with
    | error cause => rfl
    | ok held =>
      cases held with
      | none => rfl
      | some i => cases readLines (number + 1) rest <;> rfl

/-- The second part of several lines is read if the first part can be, and its first line is
counted from there. -/
theorem readLines_append (number : Nat) (first second : List (List Char)) :
    readLines number (first ++ second) =
      match readLines number first with
      | .error e => .error e
      | .ok is => (readLines (number + first.length) second).map (is ++ ·) := by
  induction first generalizing number with
  | nil =>
    show readLines number second = (readLines number second).map id
    cases readLines number second <;> rfl
  | cons line rest ih =>
    have hnext : number + (line :: rest).length = number + 1 + rest.length := by
      rw [List.length_cons]
      omega
    rw [List.cons_append, readLines, readLines, hnext, ih]
    cases readLine line with
    | error cause => rfl
    | ok held =>
      cases held with
      | none => rfl
      | some i =>
        -- the instruction of the line stands before those of both parts
        cases readLines (number + 1) rest with
        | error e => rfl
        | ok is => cases readLines (number + 1 + rest.length) second <;> rfl

/-- A text whose last line has its end is assembled first, whatever stands behind it. -/
theorem assemble_continued {a : String} (h : Ended a.toList) (c : String) :
    assemble (a ++ c) =
      match assemble a with
      | .error e => .error e
      | .ok x => ((assemble c).mapError (·.below (a.toList.count '\n'))).map (x ++ ·) := by
  unfold assemble instructions
  rw [String.toList_append, lines_append h, readLines_append, readLines_add, length_lines h]
  cases readLines 1 (lines a.toList) with
  | error e => rfl
  | ok is =>
    cases readLines 1 (lines c.toList) with
    | error e => rfl
    | ok js => exact congrArg Except.ok (Program.ofInstructions_append is js)

/-- **Assembling is compositional.**  Let a text be empty or end with a line feed.  If it cannot be
assembled, it cannot be whatever is put behind it, for the same mistake in the same line.  If it
can, its program is followed by that of the text behind it; and if that text cannot be assembled,
its mistake is reported in a line that is further down by the line feeds before it. -/
theorem assemble_append {a : String} (h : Ended a.toList) (c : String) :
    (∀ e, assemble a = .error e → assemble (a ++ c) = .error e) ∧
    ∀ x, assemble a = .ok x →
      (∀ y, assemble c = .ok y → assemble (a ++ c) = .ok (x ++ y)) ∧
      ∀ line cause, assemble c = .error ⟨line, cause⟩ →
        assemble (a ++ c) = .error ⟨line + a.toList.count '\n', cause⟩ := by
  rw [assemble_continued h c]
  refine ⟨fun e ha => ?_, fun x ha => ⟨fun y hc => ?_, fun line cause hc => ?_⟩⟩
  · rw [ha]
  · rw [ha, hc]
    rfl
  · rw [ha, hc]
    rfl

/-- The carriage return is no line of its own, and the empty line is one: a mistake in the second
line behind them is in the fourth line of the text. -/
theorem assemble_append_behind_return :
    let a := "symbol_define 1, 0x0A\r\n\n"
    Ended a.toList ∧ assemble a = .ok [0xE0, 1, 10] ∧
      assemble "halt" = .ok [0x05] ∧ assemble (a ++ "halt") = .ok [0xE0, 1, 10, 0x05] ∧
      assemble "halt\nhalt 1" = .error ⟨2, .operandCount .halt 1⟩ ∧
      assemble (a ++ "halt\nhalt 1") = .error ⟨4, .operandCount .halt 1⟩ := by
  have hended : Ended "symbol_define 1, 0x0A\r\n\n".toList := Or.inr (by decide)
  have hcount : "symbol_define 1, 0x0A\r\n\n".toList.count '\n' = 2 := by decide
  have ha : assemble "symbol_define 1, 0x0A\r\n\n" = .ok [0xE0, 1, 10] := by rfl
  have hc : assemble "halt" = .ok [0x05] := by rfl
  have hc' : assemble "halt\nhalt 1" = .error ⟨2, .operandCount .halt 1⟩ := by rfl
  have hwrong := ((assemble_append hended "halt\nhalt 1").2 _ ha).2 _ _ hc'
  rw [hcount] at hwrong
  exact ⟨hended, ha, hc, ((assemble_append hended "halt").2 _ ha).1 _ hc, hc', hwrong⟩

end SymbolicBytecode.Source
