/-
# What was assembled reads back

Source text can be written in many ways: with any letter case, base, leading zeros, commas,
blanks and comments.  None of this is left in the program, but every instruction is, so the
program leads back to what was written, in its one canonical form:

* `readLines_eq_ok_iff`  : lines are read exactly if each line of code holds an instruction;
* `lines_write`          : the canonical form has one line for each instruction;
* `canonical_eq_ok`      : bringing a text into canonical form always succeeds faithfully;
* `assembled_reads_back` : decoding, writing out and assembling again, all together.
-/
import SymbolicBytecode.Proofs.Code.Encoding
import SymbolicBytecode.Proofs.Source.Grammar

namespace SymbolicBytecode.Source

open Text

/-- Lines are read as instructions exactly if these are, in order, what the lines that are
neither blank nor comments hold. -/
theorem readLines_eq_ok_iff {number : Nat} {lines : List (List Char)} {is : List Instruction} :
    readLines number lines = .ok is ↔
      (lines.filter isCode).map readLine = is.map fun i => .ok (some i) := by
  induction lines generalizing number is with
  | nil => simp [readLines]
  | cons line rest ih =>
    by_cases hcode : isCode line = true
    · have hsome : readLine line ≠ .ok none := by
        rw [ne_eq, readLine_eq_none_iff, hcode]
        decide
      rw [List.filter_cons_of_pos hcode, List.map_cons, readLines]
      split
      · rename_i cause hread
        rw [hread, eq_comm (b := is.map _), List.map_eq_cons_iff]
        simp
      · rename_i hread
        exact absurd hread hsome
      · rename_i i hread
        rw [map_eq_ok_iff, hread, eq_comm (b := is.map _), List.map_eq_cons_iff]
        constructor
        · rintro ⟨tail, htail, rfl⟩
          exact ⟨i, tail, rfl, rfl, (ih.mp htail).symm⟩
        · rintro ⟨j, tail, rfl, hj, htail⟩
          obtain rfl := Option.some.inj (Except.ok.inj hj)
          exact ⟨tail, ih.mpr htail.symm, rfl⟩
    · have hnone : readLine line = .ok none :=
        readLine_eq_none_iff.mpr (Bool.eq_false_iff.mpr hcode)
      rw [List.filter_cons_of_neg hcode, readLines, hnone]
      exact ih

/-- A source text assembles exactly to the program of the instructions on its lines of code. -/
theorem assemble_eq_ok_iff {source : String} {program : Program} :
    assemble source = .ok program ↔
      ∃ is, ((lines source.toList).filter isCode).map readLine = is.map (fun i => .ok (some i)) ∧
        Program.ofInstructions is = program := by
  simp only [assemble, instructions, map_eq_ok_iff, readLines_eq_ok_iff]

/-- Instructions that are written out take one line each. -/
theorem lines_write (is : List Instruction) :
    lines (write is).toList = is.map fun i => i.text.toList := by
  induction is with
  | nil => rfl
  | cons i rest ih => rw [toList_write_cons, lines_text_append, ih, List.map_cons]

/-- The program of instructions is written out instruction by instruction. -/
theorem disassemble_ofInstructions (is : List Instruction) :
    (Program.ofInstructions is).disassemble = .ok (write is) :=
  disassemble_eq_ok_iff.mpr ⟨is, rfl, rfl⟩

/-- Whatever text a program was assembled from, its canonical form is the written program, and
it describes the same program. -/
theorem canonical_eq_ok {source : String} {is : List Instruction}
    (h : assemble source = .ok (Program.ofInstructions is)) :
    canonical source = .ok ⟨write is, Program.ofInstructions is, true⟩ := by
  simp only [canonical, h, disassemble_ofInstructions, assemble_write, decide_true]

/-- **What was assembled reads back.**  If a source text assembles, its program decodes to what
the lines that are neither blank nor comments hold, in order, each instruction at the sum of the
sizes before it.  The program can be written as source text with one line for each instruction;
this text assembles to the same program, and is its own canonical form. -/
theorem assembled_reads_back {source : String} {program : Program}
    (h : assemble source = .ok program) :
    ∃ items text,
      program.decode = .ok items ∧
      ((lines source.toList).filter isCode).map readLine =
        items.map (fun item => .ok (some item.instruction)) ∧
      (∀ k item, items[k]? = some item →
        item.offset = Instruction.totalSize ((items.take k).map Located.instruction)) ∧
      program.disassemble = .ok text ∧
      lines text.toList = items.map (fun item => item.instruction.text.toList) ∧
      assemble text = .ok program ∧
      canonical source = .ok ⟨text, program, true⟩ ∧
      canonical text = .ok ⟨text, program, true⟩ := by
  obtain ⟨is, hlines, rfl⟩ := assemble_eq_ok_iff.mp h
  have hitems : ∀ {β : Type} (f : Instruction → β),
      (Located.layout 0 is).map (fun item => f item.instruction) = is.map f := by
    intro β f
    calc (Located.layout 0 is).map (fun item => f item.instruction)
        = ((Located.layout 0 is).map Located.instruction).map f := List.map_map.symm
      _ = is.map f := by rw [Located.map_instruction_layout]
  refine ⟨Located.layout 0 is, write is, Program.decode_ofInstructions is, ?_, ?_,
    disassemble_ofInstructions is, ?_, assemble_write is, canonical_eq_ok h,
    canonical_eq_ok (assemble_write is)⟩
  · rw [hlines]
    exact (hitems _).symm
  · intro k item hitem
    rw [List.map_take, Located.map_instruction_layout]
    exact Located.offset_of_getElem?_layout hitem
  · rw [lines_write]
    exact (hitems _).symm

/-- A comment, an empty line, small letters, a tabulator, leading zeros, spare commas and a
carriage return leave no trace in the canonical form. -/
theorem assembled_reads_back_spellings :
    let source := "# names\n\n\tsymbol_define 0X0a,, 007,\r\n  Symbol_Apply 10 \nHALT"
    let program : Program := [0xE0, 10, 7, 0xE1, 10, 0x05]
    assemble source = .ok program ∧
      ∃ text, assemble text = .ok program ∧ canonical source = .ok ⟨text, program, true⟩ ∧
        canonical text = .ok ⟨text, program, true⟩ := by
  have h : assemble "# names\n\n\tsymbol_define 0X0a,, 007,\r\n  Symbol_Apply 10 \nHALT" =
      .ok [0xE0, 10, 7, 0xE1, 10, 0x05] := by rfl
  intro source program
  obtain ⟨items, text, -, -, -, -, -, hagain, hcanonical, hstable⟩ := assembled_reads_back h
  exact ⟨h, text, hagain, hcanonical, hstable⟩

end SymbolicBytecode.Source
