/-
# Source text that was written by the library

The source form of an instruction is a line of source text that holds this instruction, so
a program that is written out as source assembles to itself:

* `readOperand_eq`       : an operand is read by the number that its literal denotes;
* `readLine_text`        : the source form of an instruction is read as the instruction;
* `instructions_write`   : instructions on lines of their own are read back in order;
* `disassemble_eq_ok_iff` : what a disassembly is;
* `assemble_disassemble` : assembling undoes disassembling, byte for byte.
-/
import SymbolicBytecode.Source.Assembly
import SymbolicBytecode.Proofs.Code.Layout
import SymbolicBytecode.Proofs.Text.Bytes
import SymbolicBytecode.Proofs.Text.Separated

namespace SymbolicBytecode

open Text

/-! ## Operands -/

namespace Source

/-- The number that a literal denotes. -/
def literal? : List Char → Option Nat
  | '0' :: 'x' :: digits => number? 16 digits
  | '0' :: 'X' :: digits => number? 16 digits
  | digits => number? 10 digits

/-- What a literal denotes is what its digits denote in its base. -/
theorem number?_splitLiteral (raw : List Char) :
    number? (splitLiteral raw).1 (splitLiteral raw).2 = literal? raw := by
  unfold splitLiteral
  split
  · rfl
  · rfl
  · rename_i hsmall hlarge
    unfold literal?
    split
    · exact absurd rfl (hsmall _)
    · exact absurd rfl (hlarge _)
    · rfl

theorem base_splitLiteral_le (raw : List Char) : (splitLiteral raw).1 ≤ 16 := by
  unfold splitLiteral
  split <;> simp

/-- **An operand is read by the number that its literal denotes**, without a bound on that number:
looking at the form of the digits and then reading a byte comes to the same. -/
theorem readOperand_eq (word : List Char) :
    readOperand word =
      match literal? (dropCommas word) with
      | none => .error (.malformed (String.ofList (dropCommas word)))
      | some n =>
        if n < 256 then .ok (UInt8.ofNat n)
        else .error (.outOfRange (String.ofList (dropCommas word))) := by
  have hbase := base_splitLiteral_le (dropCommas word)
  rw [← number?_splitLiteral, readOperand]
  generalize splitLiteral (dropCommas word) = parts at hbase
  obtain ⟨base, digits⟩ := parts
  cases hnumber : number? base digits with
  | none =>
    have hform : isNumeral base digits = false := by
      simp [← Bool.not_eq_true, isNumeral_iff, hnumber]
    simp [hform]
  | some n =>
    -- all characters are digits, so a byte that is not read has overflowed
    have hform : isNumeral base digits = true := isNumeral_iff.mpr ⟨n, hnumber⟩
    have hread := readByte_of_number? (Nat.lt_of_le_of_lt hbase (by decide)) hnumber
    by_cases hn : n < 256
    · simp [hform, hread, hn]
    · simp [hform, hread, hn]

/-- A decimal numeral is a literal: it has no second character that announces a base. -/
theorem literal?_of_number? {text : List Char} {n : Nat} (h : number? 10 text = some n) :
    literal? text = some n := by
  have hnot : ∀ c ∈ text, c ≠ 'x' ∧ c ≠ 'X' := by
    intro c hc
    obtain ⟨d, hd⟩ := digitIn?_of_mem h hc
    constructor
    · rintro rfl
      exact nomatch hd
    · rintro rfl
      exact nomatch hd
  -- with either mark of a base in second place that mark would have to be a digit
  unfold literal?
  split
  · exact absurd rfl (hnot 'x' (by simp)).1
  · exact absurd rfl (hnot 'X' (by simp)).2
  · exact h

/-- A numeral ends in no comma. -/
theorem dropCommas_of_number? {base : Nat} {text digits : List Char} {n : Nat}
    (h : number? base digits = some n) (hsuffix : digits <:+ text) : dropCommas text = text := by
  obtain ⟨front, rfl⟩ := hsuffix
  have hne : digits ≠ [] := (number?_eq_some_iff.mp h).1
  apply dropCommas_of_getLast?
  rw [List.getLast?_append, List.getLast?_eq_some_getLast hne, Option.some_or]
  intro hlast
  obtain ⟨d, hd⟩ := digitIn?_of_mem h (List.getLast_mem hne)
  exact ne_comma_of_digitIn? hd (Option.some.inj hlast)

/-- Commas behind an operand do not change what is read. -/
@[simp] theorem readOperand_concat_comma (word : List Char) :
    readOperand (word ++ [',']) = readOperand word := by
  rw [readOperand, dropCommas_concat_comma, ← readOperand]

/-- A literal for the value of a byte is read as the byte. -/
theorem readOperand_of_literal? {word : List Char} {b : UInt8} (hdrop : dropCommas word = word)
    (hliteral : literal? word = some b.toNat) : readOperand word = .ok b := by
  rw [readOperand_eq, hdrop, hliteral]
  show (if b.toNat < 256 then _ else _) = _
  rw [if_pos b.toNat_lt, UInt8.ofNat_toNat]

theorem toList_hexLiteral (b : UInt8) :
    (hexLiteral b).toList = '0' :: 'x' :: (hexByte b).toList := by
  simp [hexLiteral]

/-- A byte in hexadecimal is an operand. -/
@[simp] theorem readOperand_hexLiteral (b : UInt8) :
    readOperand (hexLiteral b).toList = .ok b := by
  have hnumber := number?_hexByte b
  rw [toList_hexLiteral]
  apply readOperand_of_literal?
  · exact dropCommas_of_number? hnumber ⟨['0', 'x'], rfl⟩
  · exact hnumber

/-- A byte in decimal is an operand. -/
@[simp] theorem readOperand_decimalByte (b : UInt8) :
    readOperand (decimalByte b).toList = .ok b := by
  have hnumber : number? 10 (decimalByte b).toList = some b.toNat := number?_decimal b.toNat
  apply readOperand_of_literal?
  · exact dropCommas_of_number? hnumber (List.suffix_refl _)
  · exact literal?_of_number? hnumber

end Source

/-! ## The source form as words -/

namespace Instruction

/-- The operands of an instruction in its source form: an identifier in hexadecimal, then a
value in decimal. -/
def operandWords : Instruction → List (List Char)
  | halt => []
  | define id value => [(hexLiteral id).toList ++ [','], (decimalByte value).toList]
  | apply id => [(hexLiteral id).toList]
  | reflect => []

/-- The words of the source form of an instruction. -/
def sourceWords (i : Instruction) : List (List Char) :=
  i.opcode.mnemonic.toList :: i.operandWords

/-- The source form is made of these words, with a space between them. -/
theorem toList_text (i : Instruction) : i.text.toList = [' '].intercalate i.sourceWords := by
  cases i <;> simp [text, sourceWords, operandWords, opcode]

/-- A byte in hexadecimal is a word. -/
theorem isWord_hexLiteral (b : UInt8) : IsWord (hexLiteral b).toList := by
  rw [Source.toList_hexLiteral]
  have hmark : IsWord ['0', 'x'] := isWord_of_all rfl rfl
  refine hmark.append fun c hc => ?_
  obtain ⟨d, hd⟩ := digitIn?_of_mem (number?_hexByte b) hc
  exact isBlank_of_digitIn? hd

/-- A byte in decimal is a word. -/
theorem isWord_decimalByte (b : UInt8) : IsWord (decimalByte b).toList := by
  have hnumber : number? 10 (decimalByte b).toList = some b.toNat := number?_decimal b.toNat
  refine ⟨(number?_eq_some_iff.mp hnumber).1, fun c hc => ?_⟩
  obtain ⟨d, hd⟩ := digitIn?_of_mem hnumber hc
  exact isBlank_of_digitIn? hd

/-- The source form is made of words. -/
theorem isWord_of_mem_sourceWords (i : Instruction) : ∀ w ∈ i.sourceWords, IsWord w := by
  have hmnemonic : ∀ op : Opcode, IsWord op.mnemonic.toList := by
    intro op
    cases op <;> exact isWord_of_all (by decide) (by decide)
  intro w hw
  rcases List.mem_cons.mp hw with rfl | hoperand
  · exact hmnemonic i.opcode
  · cases i with
    | halt => exact nomatch hoperand
    | define id value =>
      simp only [operandWords, List.mem_cons, List.not_mem_nil, or_false] at hoperand
      rcases hoperand with rfl | rfl
      · have hcomma : IsWord [','] := isWord_of_all rfl rfl
        exact (isWord_hexLiteral id).append hcomma.not_blank
      · exact isWord_decimalByte value
    | apply id =>
      obtain rfl := List.mem_singleton.mp hoperand
      exact isWord_hexLiteral id
    | reflect => exact nomatch hoperand

end Instruction

/-! ## Lines -/

namespace Source

/-- A mnemonic opens no comment and names its opcode. -/
theorem readWords_mnemonic (op : Opcode) (operands : List (List Char)) :
    readWords (op.mnemonic.toList :: operands) = (readOperation op operands).map some := by
  have hcomment : opensComment op.mnemonic.toList = false := by
    cases op <;> decide
  have hopcode : Opcode.ofMnemonic? (String.ofList op.mnemonic.toList) = some op := by
    rw [String.ofList_toList, Opcode.ofMnemonic?_eq_some_iff]
    cases op <;> decide
  rw [readWords, hcomment, hopcode]
  rfl

/-- The operands of an instruction in its source form are read as its operand bytes. -/
theorem readOperands_operandWords (i : Instruction) :
    readOperands i.operandWords = .ok i.operands := by
  cases i with
  | halt => rfl
  | define id value =>
    simp only [readOperands, Instruction.operandWords, List.mapM_cons, List.mapM_nil,
      readOperand_concat_comma, readOperand_hexLiteral, readOperand_decimalByte]
    rfl
  | apply id =>
    simp only [readOperands, Instruction.operandWords, List.mapM_cons, List.mapM_nil,
      readOperand_hexLiteral]
    rfl
  | reflect => rfl

/-- The source form of an instruction is read as the instruction. -/
theorem readLine_text (i : Instruction) : readLine i.text.toList = .ok (some i) := by
  rw [readLine, Instruction.toList_text, words_intercalate i.isWord_of_mem_sourceWords,
    Instruction.sourceWords, readWords_mnemonic, readOperation, readOperands_operandWords]
  simp only [Instruction.ofParts?_parts]
  rfl

/-- The source form of an instruction is one line. -/
theorem lines_text_append (i : Instruction) (rest : List Char) :
    lines (i.text.toList ++ '\n' :: rest) = i.text.toList :: lines rest := by
  have hblank : ∀ c ∈ i.text.toList, c = ' ' ∨ isBlank c = false := by
    intro c hc
    rw [Instruction.toList_text] at hc
    exact eq_space_or_not_blank_of_mem i.isWord_of_mem_sourceWords hc
  -- both line break characters are blank, and neither is a space
  apply lines_append_feed
  · intro hmem
    rcases hblank '\n' hmem with h | h <;> exact nomatch h
  · intro hlast
    rcases hblank '\r' (List.mem_of_getLast? hlast) with h | h <;> exact nomatch h

/-! ## Programs -/

/-- Instructions as source text, each on a line of its own. -/
def write (is : List Instruction) : String :=
  String.join (is.map fun i => i.text ++ "\n")

theorem toList_write_cons (i : Instruction) (rest : List Instruction) :
    (write (i :: rest)).toList = i.text.toList ++ '\n' :: (write rest).toList := by
  simp [write]

/-- Instructions on lines of their own are read back in order. -/
theorem instructions_write (is : List Instruction) : instructions (write is) = .ok is := by
  -- the number of the first line occurs in errors only, so it is arbitrary
  have hread : ∀ number, readLines number (lines (write is).toList) = .ok is := by
    induction is with
    | nil => exact fun _ => rfl
    | cons i rest ih =>
      intro number
      rw [toList_write_cons, lines_text_append, readLines, readLine_text]
      simp only [ih (number + 1)]
      rfl
  exact hread 1

/-- Instructions on lines of their own assemble to the program they make up. -/
theorem assemble_write (is : List Instruction) :
    assemble (write is) = .ok (Program.ofInstructions is) := by
  rw [assemble, instructions_write]
  rfl

/-- A disassembly writes down the instructions that a program consists of. -/
theorem disassemble_eq_ok_iff {program : Program} {text : String} :
    program.disassemble = .ok text ↔
      ∃ is, program = Program.ofInstructions is ∧ text = write is := by
  have hwrite : ∀ is, String.join
      ((Located.layout 0 is).map fun item => item.instruction.text ++ "\n") = write is := by
    intro is
    rw [write, ← Located.map_instruction_layout 0 is, List.map_map,
      Located.map_instruction_layout]
    rfl
  rw [Program.disassemble_eq_map_decode]
  constructor
  · intro h
    obtain ⟨items, hdecode, rfl⟩ := map_eq_ok_iff.mp h
    obtain ⟨is, rfl, rfl⟩ := Program.decode_eq_ok_iff.mp hdecode
    exact ⟨is, rfl, hwrite is⟩
  · rintro ⟨is, rfl, rfl⟩
    rw [Program.decode_ofInstructions, ← hwrite is]
    rfl

/-- **Assembling undoes disassembling.**  Whatever bytes a program has, if it can be written
as source text then that text assembles to the same bytes. -/
theorem assemble_disassemble {program : Program} {text : String}
    (h : program.disassemble = .ok text) : assemble text = .ok program := by
  obtain ⟨is, rfl, rfl⟩ := disassemble_eq_ok_iff.mp h
  exact assemble_write is

/-- Operand bytes with the values of opcode bytes do not mislead the walk. -/
theorem assemble_disassemble_opcode_operands :
    let program : Program := [0xE0, 0x05, 0xE1, 0xE1, 0xE0, 0x05, 0xE2]
    let text := "SYMBOL_DEFINE 0x05, 225\nSYMBOL_APPLY 0xE0\nHALT\nMETA_REFLECT\n"
    program.disassemble = .ok text ∧ assemble text = .ok program := by
  intro program text
  have h : program.disassemble = .ok text :=
    disassemble_eq_ok_iff.mpr
      ⟨[.define 0x05 225, .apply 0xE0, .halt, .reflect], by decide, by decide⟩
  exact ⟨h, assemble_disassemble h⟩

end Source

end SymbolicBytecode
