/-
# The grammar of a line

Which lines of source text hold an instruction, and which instruction it is, said by the form
of the line:

* `Stripped`, `Literal` : an operand is a literal, with any number of commas behind it;
* `readOperand_eq_ok_iff` : the bytes that words denote are the bytes that are read;
* `readLine_eq_none_iff`, `readLine_eq_some_iff` : what a line holds, by its words;
* `readTrimmed_eq` : a line may be trimmed first, and comments told by the start of what is left;
* `readLine_grammar` : the reader of lines accepts exactly the lines of the grammar.
-/
import SymbolicBytecode.Proofs.Source.Disassembly
import SymbolicBytecode.Proofs.Text.Grammar

namespace SymbolicBytecode.Source

open Text

/-! ## Operands -/

/-- A word without all the commas at its end. -/
def Stripped (word raw : List Char) : Prop :=
  (∃ k, word = raw ++ List.replicate k ',') ∧ raw.getLast? ≠ some ','

/-- A number in source text: hexadecimal digits behind a mark, or decimal digits. -/
inductive Literal : List Char → Nat → Prop
  | hexadecimal {mark : Char} {digits : List Char} {n : Nat} :
    mark = 'x' ∨ mark = 'X' → Numeral 16 digits n → Literal ('0' :: mark :: digits) n
  | decimal {digits : List Char} {n : Nat} : Numeral 10 digits n → Literal digits n

/-- A word of source text denotes a byte: without its commas it is a literal for its value. -/
def Denotes (word : List Char) (b : UInt8) : Prop :=
  ∃ raw, Stripped word raw ∧ Literal raw b.toNat

/-- What is left of a word when its commas are dropped is the word without its commas. -/
theorem stripped_dropCommas (word : List Char) : Stripped word (dropCommas word) := by
  induction word using List.reverseRecOn with
  | nil => exact ⟨⟨0, rfl⟩, by simp [dropCommas]⟩
  | append_singleton word c ih =>
    by_cases hc : c = ','
    · subst hc
      obtain ⟨⟨k, hk⟩, hlast⟩ := ih
      rw [dropCommas_concat_comma]
      refine ⟨⟨k + 1, ?_⟩, hlast⟩
      rw [List.replicate_succ', ← List.append_assoc, ← hk]
    · have hlast : (word ++ [c]).getLast? ≠ some ',' := by simpa using hc
      rw [dropCommas_of_getLast? hlast]
      exact ⟨⟨0, (List.append_nil _).symm⟩, hlast⟩

/-- There is only one way to take all commas off a word. -/
theorem dropCommas_eq_iff {word raw : List Char} : dropCommas word = raw ↔ Stripped word raw := by
  constructor
  · rintro rfl
    exact stripped_dropCommas word
  · rintro ⟨⟨k, rfl⟩, hlast⟩
    induction k with
    | zero =>
      rw [List.replicate_zero, List.append_nil]
      exact dropCommas_of_getLast? hlast
    | succ k ih => rw [List.replicate_succ', ← List.append_assoc, dropCommas_concat_comma, ih]

/-- A text is read as a literal exactly if it has the form of one. -/
theorem literal?_eq_some_iff {raw : List Char} {n : Nat} :
    literal? raw = some n ↔ Literal raw n := by
  constructor
  · intro h
    unfold literal? at h
    split at h
    · exact .hexadecimal (Or.inl rfl) ((number?_eq_some_iff_numeral (by decide)).mp h)
    · exact .hexadecimal (Or.inr rfl) ((number?_eq_some_iff_numeral (by decide)).mp h)
    · exact .decimal ((number?_eq_some_iff_numeral (by decide)).mp h)
  · intro h
    cases h with
    | hexadecimal hmark hdigits =>
      have hnumber := (number?_eq_some_iff_numeral (by decide)).mpr hdigits
      rcases hmark with rfl | rfl
      · exact hnumber
      · exact hnumber
    | decimal hdigits =>
      exact literal?_of_number? ((number?_eq_some_iff_numeral (by decide)).mpr hdigits)

/-- A word is read as the byte that it denotes. -/
theorem readOperand_eq_ok_iff {word : List Char} {b : UInt8} :
    readOperand word = .ok b ↔ Denotes word b := by
  have hdenotes : Denotes word b ↔ literal? (dropCommas word) = some b.toNat := by
    simp only [Denotes, ← dropCommas_eq_iff, ← literal?_eq_some_iff, exists_eq_left']
  rw [hdenotes, readOperand_eq]
  cases literal? (dropCommas word) with
  | none => simp
  | some n =>
    by_cases hn : n < 256
    · simp only [hn, if_true, Except.ok.injEq, Option.some.injEq]
      constructor
      · rintro rfl
        exact (UInt8.toNat_ofNat_of_lt hn).symm
      · rintro rfl
        exact UInt8.ofNat_toNat
    · have hne : n ≠ b.toNat := fun heq => hn (heq ▸ b.toNat_lt)
      simp [hn, hne]

/-- Words are read as the bytes that they denote, one by one. -/
theorem readOperands_eq_ok_iff {ws : List (List Char)} {bytes : List UInt8} :
    readOperands ws = .ok bytes ↔ List.Forall₂ Denotes ws bytes := by
  have hread : Denotes = fun word b => readOperand word = .ok b := by
    funext word b
    exact propext readOperand_eq_ok_iff.symm
  rw [hread]
  exact mapM_eq_pure_iff bind_eq_ok_iff ⟨Except.ok.inj, congrArg Except.ok⟩

/-! ## Lines by their words -/

/-- A word that makes the line a comment: it starts with two slashes or a number sign. -/
def IsComment (word : List Char) : Prop :=
  ['/', '/'] <+: word ∨ ['#'] <+: word

theorem opensComment_iff {word : List Char} : opensComment word = true ↔ IsComment word := by
  unfold opensComment IsComment
  split
  · simp
  · simp
  · rename_i hhash hslashes
    simp only [Bool.false_eq_true, false_iff, not_or]
    constructor
    · rintro ⟨rest, rfl⟩
      exact hslashes rest rfl
    · rintro ⟨rest, rfl⟩
      exact hhash rest rfl

/-- Tells whether a line is neither blank nor a comment. -/
def isCode (line : List Char) : Bool :=
  match words line with
  | [] => false
  | word :: _ => !opensComment word

/-- An opcode and words make an instruction exactly if it has this opcode and the words are
read as its operands. -/
theorem readOperation_eq_ok_iff {op : Opcode} {ws : List (List Char)} {i : Instruction} :
    readOperation op ws = .ok i ↔ i.opcode = op ∧ readOperands ws = .ok i.operands := by
  unfold readOperation
  cases readOperands ws with
  | error cause => simp
  | ok bytes =>
    rw [Except.ok.injEq, eq_comm (a := bytes), ← Instruction.ofParts?_eq_some_iff]
    cases hparts : Instruction.ofParts? op bytes with
    | none => simp [hparts]
    | some j => simp [hparts]

/-- A line holds nothing exactly if it is blank or a comment. -/
theorem readLine_eq_none_iff {line : List Char} :
    readLine line = .ok none ↔ isCode line = false := by
  unfold readLine isCode
  cases words line with
  | nil => simp [readWords]
  | cons word ws =>
    cases hcomment : opensComment word with
    | true => simp [readWords, hcomment]
    | false =>
      -- what a mnemonic stands in front of is an instruction or an error
      have hsome : readWords (word :: ws) ≠ .ok none := by
        rw [readWords, hcomment]
        intro h
        simp only [Bool.false_eq_true, if_false] at h
        split at h
        · cases h
        · obtain ⟨i, -, hi⟩ := map_eq_ok_iff.mp h
          cases hi
      simp [hsome, hcomment]

/-- A line holds an instruction exactly if its first word opens no comment and names the opcode,
and its other words are read as the operands. -/
theorem readLine_eq_some_iff {line : List Char} {i : Instruction} :
    readLine line = .ok (some i) ↔
      ∃ word ws, words line = word :: ws ∧ opensComment word = false ∧
        Opcode.ofMnemonic? (String.ofList word) = some i.opcode ∧
        readOperands ws = .ok i.operands := by
  unfold readLine
  cases words line with
  | nil => simp [readWords]
  | cons word ws =>
    simp only [readWords, List.cons.injEq]
    constructor
    · intro h
      split at h
      · cases h
      · rename_i hcomment
        split at h
        · cases h
        · rename_i op hop
          obtain ⟨j, hread, hj⟩ := map_eq_ok_iff.mp h
          obtain rfl := Option.some.inj hj
          obtain ⟨rfl, hoperands⟩ := readOperation_eq_ok_iff.mp hread
          exact ⟨word, ws, ⟨rfl, rfl⟩, Bool.eq_false_iff.mpr hcomment, hop, hoperands⟩
    · rintro ⟨_, _, ⟨rfl, rfl⟩, hcomment, hop, hoperands⟩
      have hread := readOperation_eq_ok_iff.mpr ⟨rfl, hoperands⟩
      simp [hcomment, hop, hread, Except.map]

/-! ## Trimmed lines -/

/-- A text that starts with no blank opens a comment exactly if its first word does. -/
theorem opensComment_of_spaced {text word : List Char} {ws : List (List Char)}
    (h : Spaced text (word :: ws)) (hstart : ∀ c rest, text = c :: rest → isBlank c = false) :
    opensComment text = opensComment word := by
  cases h with
  | blank hblank hrest =>
    rw [hstart _ _ rfl] at hblank
    cases hblank
  | last hword => rfl
  | @word _ c _ _ hword hblank hrest =>
    -- the blank behind the word is no slash, so it makes no mark with the word
    have hslash : c ≠ '/' := by
      rintro rfl
      cases hblank
    rw [Bool.eq_iff_iff, opensComment_iff, opensComment_iff]
    unfold IsComment
    rcases word with _ | ⟨a, _ | ⟨b, word⟩⟩
    · exact absurd rfl hword.ne_nil
    · simp [hslash.symm]
    · simp

/-- Reads a line that is trimmed first.  It holds nothing if nothing is left of it or what is left
starts like a comment; otherwise the first word is the mnemonic and the others are the operands. -/
def readTrimmed (line : List Char) : Except LineError (Option Instruction) :=
  let text := trim line
  if text.isEmpty || opensComment text then .ok none
  else
    match words text with
    | [] => .ok none
    | word :: operands =>
      match Opcode.ofMnemonic? (String.ofList word) with
      | none => .error (.unknownOpcode (upperCase (String.ofList word)))
      | some opcode => (readOperation opcode operands).map some

/-- **Trimming a line first changes nothing**, and neither does looking for the marks of a comment
at the start of the trimmed line instead of its first word. -/
theorem readTrimmed_eq (line : List Char) : readTrimmed line = readLine line := by
  have hspaced : Spaced (trim line) (words line) := words_eq_iff.mp (words_trim line)
  have hstart : ∀ c rest, trim line = c :: rest → isBlank c = false :=
    fun c rest => not_blank_of_trim
  unfold readTrimmed readLine
  simp only [words_trim]
  rcases hwords : words line with _ | ⟨word, ws⟩
  · simp [readWords]
  · have hne : (trim line).isEmpty = false := by
      rw [List.isEmpty_eq_false_iff]
      intro hnil
      rw [← words_trim, hnil, words_nil] at hwords
      cases hwords
    rw [hwords] at hspaced
    simp only [hne, Bool.false_or, opensComment_of_spaced hspaced hstart]
    rfl

/-! ## Lines by their form -/

/-- A word names an opcode exactly if it is the mnemonic up to the case of its ASCII letters. -/
theorem ofMnemonic?_ofList_iff {word : List Char} {op : Opcode} :
    Opcode.ofMnemonic? (String.ofList word) = some op ↔
      List.Forall₂ SameLetter word op.mnemonic.toList := by
  -- the mnemonics themselves are written in upper case
  have hupper : op.mnemonic.toList.map Char.toUpper = op.mnemonic.toList := by
    cases op <;> decide
  rw [Opcode.ofMnemonic?_eq_some_iff, ← map_toUpper_eq_iff, hupper, ← String.toList_inj,
    toList_upperCase, String.toList_ofList]
  exact eq_comm

/-- **The reader of lines accepts exactly its grammar.**  A line holds nothing if and only if it
has no word or its first word starts with two slashes or a number sign.  It holds an instruction
if and only if it is no such line, its first word is the mnemonic up to the case of ASCII
letters, and the words behind it are as many as the opcode takes and denote the operands in
order. -/
theorem readLine_grammar (line : List Char) :
    (readLine line = .ok none ↔
      Spaced line [] ∨ ∃ word ws, Spaced line (word :: ws) ∧ IsComment word) ∧
    ∀ i : Instruction, readLine line = .ok (some i) ↔
      ∃ word ws, Spaced line (word :: ws) ∧ ¬ IsComment word ∧
        List.Forall₂ SameLetter word i.opcode.mnemonic.toList ∧
        ws.length = i.opcode.arity ∧ List.Forall₂ Denotes ws i.operands := by
  constructor
  · rw [readLine_eq_none_iff, isCode]
    simp only [← words_eq_iff, ← opensComment_iff]
    cases words line with
    | nil => simp
    | cons word ws => simp
  · intro i
    rw [readLine_eq_some_iff]
    simp only [← words_eq_iff, ← opensComment_iff, Bool.not_eq_true, ofMnemonic?_ofList_iff,
      readOperands_eq_ok_iff]
    constructor
    · rintro ⟨word, ws, hwords, hcomment, hmnemonic, hoperands⟩
      have hlength : ws.length = i.opcode.arity := by
        rw [hoperands.length_eq, Instruction.length_operands]
      exact ⟨word, ws, hwords, hcomment, hmnemonic, hlength, hoperands⟩
    · rintro ⟨word, ws, hwords, hcomment, hmnemonic, -, hoperands⟩
      exact ⟨word, ws, hwords, hcomment, hmnemonic, hoperands⟩

end SymbolicBytecode.Source
