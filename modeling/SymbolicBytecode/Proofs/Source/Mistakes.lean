/-
# Mistakes in source text

Of the mistakes in a source text only one is reported: the first mistake of the first line that
has any.  Within a line the mnemonic comes first, then the operands from left to right, and their
number last of all.

* `FirstError`               : a list is gone through up to the first element that fails;
* `Mistaken`                 : why a word is no operand, by the form of the word;
* `readOperand_exact`        : words of any length are operands, too large or malformed;
* `readOperation_of_firstError`, `readOperation_eq_error_iff` : the mistakes behind a mnemonic;
* `readLine_precedence`      : which mistake of a line is reported;
* `readLines_eq_error_iff`   : lines fail at the first line that fails, with its number;
* `assemble_first_error`     : which line of a text is reported, and what is assembled otherwise.
-/
import SymbolicBytecode.Proofs.Code.Encoding
import SymbolicBytecode.Proofs.Source.Grammar
import SymbolicBytecode.Proofs.Source.Interpretation

namespace SymbolicBytecode

/-! ## The first element that fails -/

/-- The element in the given place fails with the given error, and none before it fails. -/
structure FirstError {α β ε : Type} (f : α → Except ε β) (xs : List α) (place : Nat) (e : ε) :
    Prop where
  fails : ∃ x, xs[place]? = some x ∧ f x = .error e
  before : ∀ k x, k < place → xs[k]? = some x → ∃ b, f x = .ok b

section

variable {α β ε : Type} {f : α → Except ε β} {x : α} {xs : List α} {place : Nat} {e : ε}

theorem not_firstError_nil : ¬ FirstError f [] place e := by
  rintro ⟨⟨x, hx, -⟩, -⟩
  cases hx

theorem firstError_cons_of_error {cause : ε} (h : f x = .error cause) :
    FirstError f (x :: xs) place e ↔ place = 0 ∧ e = cause := by
  constructor
  · rintro ⟨⟨y, hy, hfails⟩, hbefore⟩
    cases place with
    | zero =>
      obtain rfl := Option.some.inj hy
      rw [h] at hfails
      exact ⟨rfl, (Except.error.inj hfails).symm⟩
    | succ k =>
      obtain ⟨b, hb⟩ := hbefore 0 x k.succ_pos rfl
      rw [h] at hb
      cases hb
  · rintro ⟨rfl, rfl⟩
    exact ⟨⟨x, rfl, h⟩, fun k y hk => absurd hk k.not_lt_zero⟩

theorem firstError_cons_of_ok {b : β} (h : f x = .ok b) :
    FirstError f (x :: xs) place e ↔ ∃ k, place = k + 1 ∧ FirstError f xs k e := by
  constructor
  · rintro ⟨⟨y, hy, hfails⟩, hbefore⟩
    cases place with
    | zero =>
      obtain rfl := Option.some.inj hy
      rw [h] at hfails
      cases hfails
    | succ k =>
      refine ⟨k, rfl, ⟨y, hy, hfails⟩, fun j z hj hz => ?_⟩
      exact hbefore (j + 1) z (Nat.succ_lt_succ hj) hz
  · rintro ⟨k, rfl, ⟨y, hy, hfails⟩, hbefore⟩
    refine ⟨⟨y, hy, hfails⟩, fun j z hj hz => ?_⟩
    cases j with
    | zero =>
      obtain rfl := Option.some.inj hz
      exact ⟨b, h⟩
    | succ j => exact hbefore j z (Nat.lt_of_succ_lt_succ hj) hz

/-- If any element fails, there is a first one. -/
theorem exists_firstError (hmem : x ∈ xs) (hfails : f x = .error e) :
    ∃ place cause, FirstError f xs place cause := by
  induction xs with
  | nil => cases hmem
  | cons y ys ih =>
    cases hy : f y with
    | error cause => exact ⟨0, cause, (firstError_cons_of_error hy).mpr ⟨rfl, rfl⟩⟩
    | ok b =>
      have hrest : x ∈ ys := by
        rcases List.mem_cons.mp hmem with rfl | hrest
        · rw [hy] at hfails
          cases hfails
        · exact hrest
      obtain ⟨k, cause, hfirst⟩ := ih hrest
      exact ⟨k + 1, cause, (firstError_cons_of_ok hy).mpr ⟨k, rfl, hfirst⟩⟩

/-- A list of which no element fails has no first one that fails. -/
theorem not_firstError (h : ∀ x ∈ xs, ∃ b, f x = .ok b) : ¬ FirstError f xs place e := by
  rintro ⟨⟨x, hx, hfails⟩, -⟩
  obtain ⟨b, hb⟩ := h x (List.mem_of_getElem? hx)
  rw [hb] at hfails
  cases hfails

/-- Elements that are taken in order fail with the error of the first one that fails. -/
theorem mapM_eq_error_iff : xs.mapM f = .error e ↔ ∃ place, FirstError f xs place e := by
  induction xs with
  | nil =>
    rw [List.mapM_nil]
    exact iff_of_false (fun h => by cases h) (fun ⟨_, h⟩ => not_firstError_nil h)
  | cons x xs ih =>
    rw [List.mapM_cons]
    cases hx : f x with
    | error cause =>
      simp only [firstError_cons_of_error hx, exists_eq_left]
      show Except.error cause = Except.error e ↔ e = cause
      rw [Except.error.injEq, eq_comm]
    | ok b =>
      have hrest : (∃ place, FirstError f (x :: xs) place e) ↔ ∃ k, FirstError f xs k e := by
        simp only [firstError_cons_of_ok hx]
        rw [exists_comm]
        simp only [exists_eq_left]
      rw [hrest, ← ih]
      cases xs.mapM f with
      | error cause => rfl
      | ok bs => exact iff_of_false (fun h => by cases h) (fun h => by cases h)

end

namespace Source

open Text

/-! ## Mistakes in an operand -/

/-- A word of source text denotes some byte. -/
def IsOperand (word : List Char) : Prop :=
  ∃ b, Denotes word b

/-- Why a word is no operand: without its commas it is no literal, or the literal is too large. -/
inductive Mistaken (word : List Char) : OperandError → Prop
  | malformed {raw : List Char} :
    Stripped word raw → (∀ n, ¬ Literal raw n) → Mistaken word (.malformed (String.ofList raw))
  | outOfRange {raw : List Char} {n : Nat} :
    Stripped word raw → Literal raw n → 256 ≤ n → Mistaken word (.outOfRange (String.ofList raw))

/-- A word is not read exactly if there is a reason, and that reason is reported. -/
theorem readOperand_eq_error_iff {word : List Char} {cause : OperandError} :
    readOperand word = .error cause ↔ Mistaken word cause := by
  have hstripped := stripped_dropCommas word
  constructor
  · intro h
    rw [readOperand_eq] at h
    split at h
    · rename_i hnone
      obtain rfl := Except.error.inj h
      refine .malformed hstripped fun n hliteral => ?_
      rw [literal?_eq_some_iff.mpr hliteral] at hnone
      cases hnone
    · rename_i n hsome
      split at h
      · cases h
      · rename_i hlarge
        obtain rfl := Except.error.inj h
        exact .outOfRange hstripped (literal?_eq_some_iff.mp hsome) (Nat.not_lt.mp hlarge)
  · intro h
    cases h with
    | malformed hraw hnone =>
      obtain rfl := dropCommas_eq_iff.mpr hraw
      cases hliteral : literal? (dropCommas word) with
      | none => simp only [readOperand_eq, hliteral]
      | some n => exact absurd (literal?_eq_some_iff.mp hliteral) (hnone n)
    | outOfRange hraw hliteral hlarge =>
      obtain rfl := dropCommas_eq_iff.mpr hraw
      simp only [readOperand_eq, literal?_eq_some_iff.mpr hliteral, if_neg (Nat.not_lt.mpr hlarge)]

theorem isOperand_iff {word : List Char} : IsOperand word ↔ ∃ b, readOperand word = .ok b := by
  simp only [IsOperand, readOperand_eq_ok_iff]

theorem readOperand_eq_outOfRange_iff {word : List Char} {text : String} :
    readOperand word = .error (.outOfRange text) ↔
      text = String.ofList (dropCommas word) ∧ ∃ n, Literal (dropCommas word) n ∧ 256 ≤ n := by
  rw [readOperand_eq_error_iff]
  constructor
  · rintro (_ | ⟨hraw, hliteral, hlarge⟩)
    obtain rfl := dropCommas_eq_iff.mpr hraw
    exact ⟨rfl, _, hliteral, hlarge⟩
  · rintro ⟨rfl, n, hliteral, hlarge⟩
    exact .outOfRange (stripped_dropCommas word) hliteral hlarge

theorem readOperand_eq_malformed_iff {word : List Char} {text : String} :
    readOperand word = .error (.malformed text) ↔
      text = String.ofList (dropCommas word) ∧ ∀ n, ¬ Literal (dropCommas word) n := by
  rw [readOperand_eq_error_iff]
  constructor
  · rintro (⟨hraw, hnone⟩ | _)
    obtain rfl := dropCommas_eq_iff.mpr hraw
    exact ⟨rfl, hnone⟩
  · rintro ⟨rfl, hnone⟩
    exact .malformed (stripped_dropCommas word) hnone

/-- **Operands are read exactly, however long they are.**  Take all commas off the end of a word.
The word is out of range exactly if what is left is a literal, hexadecimal digits behind 0x or 0X or
else decimal digits, for a number that is no byte.  It is read as a byte exactly if it is a literal
for the value of the byte.  It is malformed exactly if it is no literal at all.  Both errors carry
what is left of the word.  For digits that have been looked at, reading them as a byte in the
arithmetic of bytes fails exactly if the number that they denote is no byte, and always by an
overflow. -/
theorem readOperand_exact (word : List Char) :
    ∃ raw, Stripped word raw ∧
      (∀ text, readOperand word = .error (.outOfRange text) ↔
        text = String.ofList raw ∧ ∃ n, Literal raw n ∧ 256 ≤ n) ∧
      (∀ b : UInt8, readOperand word = .ok b ↔ Literal raw b.toNat) ∧
      (∀ text, readOperand word = .error (.malformed text) ↔
        text = String.ofList raw ∧ ∀ n, ¬ Literal raw n) ∧
      ∀ base digits, splitLiteral raw = (base, digits) → isNumeral base digits = true →
        ∃ n, Numeral base digits n ∧ Literal raw n ∧
          ∀ e, readByte base digits = .error e ↔ e = .overflow ∧ 256 ≤ n := by
  refine ⟨dropCommas word, stripped_dropCommas word, fun text => readOperand_eq_outOfRange_iff,
    fun b => ?_, fun text => readOperand_eq_malformed_iff, fun base digits hsplit hform => ?_⟩
  · rw [readOperand_eq_ok_iff]
    simp only [Denotes, ← dropCommas_eq_iff, exists_eq_left']
  · obtain ⟨n, hnumber⟩ := isNumeral_iff.mp hform
    have hliteral : literal? (dropCommas word) = some n := by
      rw [← number?_splitLiteral, hsplit, hnumber]
    have hbase : base ≤ 16 := by
      simpa [hsplit] using base_splitLiteral_le (dropCommas word)
    exact ⟨n, (number?_eq_some_iff_numeral hbase).mp hnumber, literal?_eq_some_iff.mp hliteral,
      fun e => readByte_eq_error_iff (by omega) hnumber⟩

/-- Three hundred, behind zeros and before commas: the lowest eight bits are those of 44, but no byte
is read. -/
theorem readOperand_exact_above_byte :
    let word := "0x0000012C,,".toList
    let raw := "0x0000012C".toList
    let digits := "0000012C".toList
    Stripped word raw ∧ splitLiteral raw = (16, digits) ∧ isNumeral 16 digits = true ∧
      (∃ n, Literal raw n ∧ 256 ≤ n) ∧ ¬ Literal raw 44 ∧
      ∃ n, Numeral 16 digits n ∧ Literal raw n ∧
        ∀ e, readByte 16 digits = .error e ↔ e = .overflow ∧ 256 ≤ n := by
  intro word raw digits
  obtain ⟨raw', hstripped, hrange, hok, -, hbytes⟩ := readOperand_exact word
  obtain rfl : raw = raw' := by
    rw [← dropCommas_eq_iff.mpr hstripped]
    decide +kernel
  have hsplit : splitLiteral raw = (16, digits) := by decide +kernel
  have hform : isNumeral 16 digits = true := by decide +kernel
  have hread : readOperand word = .error (.outOfRange "0x0000012C") := by decide +kernel
  have hnot : ¬ Literal raw 44 := fun h => by
    have hsmall : readOperand word = .ok 44 := (hok 44).mpr h
    rw [hread] at hsmall
    cases hsmall
  exact ⟨hstripped, hsplit, hform, ((hrange _).mp hread).2, hnot, hbytes 16 digits hsplit hform⟩

-- a byte may have a sign, an operand may not
example : readByte 10 ['+', '7'] = .ok 7 ∧ readOperand ['+', '7'] = .error (.malformed "+7") := by
  decide +kernel

/-! ## Mistakes in a line -/

/-- The first word that is no operand decides what is reported, whatever else is wrong. -/
theorem readOperation_of_firstError {ws : List (List Char)} {k : Nat} {cause : OperandError}
    (h : FirstError readOperand ws k cause) (op : Opcode) :
    readOperation op ws = .error (.badOperand cause) := by
  have hread : readOperands ws = .error cause := mapM_eq_error_iff.mpr ⟨k, h⟩
  simp only [readOperation, hread]

/-- If all words are operands, only their number can be wrong. -/
theorem readOperation_eq_error_iff {op : Opcode} {ws : List (List Char)} {e : LineError}
    (h : ∀ w ∈ ws, IsOperand w) :
    readOperation op ws = .error e ↔ e = .operandCount op ws.length ∧ ws.length ≠ op.arity := by
  cases hread : readOperands ws with
  | error cause =>
    obtain ⟨k, hfirst⟩ := mapM_eq_error_iff.mp hread
    exact absurd hfirst (not_firstError fun w hw => isOperand_iff.mp (h w hw))
  | ok bytes =>
    have hlength : ws.length = bytes.length := (readOperands_eq_ok_iff.mp hread).length_eq
    rw [readOperation, hread, hlength, ← Instruction.ofParts?_eq_none_iff]
    cases hparts : Instruction.ofParts? op bytes with
    | none => simp [hparts, eq_comm]
    | some i => simp [hparts]

/-- Behind a mnemonic the opcode is known. -/
theorem readOperation_ne_unknownOpcode (op : Opcode) (ws : List (List Char)) (word : String) :
    readOperation op ws ≠ .error (.unknownOpcode word) := by
  intro h
  rw [readOperation] at h
  split at h
  · cases h
  · split at h <;> cases h

/-- A line that is neither blank nor a comment is read by its first word. -/
theorem readLine_of_spaced {line word : List Char} {ws : List (List Char)}
    (hline : Spaced line (word :: ws)) (hcode : ¬ IsComment word) :
    readLine line =
      match Opcode.ofMnemonic? (String.ofList word) with
      | none => .error (.unknownOpcode (upperCase (String.ofList word)))
      | some op => (readOperation op ws).map some := by
  have hcomment : opensComment word = false :=
    Bool.eq_false_iff.mpr fun h => hcode (opensComment_iff.mp h)
  rw [readLine, words_of_spaced hline, readWords, hcomment]
  rfl

/-- **Which mistake of a line is reported.**  Let a line be neither blank nor a comment.  The opcode
is reported as unknown, in upper case, exactly if the first word is no mnemonic up to the case of
ASCII letters.  If it is one, the first of the other words that is no operand is reported, for what
is wrong with it.  If all of them are operands, nothing is reported but their number, and that
exactly if the opcode takes another. -/
theorem readLine_precedence {line word : List Char} {ws : List (List Char)}
    (hline : Spaced line (word :: ws)) (hcode : ¬ IsComment word) :
    (∀ upper : String, readLine line = .error (.unknownOpcode upper) ↔
      (∀ op : Opcode, ¬ List.Forall₂ SameLetter word op.mnemonic.toList) ∧
        List.Forall₂ Capital word upper.toList) ∧
    ∀ op : Opcode, List.Forall₂ SameLetter word op.mnemonic.toList →
      (∀ (k : Nat) w, ws[k]? = some w → ¬ IsOperand w →
        (∀ (j : Nat) v, j < k → ws[j]? = some v → IsOperand v) →
        ∃ cause, Mistaken w cause ∧ readLine line = .error (.badOperand cause)) ∧
      ((∀ w ∈ ws, IsOperand w) → ∀ e, readLine line = .error e ↔
        e = .operandCount op ws.length ∧ ws.length ≠ op.arity) := by
  rw [readLine_of_spaced hline hcode]
  simp only [← ofMnemonic?_ofList_iff]
  constructor
  · intro upper
    cases hname : Opcode.ofMnemonic? (String.ofList word) with
    | none =>
      have hupper : upperCase (String.ofList word) = upper ↔
          List.Forall₂ Capital word upper.toList := by
        rw [upperCase_eq_iff, String.toList_ofList]
      simp [← hupper]
    | some op =>
      refine iff_of_false (fun h => ?_) (fun h => h.1 op rfl)
      exact readOperation_ne_unknownOpcode op ws upper (map_eq_error_iff.mp h)
  · -- behind a mnemonic only the operands can be wrong
    intro op hname
    rw [hname]
    refine ⟨fun k w hw hwrong hbefore => ?_, fun hall e => ?_⟩
    · cases hread : readOperand w with
      | ok b => exact absurd (isOperand_iff.mpr ⟨b, hread⟩) hwrong
      | error cause =>
        have hfirst : FirstError readOperand ws k cause :=
          ⟨⟨w, hw, hread⟩, fun j v hj hv => isOperand_iff.mp (hbefore j v hj hv)⟩
        refine ⟨cause, readOperand_eq_error_iff.mp hread, ?_⟩
        exact map_eq_error_iff.mpr (readOperation_of_firstError hfirst op)
    · exact map_eq_error_iff.trans (readOperation_eq_error_iff hall)

/-- A second operand that is no literal, a third that is too large and one operand too many: the
second operand is reported. -/
theorem readLine_precedence_three_mistakes :
    let line := "\tsymbol_define 07, 0x1G,, 256".toList
    let word := "symbol_define".toList
    let ws := ["07,".toList, "0x1G,,".toList, "256".toList]
    Spaced line (word :: ws) ∧ ¬ IsComment word ∧
      List.Forall₂ SameLetter word (Opcode.mnemonic .define).toList ∧
      ws[1]? = some "0x1G,,".toList ∧ ¬ IsOperand "0x1G,,".toList ∧ IsOperand "07,".toList ∧
      ∃ cause, Mistaken "0x1G,,".toList cause ∧ readLine line = .error (.badOperand cause) := by
  intro line word ws
  have hline : Spaced line (word :: ws) := words_eq_iff.mp (by decide +kernel)
  have hcode : ¬ IsComment word := fun h => by
    have hopens := opensComment_iff.mpr h
    cases hopens
  have hname : List.Forall₂ SameLetter word (Opcode.mnemonic .define).toList :=
    ofMnemonic?_ofList_iff.mp (by decide +kernel)
  have hwrong : ¬ IsOperand "0x1G,,".toList := fun h => by
    obtain ⟨b, hb⟩ := isOperand_iff.mp h
    cases hb
  have hright : IsOperand "07,".toList := isOperand_iff.mpr ⟨7, by decide +kernel⟩
  have hbefore : ∀ j v, j < 1 → ws[j]? = some v → IsOperand v := by
    intro j v hj hv
    obtain rfl : j = 0 := by omega
    obtain rfl := Option.some.inj hv
    exact hright
  exact ⟨hline, hcode, hname, rfl, hwrong, hright,
    ((readLine_precedence hline hcode).2 .define hname).1 1 _ rfl hwrong hbefore⟩

/-! ## Mistakes in a text -/

/-- Lines fail exactly at the first line that fails, and its number is reported. -/
theorem readLines_eq_error_iff {number : Nat} {lines : List (List Char)} {e : AssembleError} :
    readLines number lines = .error e ↔
      ∃ k, e.line = number + k ∧ FirstError readLine lines k e.cause := by
  induction lines generalizing number with
  | nil => exact iff_of_false (fun h => by cases h) (fun ⟨_, _, h⟩ => not_firstError_nil h)
  | cons line rest ih =>
    -- a line that is read moves the first that fails one line down
    have hshift : ∀ {held}, readLine line = .ok held →
        ((∃ k, e.line = number + k ∧ FirstError readLine (line :: rest) k e.cause) ↔
          ∃ k, e.line = number + 1 + k ∧ FirstError readLine rest k e.cause) := by
      intro held hread
      simp only [firstError_cons_of_ok hread]
      constructor
      · rintro ⟨_, hnumber, k, rfl, hfirst⟩
        exact ⟨k, by omega, hfirst⟩
      · rintro ⟨k, hnumber, hfirst⟩
        exact ⟨k + 1, by omega, k, rfl, hfirst⟩
    rw [readLines]
    split
    · rename_i cause hread
      simp only [firstError_cons_of_error hread]
      constructor
      · intro h
        obtain rfl := Except.error.inj h
        exact ⟨0, rfl, rfl, rfl⟩
      · rintro ⟨_, hnumber, rfl, hcause⟩
        rw [← hcause, ← Nat.add_zero number, ← hnumber]
    · rename_i hread
      rw [ih, hshift hread]
    · rename_i i hread
      rw [map_eq_error_iff, ih, hshift hread]

/-- Lines are read exactly if every one of them is, and then as the instructions that they hold. -/
theorem readLines_eq_ok_iff_held {number : Nat} {lines : List (List Char)}
    {is : List Instruction} :
    readLines number lines = .ok is ↔
      (∀ line ∈ lines, ∃ held, readLine line = .ok held) ∧ is = lines.filterMap held? := by
  constructor
  · intro h
    refine ⟨fun line hmem => ?_, readLines_eq_ok h⟩
    cases hread : readLine line with
    | ok held => exact ⟨held, rfl⟩
    | error cause =>
      obtain ⟨k, cause', hfirst⟩ := exists_firstError hmem hread
      have hfails : readLines number lines = .error ⟨number + k, cause'⟩ :=
        readLines_eq_error_iff.mpr ⟨k, rfl, hfirst⟩
      rw [hfails] at h
      cases h
  · rintro ⟨hall, rfl⟩
    cases hread : readLines number lines with
    | ok is => rw [readLines_eq_ok hread]
    | error e =>
      obtain ⟨k, -, hfirst⟩ := readLines_eq_error_iff.mp hread
      exact absurd hfirst (not_firstError hall)

/-- **Which line of a text is reported.**  Assembling a text reports a line by its number, counted
from one over all lines, exactly if that line cannot be read, for the cause that is reported, and
every line before it can.  It gives a program exactly if every line can be read: the byte forms of
the instructions on the lines that hold one, one behind the other, and nothing else. -/
theorem assemble_first_error (source : String) :
    let lines := Text.lines source.toList
    (∀ number cause, assemble source = .error ⟨number, cause⟩ ↔
      ∃ k line, number = k + 1 ∧ lines[k]? = some line ∧ readLine line = .error cause ∧
        ∀ j earlier, j < k → lines[j]? = some earlier → ∃ held, readLine earlier = .ok held) ∧
    ∀ program,
      (assemble source = .ok program ↔
        (∀ line ∈ lines, ∃ held, readLine line = .ok held) ∧
          program = (lines.filterMap held?).flatMap Instruction.encode) ∧
      (assemble source = .ok program →
        program.length = ((lines.filterMap held?).map Instruction.size).sum) := by
  intro lines
  have hok : ∀ program, assemble source = .ok program ↔
      (∀ line ∈ lines, ∃ held, readLine line = .ok held) ∧
        program = (lines.filterMap held?).flatMap Instruction.encode := by
    intro program
    rw [assemble, instructions, map_eq_ok_iff]
    simp only [readLines_eq_ok_iff_held]
    constructor
    · rintro ⟨_, ⟨hall, rfl⟩, rfl⟩
      exact ⟨hall, rfl⟩
    · rintro ⟨hall, rfl⟩
      exact ⟨_, ⟨hall, rfl⟩, rfl⟩
  refine ⟨fun number cause => ?_, fun program => ⟨hok program, fun h => ?_⟩⟩
  · rw [assemble, instructions, map_eq_error_iff, readLines_eq_error_iff]
    constructor
    · rintro ⟨k, hnumber, ⟨line, hline, hread⟩, hbefore⟩
      exact ⟨k, line, hnumber.trans (Nat.add_comm 1 k), hline, hread, hbefore⟩
    · rintro ⟨k, line, hnumber, hline, hread, hbefore⟩
      exact ⟨k, hnumber.trans (Nat.add_comm k 1), ⟨line, hline, hread⟩, hbefore⟩
  · rw [((hok program).mp h).2]
    exact Program.length_ofInstructions (lines.filterMap held?)

/-- Lines that hold nothing are counted, so the first mistake stands on the fourth line, and they
leave no byte. -/
theorem assemble_first_error_behind_blank_lines :
    let source := "halt\n\n# lookup\nsymbol_apply 1 2\r\nbogus"
    let other := "symbol_define 1, 0x0A\n\n# end\nhalt"
    assemble source = .error ⟨4, .operandCount .apply 2⟩ ∧
      (∃ k line, 4 = k + 1 ∧ (Text.lines source.toList)[k]? = some line ∧
        readLine line = .error (.operandCount .apply 2) ∧
        ∀ j earlier, j < k → (Text.lines source.toList)[j]? = some earlier →
          ∃ held, readLine earlier = .ok held) ∧
      assemble other = .ok [0xE0, 1, 10, 0x05] ∧
      4 = (((Text.lines other.toList).filterMap held?).map Instruction.size).sum := by
  have hsource : assemble "halt\n\n# lookup\nsymbol_apply 1 2\r\nbogus" =
      .error ⟨4, .operandCount .apply 2⟩ := by rfl
  have hother : assemble "symbol_define 1, 0x0A\n\n# end\nhalt" = .ok [0xE0, 1, 10, 0x05] := by rfl
  intro source other
  exact ⟨hsource, ((assemble_first_error source).1 4 _).mp hsource, hother,
    ((assemble_first_error other).2 _).2 hother⟩

end Source

end SymbolicBytecode
