/-
# A program read call by call

A cursor can be asked for the next instruction any number of times, also when it has come to the
end or has met a fault.  Whatever the program, its answers follow one script: instructions one
behind the other, then the fault if there is one, and from then on nothing.

A cursor carries the bytes it has not read yet.  A scanner keeps the whole program instead and
reads it by index, which goes wrong outside the program.  The two move in step, so a scanner never
reads there:

* `Cursor.exists_script` : the script that the answers of a cursor follow;
* `Program.readAt?_eq`   : reading by index finds what stands at the front of the bytes behind;
* `Scanner.next?_eq`     : one call of a scanner is one call of its cursor, inside the program;
* `Scanner.run?_eq`      : the same for any number of calls;
* `Cursor.reports_scripted` : the answers and the offsets of any number of calls.
-/
import Mathlib.Data.List.TakeDrop
import SymbolicBytecode.Proofs.Code.Encoding
import SymbolicBytecode.Proofs.Code.Faults

namespace SymbolicBytecode

/-! ## The answers of a cursor -/

namespace Cursor

/-- The cursor after the given number of calls of `next`. -/
def after : Nat → Cursor → Cursor
  | 0, cursor => cursor
  | calls + 1, cursor => after calls cursor.next.2

/-- The answers that report the given items and then a fault, if there is one. -/
def script (items : List Located) (fault? : Option DecodeError) : List Item :=
  items.map (fun item => some (.ok item)) ++ fault?.toList.map fun fault => some (.error fault)

@[simp] theorem script_cons (item : Located) (items : List Located)
    (fault? : Option DecodeError) :
    script (item :: items) fault? = some (.ok item) :: script items fault? := rfl

/-- Behind a fault there is nothing left to read. -/
theorem rest_of_fault {cursor after : Cursor} {cause : DecodeError}
    (h : cursor.next = (some (.error cause), after)) : after.rest = [] := by
  rw [next] at h
  split at h
  · cases h
  · cases h
  · obtain ⟨-, rfl⟩ := Prod.mk.inj h
    rfl
  · obtain ⟨-, rfl⟩ := Prod.mk.inj h
    rfl

/-- A cursor with nothing left to read reports the end, call after call. -/
theorem reports_of_rest_eq_nil {cursor : Cursor} (h : cursor.rest = []) (calls : Nat) :
    cursor.reports calls = List.replicate calls none := by
  obtain ⟨offset, bytes⟩ := cursor
  obtain rfl : bytes = [] := h
  induction calls with
  | zero => rfl
  | succ calls ih => rw [reports, next_nil, ih, List.replicate_succ]

/-- **The answers of a cursor follow a script.**  It reports the whole instructions in front of it,
then a fault exactly if something else is left behind them, and then the end for ever. -/
theorem exists_script (cursor : Cursor) :
    ∃ is rest fault?, cursor.rest = Program.ofInstructions is ++ rest ∧
      (fault?.isSome ↔ rest ≠ []) ∧
      (∀ fault ∈ fault?, fault.offset = cursor.offset + Instruction.totalSize is) ∧
      ∀ calls, cursor.reports calls =
        (script (Located.layout cursor.offset is) fault?).takeD calls none := by
  induction cursor using readingInduction with
  | finished offset =>
    refine ⟨[], [], none, rfl, by simp, by simp, fun calls => ?_⟩
    rw [reports_of_rest_eq_nil rfl]
    exact (List.takeD_nil calls none).symm
  | fault cursor after cause hnext =>
    obtain ⟨hoffset, hne⟩ := offset_of_fault hnext
    refine ⟨[], cursor.rest, some cause, rfl, by simpa using hne, ?_, fun calls => ?_⟩
    · intro fault hmem
      obtain rfl := Option.some.inj hmem
      exact hoffset
    · cases calls with
      | zero => rfl
      | succ calls =>
        rw [reports, hnext, reports_of_rest_eq_nil (rest_of_fault hnext)]
        show _ :: List.replicate calls none = _ :: List.takeD calls [] none
        rw [List.takeD_nil]
        rfl
  | item offset i bytes ih =>
    obtain ⟨is, rest, fault?, hbytes, hfault, hoffset, hreports⟩ := ih
    simp only at hbytes hoffset hreports
    refine ⟨i :: is, rest, fault?, ?_, hfault, ?_, fun calls => ?_⟩
    · rw [Program.ofInstructions_cons, List.append_assoc, ← hbytes]
    · intro fault hmem
      rw [hoffset fault hmem, Instruction.totalSize_cons, Nat.add_assoc]
    · cases calls with
      | zero => rfl
      | succ calls =>
        rw [reports, next_encode_append, hreports calls, Located.layout_cons, script_cons]
        rfl

end Cursor

/-! ## Reading by index -/

namespace Program

/-- The stretch with the given start and number of bytes, if it lies inside the program. -/
def stretch? (program : Program) (start count : Nat) : Option (List UInt8) :=
  if start + count ≤ program.length then some ((program.drop start).take count) else none

/-- Reads the instruction with its opcode byte at the offset; there is no result if the offset lies
outside the program. -/
def readAt? (program : Program) (offset : Nat) : Option (Except DecodeError Instruction) :=
  match program[offset]? with
  | none => none
  | some byte =>
    match Opcode.ofByte? byte with
    | none => some (.error (.invalidOpcode byte offset))
    | some op =>
      match (program.stretch? (offset + 1) op.arity).bind (Instruction.ofParts? op) with
      | none => some (.error (.truncated op offset))
      | some i => some (.ok i)

/-- A stretch that reaches beyond the end of the program makes no instruction, and neither do the
bytes that are left of it. -/
theorem bind_stretch? {program : Program} {start : Nat} (h : start ≤ program.length)
    (op : Opcode) :
    (program.stretch? start op.arity).bind (Instruction.ofParts? op) =
      Instruction.ofParts? op ((program.drop start).take op.arity) := by
  by_cases hinside : start + op.arity ≤ program.length
  · rw [stretch?, if_pos hinside]
    rfl
  · have hlength : ((program.drop start).take op.arity).length ≠ op.arity := by
      rw [List.length_take, List.length_drop]
      omega
    rw [stretch?, if_neg hinside, Instruction.ofParts?_eq_none_iff.mpr hlength]
    rfl

/-- **Reading by index** finds what stands at the front of the bytes from the offset on. -/
theorem readAt?_eq (program : Program) (offset : Nat) :
    program.readAt? offset =
      match Front.of (program.drop offset) with
      | .finished => none
      | .found i _ => some (.ok i)
      | .unassigned b => some (.error (.invalidOpcode b offset))
      | .cutShort op => some (.error (.truncated op offset)) := by
  have hbyte : program[offset]? = (program.drop offset).head? := List.head?_drop.symm
  have hbehind : program.drop (offset + 1) = (program.drop offset).tail := List.tail_drop.symm
  rw [readAt?, hbyte]
  cases hdrop : program.drop offset with
  | nil => rfl
  | cons b tail =>
    have hstart : offset + 1 ≤ program.length := by
      have hlength := congrArg List.length hdrop
      rw [List.length_drop, List.length_cons] at hlength
      omega
    rw [hdrop, List.tail_cons] at hbehind
    simp only [List.head?_cons, bind_stretch? hstart, hbehind, Front.of]
    cases Opcode.ofByte? b with
    | none => rfl
    | some op =>
      dsimp only
      cases Instruction.ofParts? op (tail.take op.arity) <;> rfl

end Program

/-! ## Scanners -/

/-- A reader that keeps the whole program and reads it by index. -/
structure Scanner where
  program : Program
  /-- The place of the instruction to be read next. -/
  offset : Nat
  /-- Whether a fault was met. -/
  failed : Bool
  deriving DecidableEq, Repr

namespace Scanner

/-- The scanner at the start of a program. -/
def start (program : Program) : Scanner :=
  ⟨program, 0, false⟩

/-- What one call reports, and the scanner after it; there is no result if the call reads outside
the program. -/
def next? (s : Scanner) : Option (Cursor.Item × Scanner) :=
  if s.failed || s.program.length ≤ s.offset then some (none, s)
  else
    match s.program.readAt? s.offset with
    | none => none
    | some (.ok i) => some (some (.ok ⟨s.offset, i⟩), { s with offset := s.offset + i.size })
    | some (.error fault) => some (some (.error fault), { s with failed := true })

/-- The reports of the given number of calls, and the scanner after them. -/
def run? : Nat → Scanner → Option (List Cursor.Item × Scanner)
  | 0, s => some ([], s)
  | calls + 1, s => do
    let (item, after) ← s.next?
    let (items, last) ← run? calls after
    return (item :: items, last)

/-- The cursor at the place of a scanner. -/
def cursor (s : Scanner) : Cursor :=
  ⟨s.offset, if s.failed then [] else s.program.drop s.offset⟩

@[simp] theorem cursor_start (program : Program) : (start program).cursor = .start program := rfl

/-- **A call of a scanner is a call of its cursor.**  It reads inside the program only, and it
leaves the scanner there. -/
theorem next?_eq {s : Scanner} (hinside : s.offset ≤ s.program.length) :
    ∃ after, s.next? = some (s.cursor.next.1, after) ∧ after.cursor = s.cursor.next.2 ∧
      after.program = s.program ∧ after.offset ≤ s.program.length := by
  obtain ⟨program, offset, failed⟩ := s
  simp only at hinside
  cases failed with
  | true => exact ⟨⟨program, offset, true⟩, rfl, rfl, rfl, hinside⟩
  | false =>
    by_cases hend : program.length ≤ offset
    · have hdrop : program.drop offset = [] := List.drop_eq_nil_iff.mpr hend
      refine ⟨⟨program, offset, false⟩, ?_, ?_, rfl, hinside⟩
      · simp [next?, cursor, hend, hdrop]
      · simp [cursor, hdrop]
    · have hcursor : cursor ⟨program, offset, false⟩ = ⟨offset, program.drop offset⟩ := rfl
      rw [hcursor, Cursor.next, next?, Program.readAt?_eq]
      simp only [Bool.false_or, hend, decide_false, Bool.false_eq_true, if_false]
      -- an instruction that was found lies inside the program with all its bytes
      cases hfront : Front.of (program.drop offset) with
      | finished =>
        rw [Front.of_eq_finished_iff, List.drop_eq_nil_iff] at hfront
        exact absurd hfront hend
      | found i rest =>
        have hlength := Front.length_of_found hfront
        have hrest : program.drop (offset + i.size) = rest := by
          rw [← List.drop_drop, Front.of_eq_found_iff.mp hfront, ← Instruction.length_encode,
            List.drop_left]
        rw [List.length_drop] at hlength
        refine ⟨_, rfl, ?_, rfl, ?_⟩
        · simp [cursor, hrest]
        · show offset + i.size ≤ program.length
          omega
      | unassigned b => exact ⟨_, rfl, rfl, rfl, hinside⟩
      | cutShort op => exact ⟨_, rfl, rfl, rfl, hinside⟩

/-- Any number of calls of a scanner are the calls of its cursor, and never leave the program. -/
theorem run?_eq (calls : Nat) {s : Scanner} (hinside : s.offset ≤ s.program.length) :
    ∃ last, s.run? calls = some (s.cursor.reports calls, last) ∧
      last.cursor = s.cursor.after calls ∧ last.program = s.program ∧
      last.offset ≤ s.program.length := by
  induction calls generalizing s with
  | zero => exact ⟨s, rfl, rfl, rfl, hinside⟩
  | succ calls ih =>
    obtain ⟨after, hnext, hcursor, hprogram, hafter⟩ := next?_eq hinside
    obtain ⟨last, hrun, hlast, hsame, hbound⟩ := ih (hprogram ▸ hafter)
    rw [hcursor] at hrun hlast
    refine ⟨last, ?_, hlast, hsame.trans hprogram, hprogram ▸ hbound⟩
    simp only [run?, hnext, hrun, Cursor.reports, Option.bind_eq_bind, Option.bind_some]
    rfl

/-- A call reports the end, or it is made at a byte of the program. -/
theorem next_eq_none_or_offset_lt (s : Scanner) :
    s.cursor.next.1 = none ∨ s.offset < s.program.length := by
  by_cases hbeyond : s.program.length ≤ s.offset
  · have hdrop : s.program.drop s.offset = [] := List.drop_eq_nil_iff.mpr hbeyond
    have hcursor : s.cursor = ⟨s.offset, []⟩ := by simp [cursor, hdrop]
    rw [hcursor, Cursor.next_nil]
    exact Or.inl rfl
  · exact Or.inr (Nat.not_le.mp hbeyond)

end Scanner

/-- **Any number of calls on any program.**  There are instructions, the bytes of which stand at the
start of the program, and a fault behind them exactly if the program goes on there.  The answers to
any number of calls are the instructions, each at the sum of the sizes before it, then the fault,
and then the end for ever.  A scanner gives the same answers: it never reads outside the program,
its offset never goes beyond the end, and unless it reports the end there is a byte at its
offset. -/
theorem Cursor.reports_scripted (program : Program) :
    ∃ (is : List Instruction) (fault? : Option DecodeError),
      Program.ofInstructions is <+: program ∧
      is.length ≤ program.length ∧
      (fault?.isSome ↔ Instruction.totalSize is ≠ program.length) ∧
      (∀ fault ∈ fault?, fault.offset = Instruction.totalSize is) ∧
      ∀ calls,
        (start program).reports calls =
          (script (Located.layout 0 is) fault?).takeD calls none ∧
        ∃ s : Scanner,
          (Scanner.start program).run? calls = some ((start program).reports calls, s) ∧
          s.cursor = (start program).after calls ∧ s.offset ≤ program.length ∧
          (((start program).after calls).next.1 = none ∨ s.offset < program.length) := by
  obtain ⟨is, rest, fault?, hprogram, hfault, hoffset, hreports⟩ := exists_script (start program)
  simp only [start, Nat.zero_add] at hprogram hoffset hreports
  have hlength : program.length = Instruction.totalSize is + rest.length := by
    rw [hprogram, List.length_append, Program.length_ofInstructions]
  refine ⟨is, fault?, ⟨rest, hprogram.symm⟩, ?_, ?_, hoffset, fun calls => ⟨hreports calls, ?_⟩⟩
  · have hle := Instruction.length_le_totalSize is
    omega
  · rw [hfault, ne_eq, ← List.length_eq_zero_iff]
    omega
  · have hstart : (Scanner.start program).offset ≤ program.length := Nat.zero_le _
    obtain ⟨s, hrun, hcursor, hsame, hbound⟩ := Scanner.run?_eq calls hstart
    rw [Scanner.cursor_start] at hrun hcursor
    refine ⟨s, hrun, hcursor, hbound, ?_⟩
    have hlength : s.program.length = program.length := congrArg List.length hsame
    rw [← hcursor, ← hlength]
    exact s.next_eq_none_or_offset_lt

/-- A fault is reported once, and what stands behind it never. -/
example : (Cursor.start [0x05, 0x42, 0x05]).reports 4 =
    [some (.ok ⟨0, .halt⟩), some (.error (.invalidOpcode 0x42 1)), none, none] := by
  decide

end SymbolicBytecode
