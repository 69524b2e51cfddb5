/-
# The ends of lines

A text whose last line has its end can be continued without changing the lines it has, and
its lines can be counted by their ends.  A line end may be written with or without a carriage
return; this is seen, if at all, at the end of a line only.

* `Ended`            : the text is empty or its last line has an end;
* `lines_append`     : the lines of such a text with another text behind it;
* `length_lines`     : it has as many lines as line feeds;
* `lines_withReturns` : the lines of a text with a carriage return before every line feed.
-/
import Mathlib.Data.List.Forall2
import SymbolicBytecode.Text.Basic

namespace SymbolicBytecode.Text

/-! ## Texts that can be continued -/

/-- The text is empty, or it ends with the end of its last line. -/
def Ended (text : List Char) : Prop :=
  text = [] ∨ text.getLast? = some '\n'

/-- What stands behind the first character of such a text is such a text again. -/
theorem Ended.of_cons {c : Char} {text : List Char} (h : Ended (c :: text)) : Ended text := by
  cases text with
  | nil => exact Or.inl rfl
  | cons d rest =>
    rcases h with h | h
    · exact absurd h (List.cons_ne_nil c _)
    · rw [List.getLast?_cons_cons] at h
      exact Or.inr h

/-- Only a line feed can stand alone in it. -/
theorem Ended.ne_nil_of_cons {c : Char} {text : List Char} (h : Ended (c :: text))
    (hfeed : c ≠ '\n') : text ≠ [] := by
  rintro rfl
  rcases h with h | h
  · exact List.cons_ne_nil c [] h
  · exact hfeed (Option.some.inj h)

theorem consLine_ne_nil (c : Char) (ls : List (List Char)) : consLine c ls ≠ [] := by
  cases ls <;> exact List.cons_ne_nil _ _

/-- Only the empty text has no lines. -/
theorem lines_ne_nil {text : List Char} (h : text ≠ []) : lines text ≠ [] := by
  fun_cases lines text with
  | case1 => exact absurd rfl h
  | case2 rest => exact List.cons_ne_nil _ _
  | case3 rest => exact List.cons_ne_nil _ _
  | case4 c rest => exact consLine_ne_nil c (lines rest)

/-- A character goes to the first of several lines, whatever lines follow. -/
theorem consLine_append (c : Char) {ls : List (List Char)} (h : ls ≠ []) (ls' : List (List Char)) :
    consLine c (ls ++ ls') = consLine c ls ++ ls' := by
  obtain ⟨line, rest, rfl⟩ := List.exists_cons_of_ne_nil h
  rfl

theorem length_consLine (c : Char) {ls : List (List Char)} (h : ls ≠ []) :
    (consLine c ls).length = ls.length := by
  obtain ⟨line, rest, rfl⟩ := List.exists_cons_of_ne_nil h
  rfl

/-- **Lines of a continued text.**  Behind the end of a line a new line begins. -/
theorem lines_append {text : List Char} (h : Ended text) (more : List Char) :
    lines (text ++ more) = lines text ++ lines more := by
  fun_induction lines text with
  | case1 => rfl
  | case2 rest ih =>
    rw [List.cons_append, lines_feed, ih h.of_cons, List.cons_append]
  | case3 rest ih =>
    rw [List.cons_append, List.cons_append, lines_return_feed, ih h.of_cons.of_cons,
      List.cons_append]
  | case4 c rest hfeed hreturn ih =>
    have hne : rest ≠ [] := h.ne_nil_of_cons hfeed
    rw [List.cons_append, lines_cons hfeed, ih h.of_cons, consLine_append c (lines_ne_nil hne)]
    -- the character behind `c` is one of the text, so it is none of what follows
    intro hc tail htail
    obtain ⟨d, rest', rfl⟩ := List.exists_cons_of_ne_nil hne
    obtain ⟨rfl, -⟩ := List.cons.inj htail
    exact hreturn rest' hc rfl

/-- Every line has one line feed. -/
theorem length_lines {text : List Char} (h : Ended text) :
    (lines text).length = text.count '\n' := by
  fun_induction lines text with
  | case1 => rfl
  | case2 rest ih => rw [List.length_cons, ih h.of_cons, List.count_cons_self]
  | case3 rest ih =>
    rw [List.length_cons, ih h.of_cons.of_cons, List.count_cons_of_ne (by decide),
      List.count_cons_self]
  | case4 c rest hfeed hreturn ih =>
    have hne : rest ≠ [] := h.ne_nil_of_cons hfeed
    rw [length_consLine c (lines_ne_nil hne), ih h.of_cons, List.count_cons_of_ne hfeed]

/-! ## Carriage returns -/

/-- Puts a carriage return before every line feed. -/
def withReturns (text : List Char) : List Char :=
  text.flatMap fun c => if c = '\n' then ['\r', '\n'] else [c]

@[simp] theorem withReturns_feed (rest : List Char) :
    withReturns ('\n' :: rest) = '\r' :: '\n' :: withReturns rest := rfl

theorem withReturns_cons {c : Char} (h : c ≠ '\n') (rest : List Char) :
    withReturns (c :: rest) = c :: withReturns rest := by
  rw [withReturns, List.flatMap_cons, if_neg h]
  rfl

/-- No line feed is left without a carriage return, so none stands in front. -/
theorem withReturns_ne_feed_cons (text tail : List Char) : withReturns text ≠ '\n' :: tail := by
  cases text with
  | nil => exact (List.cons_ne_nil '\n' tail).symm
  | cons c rest =>
    by_cases hc : c = '\n'
    · subst hc
      rw [withReturns_feed]
      intro h
      exact absurd (List.cons.inj h).1 (by decide)
    · rw [withReturns_cons hc]
      intro h
      exact hc (List.cons.inj h).1

/-- The second line is the first or has one more carriage return at its end. -/
def SameUpToReturn (line line' : List Char) : Prop :=
  line' = line ∨ line' = line ++ ['\r']

/-- Whether a carriage return stands at the end of a line does not matter to its words. -/
theorem SameUpToReturn.words_eq {line line' : List Char} (h : SameUpToReturn line line') :
    words line' = words line := by
  rcases h with rfl | rfl
  · rfl
  · exact words_concat_blank line isBlank_return

theorem forall₂_consLine (c : Char) {ls ls' : List (List Char)}
    (h : List.Forall₂ SameUpToReturn ls ls') :
    List.Forall₂ SameUpToReturn (consLine c ls) (consLine c ls') := by
  cases h with
  | nil => exact .cons (Or.inl rfl) .nil
  | cons hline hrest =>
    refine .cons ?_ hrest
    rcases hline with rfl | rfl
    · exact Or.inl rfl
    · exact Or.inr rfl

/-- **Lines with returns.**  A carriage return before every line feed changes the lines of a text,
one by one, by at most a carriage return at their end: where there was one already it is now part
of the line. -/
theorem lines_withReturns (text : List Char) :
    List.Forall₂ SameUpToReturn (lines text) (lines (withReturns text)) := by
  fun_induction lines text with
  | case1 => exact .nil
  | case2 rest ih =>
    rw [withReturns_feed, lines_return_feed]
    exact .cons (Or.inl rfl) ih
  | case3 rest ih =>
    have hreturn : lines ('\r' :: '\r' :: '\n' :: withReturns rest) =
        ['\r'] :: lines (withReturns rest) := by
      rw [lines_cons (by decide) (fun _ tail h => absurd (List.cons.inj h).1 (by decide)),
        lines_return_feed]
      rfl
    rw [withReturns_cons (by decide), withReturns_feed, hreturn]
    exact .cons (Or.inr rfl) ih
  | case4 c rest hfeed hreturn ih =>
    rw [withReturns_cons hfeed,
      lines_cons hfeed (fun _ tail => withReturns_ne_feed_cons rest tail)]
    exact forall₂_consLine c ih

end SymbolicBytecode.Text
