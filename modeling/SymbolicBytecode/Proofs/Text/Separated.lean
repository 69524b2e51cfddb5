/-
# Separated words and terminated lines

The words and the lines of a text that was put together from words and lines are the ones
it was put together from:

* `words_intercalate` : words with a space between them are found again;
* `lines_append_feed` : a line with a line feed behind it is the first line of the text.
-/
import SymbolicBytecode.Text.Basic

namespace SymbolicBytecode.Text

/-! ## Words -/

/-- A word is not empty and holds no blank. -/
structure IsWord (word : List Char) : Prop where
  ne_nil : word ≠ []
  not_blank : ∀ c ∈ word, isBlank c = false

/-- Whether a text is a word can be computed. -/
theorem isWord_of_all {word : List Char} (hne : word.isEmpty = false)
    (h : word.all (fun c => !isBlank c) = true) : IsWord word where
  ne_nil := by
    rintro rfl
    exact nomatch hne
  not_blank := by
    intro c hc
    simpa using List.all_eq_true.mp h c hc

/-- Two pieces of a word make up a word. -/
theorem IsWord.append {first second : List Char} (hfirst : IsWord first)
    (hsecond : ∀ c ∈ second, isBlank c = false) : IsWord (first ++ second) where
  ne_nil := by simp [hfirst.ne_nil]
  not_blank := by
    intro c hc
    rcases List.mem_append.mp hc with h | h
    · exact hfirst.not_blank c h
    · exact hsecond c h

/-- Words with a space between them are found again. -/
theorem words_intercalate {ws : List (List Char)} (h : ∀ w ∈ ws, IsWord w) :
    words ([' '].intercalate ws) = ws := by
  induction ws with
  | nil => rfl
  | cons w rest ih =>
    have hw : IsWord w := h w List.mem_cons_self
    have hrest : ∀ w' ∈ rest, IsWord w' := fun w' hw' => h w' (List.mem_cons_of_mem w hw')
    have hsingle : words w = [w] := words_eq_singleton hw.ne_nil hw.not_blank
    cases rest with
    | nil => rw [List.intercalate_singleton, hsingle]
    | cons w' rest' =>
      rw [List.intercalate_cons_cons, List.append_assoc, List.singleton_append,
        words_append_blank w _ isBlank_space, hsingle, ih hrest]
      rfl

/-- The only blank in such a text is the space. -/
theorem eq_space_or_not_blank_of_mem {ws : List (List Char)} (h : ∀ w ∈ ws, IsWord w) {c : Char}
    (hc : c ∈ [' '].intercalate ws) : c = ' ' ∨ isBlank c = false := by
  induction ws with
  | nil => exact nomatch hc
  | cons w rest ih =>
    have hw : IsWord w := h w List.mem_cons_self
    have hrest : ∀ w' ∈ rest, IsWord w' := fun w' hw' => h w' (List.mem_cons_of_mem w hw')
    cases rest with
    | nil =>
      rw [List.intercalate_singleton] at hc
      exact Or.inr (hw.not_blank c hc)
    | cons w' rest' =>
      rw [List.intercalate_cons_cons, List.append_assoc] at hc
      rcases List.mem_append.mp hc with hmem | hmem
      · exact Or.inr (hw.not_blank c hmem)
      · rcases List.mem_cons.mp hmem with rfl | htail
        · exact Or.inl rfl
        · exact ih hrest htail

/-! ## Lines -/

/-- A line feed ends the line before it, unless that line has an end of its own: a line feed
inside, or a carriage return in last place. -/
theorem lines_append_feed {line : List Char} (hfeed : '\n' ∉ line)
    (hreturn : line.getLast? ≠ some '\r') (rest : List Char) :
    lines (line ++ '\n' :: rest) = line :: lines rest := by
  induction line with
  | nil => exact lines_feed rest
  | cons c tail ih =>
    have hc : c ≠ '\n' := fun heq => hfeed (heq ▸ List.mem_cons_self)
    have htail : '\n' ∉ tail := fun hmem => hfeed (List.mem_cons_of_mem c hmem)
    have hlast : tail.getLast? ≠ some '\r' := by
      cases tail with
      | nil => simp
      | cons d tail' => rwa [List.getLast?_cons_cons] at hreturn
    rw [List.cons_append, lines_cons hc, ih htail hlast, consLine]
    -- a carriage return in front has a character behind it that is no line feed
    rintro rfl after hafter
    cases tail with
    | nil => simp at hreturn
    | cons d tail' =>
      obtain ⟨rfl, -⟩ := List.cons.inj hafter
      exact htail List.mem_cons_self

end SymbolicBytecode.Text
