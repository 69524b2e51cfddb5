/-
# Texts

How texts are taken apart and put together, below the level of numerals:

* `upperCase`       : only the ASCII letters have a case;
* `isBlank`         : the characters that separate words;
* `words`, `lines`  : the pieces of a text between blanks, and between line ends;
* `record`          : the structural text of a value, for diagnostics.
-/

namespace SymbolicBytecode.Text

/-! ## Letter case -/

/-- Upper-cases the ASCII letters of a text.  No other character is folded, whatever its Unicode
case mapping. -/
def upperCase (text : String) : String :=
  String.ofList (text.toList.map Char.toUpper)

@[simp] theorem toList_upperCase (text : String) :
    (upperCase text).toList = text.toList.map Char.toUpper :=
  String.toList_ofList

/-! ## Blank characters

A character is blank when it has the Unicode property `White_Space`.  The property
holds of twenty-five code points, in ten ranges; besides the ASCII blanks it covers the
next-line control, the no-break spaces, the typographic spaces and the two Unicode
separators.  The information separators U+001C to U+001F and the zero-width characters
are not blank. -/

/-- The code point ranges of `White_Space`, both ends included, in ascending order. -/
def blankRanges : List (Nat × Nat) :=
  [(0x0009, 0x000D), (0x0020, 0x0020), (0x0085, 0x0085), (0x00A0, 0x00A0),
   (0x1680, 0x1680), (0x2000, 0x200A), (0x2028, 0x2029), (0x202F, 0x202F),
   (0x205F, 0x205F), (0x3000, 0x3000)]

/-- Tells whether a character separates words. -/
def isBlank (c : Char) : Bool :=
  blankRanges.any fun range => range.1 ≤ c.toNat && c.toNat ≤ range.2

@[simp] theorem isBlank_space : isBlank ' ' = true := rfl

@[simp] theorem isBlank_return : isBlank '\r' = true := rfl

/-! ## Words

The words of a text are its maximal runs of characters that are not blank.  A blank
between two stretches of text separates their words (`words_append_blank`), so neither
the number nor the kind of blanks around a word can be seen in the result. -/

/-- The words of a text, from left to right: the non-empty pieces between blanks. -/
def words (text : List Char) : List (List Char) :=
  (text.splitOnP isBlank).filter fun piece => !piece.isEmpty

@[simp] theorem words_nil : words [] = [] := rfl

/-- A blank ends the word before it and starts none of its own. -/
theorem words_append_blank (before after : List Char) {c : Char} (h : isBlank c = true) :
    words (before ++ c :: after) = words before ++ words after := by
  rw [words, List.splitOnP_append_cons before after h, List.filter_append, words, words]

/-- Leading blanks are skipped. -/
theorem words_cons_blank {c : Char} (h : isBlank c = true) (after : List Char) :
    words (c :: after) = words after := by
  simpa using words_append_blank [] after h

/-- Trailing blanks are skipped. -/
theorem words_concat_blank (before : List Char) {c : Char} (h : isBlank c = true) :
    words (before ++ [c]) = words before := by
  simpa using words_append_blank before [] h

/-- A non-empty text without blanks is one word. -/
theorem words_eq_singleton {text : List Char} (hne : text ≠ [])
    (h : ∀ c ∈ text, isBlank c = false) : words text = [text] := by
  rw [words, List.splitOnP_eq_singleton h]
  simp [hne]

/-! ## Lines

A line ends at a line feed; one carriage return just before the line feed belongs to the
line end.  The text after the last line feed is a line of its own unless it is empty, so
a final line feed starts no further line. -/

/-- Puts a character in front of the first line. -/
def consLine (c : Char) : List (List Char) → List (List Char)
  | [] => [[c]]
  | line :: rest => (c :: line) :: rest

/-- The lines of a text, without their ends. -/
def lines : List Char → List (List Char)
  | [] => []
  | '\n' :: rest => [] :: lines rest
  | '\r' :: '\n' :: rest => [] :: lines rest
  | c :: rest => consLine c (lines rest)

@[simp] theorem lines_feed (rest : List Char) : lines ('\n' :: rest) = [] :: lines rest := rfl

@[simp] theorem lines_return_feed (rest : List Char) :
    lines ('\r' :: '\n' :: rest) = [] :: lines rest := rfl

/-- A character that starts no line end belongs to the first line. -/
theorem lines_cons {c : Char} {rest : List Char} (hfeed : c ≠ '\n')
    (hreturn : c = '\r' → ∀ tail, rest ≠ '\n' :: tail) :
    lines (c :: rest) = consLine c (lines rest) := by
  rw [lines]
  · exact hfeed
  · intro tail hc hr
    exact hreturn hc tail hr

/-! ## Structural texts

The structural text of a value names the value's form and lists its fields, in the style
of a record literal.  It is meant for diagnostics, where every field has to show. -/

/-- Joins texts with a comma and a space. -/
def commaSeparated (items : List String) : String :=
  String.intercalate ", " items

/-- A field of a structural text: its label, a colon and the text of its value. -/
def labelled (label value : String) : String :=
  label ++ ": " ++ value

/-- The structural text of a form with fields. -/
def record (form : String) (fields : List String) : String :=
  form ++ " \x7b " ++ commaSeparated fields ++ " \x7d"

/-- The structural text of a list, given the texts of its elements. -/
def bracketed (items : List String) : String :=
  "[" ++ commaSeparated items ++ "]"

end SymbolicBytecode.Text
