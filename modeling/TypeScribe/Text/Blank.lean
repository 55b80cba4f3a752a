import TypeScribe.Text.CodeRun

/-!
# Blank characters

White space in the wide sense: every Unicode space, the line and paragraph separators, and the
control characters that move or separate. Trimming and splitting into words are defined by it.
White space in the standard's own sense (`isSpacing`) leaves out the four control characters that
separate units of information.
-/

namespace TypeScribe.Text

/-- The blank characters, as runs of code points. -/
def blankTable : List CodeRun :=
  [⟨0x9, 0xd, 1⟩, ⟨0x1c, 0x20, 1⟩, ⟨0x85, 0x85, 1⟩, ⟨0xa0, 0xa0, 1⟩, ⟨0x1680, 0x1680, 1⟩,
   ⟨0x2000, 0x200a, 1⟩, ⟨0x2028, 0x2029, 1⟩, ⟨0x202f, 0x202f, 1⟩, ⟨0x205f, 0x205f, 1⟩,
   ⟨0x3000, 0x3000, 1⟩]

/-- A blank character. -/
def isBlank (c : Char) : Bool := covers c.toNat blankTable

/-- White space in the standard's sense: a blank that is not an information separator. -/
def isSpacing (c : Char) : Bool := isBlank c && !(0x1c ≤ c.toNat && c.toNat ≤ 0x1f)

/-- The text without the white space at both ends. -/
def trimSpacing (text : List Char) : List Char :=
  ((text.dropWhile isSpacing).reverse.dropWhile isSpacing).reverse

/-- The text without the blanks at its start. -/
def trimStart (text : List Char) : List Char := text.dropWhile isBlank

/-- The text without the blanks at its end. -/
def trimEnd (text : List Char) : List Char := (text.reverse.dropWhile isBlank).reverse

/-- The text without the blanks at both ends. -/
def trim (text : List Char) : List Char := trimEnd (trimStart text)

/-- The last of the words that blanks divide the text into. -/
def lastWord? (text : List Char) : Option (List Char) :=
  match (trimEnd text).reverse.takeWhile (fun c => !isBlank c) with
  | [] => none
  | word => some word.reverse

/-- Every ASCII blank is blank. -/
theorem isBlank_of_isWhitespace {c : Char} (h : c.isWhitespace = true) : isBlank c = true := by
  simp only [Char.isWhitespace, Bool.or_eq_true, decide_eq_true_eq] at h
  rcases h with ((h | h) | h) | h <;> subst h <;> decide

/-- White space is blank. -/
theorem isBlank_of_isSpacing {c : Char} (h : isSpacing c = true) : isBlank c = true := by
  simp only [isSpacing, Bool.and_eq_true] at h
  exact h.1

end TypeScribe.Text
