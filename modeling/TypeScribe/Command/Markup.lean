/-!
# Markup

Text for a terminal carries its styles as tags: `[dim]` opens a style and `[/dim]` closes it. An odd
number of backslashes before a tag takes it literally, and each pair of them stands for one. Before
a bracket that starts no tag, one backslash is dropped. `escape` makes a text harmless, and `render`
gives what is shown.

Both look at one character at a time and remember how many backslashes stand right before it. A text
without backslashes is shown as it is once it is escaped (`shown_eq_self`). Others may change:
`escape` doubles a single backslash at the end of a text, for the sake of a tag that may follow, and
when none follows both are shown.
-/

namespace TypeScribe.Command.Markup

/-- Can a tag start with this character? -/
def opensTag (c : Char) : Bool := c.isLower || ['#', '/', '@'].contains c

/-- Is what stands after an opening bracket the rest of a tag? It starts as a tag may, and the next
bracket is a closing one. -/
def isTag : List Char → Bool
  | [] => false
  | c :: rest => opensTag c && (rest.find? fun c => c == '[' || c == ']') == some ']'

/-- So many backslashes. -/
def backslashes (count : Nat) : List Char := List.replicate count '\\'

/-- Escapes a text that comes after so many backslashes. -/
def escapeAfter (count : Nat) : List Char → List Char
  | [] => backslashes (if count = 1 then 2 else count)
  | c :: rest =>
    if c = '\\' then escapeAfter (count + 1) rest
    else
      let before := if c = '[' && isTag rest then 2 * count + 1 else count
      backslashes before ++ c :: escapeAfter 0 rest

/-- Markup in which nothing of the text is a tag. -/
def escape (text : String) : String := String.ofList (escapeAfter 0 text.toList)

/-- Where in the markup we are. -/
inductive Place where
  /-- In the text, after so many backslashes. -/
  | text (backslashes : Nat)
  /-- Inside a tag. -/
  | tag

/-- What is shown of the markup from a place on. -/
def renderFrom : Place → List Char → List Char
  | .tag, [] => []
  | .tag, c :: rest => renderFrom (if c = ']' then .text 0 else .tag) rest
  | .text count, [] => backslashes count
  | .text count, c :: rest =>
    if c = '\\' then renderFrom (.text (count + 1)) rest
    else if c = '[' then
      if isTag rest then
        backslashes (count / 2)
        ++ if count % 2 = 0 then renderFrom .tag rest else c :: renderFrom (.text 0) rest
      else backslashes (count - 1) ++ c :: renderFrom (.text 0) rest
    else backslashes count ++ c :: renderFrom (.text 0) rest

/-- What is shown of the markup. -/
def render (markup : String) : String := String.ofList (renderFrom (.text 0) markup.toList)

/-- What is shown of a text that is escaped and stands alone. -/
def shown (text : String) : String := render (escape text)

/-- Escaping adds backslashes only, so it does not change which bracket comes first. -/
theorem find?_escapeAfter {p : Char → Bool} (h : p '\\' = false) (text : List Char) (count : Nat) :
    (escapeAfter count text).find? p = text.find? p := by
  have skip (n : Nat) (rest : List Char) :
      (backslashes n ++ rest).find? p = rest.find? p := by
    simp [backslashes, List.find?_append, h]
  induction text generalizing count with
  | nil => simpa [escapeAfter] using skip (if count = 1 then 2 else count) []
  | cons c rest ih =>
    by_cases hc : c = '\\'
    · subst hc
      simp [escapeAfter, ih, h]
    · simp only [escapeAfter, hc, if_false]
      rw [skip, List.find?_cons, List.find?_cons, ih]

/-- Escaping does not change whether a bracket before the text would start a tag. -/
theorem isTag_escapeAfter {text : List Char} (h : '\\' ∉ text) :
    isTag (escapeAfter 0 text) = isTag text := by
  cases text with
  | nil => rfl
  | cons c rest =>
    have hc : c ≠ '\\' := fun e => h (by simp [e])
    by_cases tag : c = '[' ∧ isTag rest = true
    · obtain ⟨rfl, tag⟩ := tag
      have escaped : escapeAfter 0 ('[' :: rest) = '\\' :: '[' :: escapeAfter 0 rest := by
        simp [escapeAfter, tag, backslashes]
      rw [escaped]
      rfl
    · have escaped : escapeAfter 0 (c :: rest) = c :: escapeAfter 0 rest := by
        simp [escapeAfter, hc, tag, backslashes]
      rw [escaped, isTag, isTag, find?_escapeAfter (by decide)]

/-- What is shown of an escaped text without backslashes is the text. -/
theorem renderFrom_escapeAfter {text : List Char} (h : '\\' ∉ text) :
    renderFrom (.text 0) (escapeAfter 0 text) = text := by
  induction text with
  | nil => rfl
  | cons c rest ih =>
    have hc : c ≠ '\\' := fun e => h (by simp [e])
    have hr : '\\' ∉ rest := fun m => h (List.mem_cons_of_mem c m)
    have same := isTag_escapeAfter hr
    by_cases bracket : c = '['
    · subst bracket
      cases tag : isTag rest <;>
        simp [escapeAfter, renderFrom, backslashes, tag, same, ih hr]
    · simp [escapeAfter, renderFrom, backslashes, hc, bracket, ih hr]

/-- A text without backslashes is shown as it is. -/
theorem shown_eq_self {text : String} (h : '\\' ∉ text.toList) : shown text = text := by
  simp [shown, render, escape, renderFrom_escapeAfter h]

/-- A text in a style. -/
def styled (style text : String) : String :=
  "[" ++ style ++ "]" ++ escape text ++ "[/" ++ style ++ "]"

end TypeScribe.Command.Markup
