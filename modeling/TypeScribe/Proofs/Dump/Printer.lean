import TypeScribe.Dump.Entry
import TypeScribe.Parser.Text
import TypeScribe.Text.Blank

/-!
# The print of a dump

How a node is written when one space stands between its items (`RawNode.text`), and what is left of
a text when its blanks are deleted (`ink`). The ink of a node is the ink of its items in their
order, whatever blanks stand between them.
-/

namespace TypeScribe.Dump

open TypeScribe.Parser

/-! ## The text of an entry -/

/-- The signature, and the substitution after a space. -/
def Decl.text : Decl → String
  | ⟨signature, none⟩ => signature
  | ⟨signature, some substitution⟩ => signature ++ " " ++ substitution

/-- As the compiler prints it. -/
def Attribute.text : Attribute → String
  | .range stretch => "range=" ++ stretch.text
  | .type name => "type='" ++ name ++ "'"
  | .location point => "location=" ++ point.text
  | .nothrow => "nothrow"
  | .decl reference => "decl=" ++ reference.text
  | .unknown keyword none => keyword
  | .unknown keyword (some value) => keyword ++ "=" ++ value

/-- As the compiler prints it. -/
def Token.text : Token → String
  | .singleQuoted text => "'" ++ text ++ "'"
  | .doubleQuoted text => "\"" ++ text ++ "\""
  | .raw text => text

/-- The value of a node, with a space before it. -/
def valueText : Option String → String
  | none => ""
  | some value => " \"" ++ value ++ "\""

mutual
/-- The entry on one line. -/
def Entry.text : Entry → String
  | .attr value => value.text
  | .token value => value.text
  | .node name value entries => "(" ++ name ++ valueText value ++ Entry.texts entries ++ ")"

/-- The entries one after another, with a space before each. -/
def Entry.texts : List Entry → String
  | [] => ""
  | entry :: rest => " " ++ entry.text ++ Entry.texts rest
end

/-- The node on one line. -/
def RawNode.text (raw : RawNode) : String := raw.toEntry.text

/-! ## Ink -/

/-- The text without its blanks. -/
def ink (text : List Char) : List Char := text.filter fun x => !Text.isBlank x

theorem ink_append (s t : List Char) : ink (s ++ t) = ink s ++ ink t := List.filter_append ..

theorem isBlank_of_isSpace {x : Char} (h : isSpace x = true) : Text.isBlank x = true := by
  simp only [isSpace, Bool.or_eq_true, beq_iff_eq] at h
  rcases h with ((rfl | rfl) | rfl) | rfl <;> decide

theorem ink_eq_nil {blanks : List Char} (h : ∀ x ∈ blanks, isSpace x = true) : ink blanks = [] := by
  rw [ink, List.filter_eq_nil_iff]
  intro x hx
  simp [isBlank_of_isSpace (h x hx)]

theorem ink_space : ink " ".toList = [] := ink_eq_nil (List.forall_mem_singleton.2 rfl)

/-- Trimming takes blanks away and nothing else. -/
theorem ink_trimEnd (text : List Char) : ink (Text.trimEnd text) = ink text := by
  have hdrop : ∀ s : List Char, ink (s.dropWhile Text.isBlank) = ink s := by
    intro s
    induction s with
    | nil => rfl
    | cons x s ih =>
      by_cases hx : Text.isBlank x = true
      · rw [List.dropWhile_cons_of_pos hx, ih]
        simp [ink, hx]
      · rw [List.dropWhile_cons_of_neg hx]
  rw [Text.trimEnd]
  simp only [ink, List.filter_reverse]
  have h := hdrop text.reverse
  simp only [ink, List.filter_reverse] at h
  rw [h, List.reverse_reverse]

/-- Blanks at the end of a text do not survive trimming. -/
theorem trimEnd_append {text blanks : List Char} (h : ∀ x ∈ blanks, isSpace x = true) :
    Text.trimEnd (text ++ blanks) = Text.trimEnd text := by
  have hblank : ∀ x ∈ blanks.reverse, Text.isBlank x = true := fun x hx =>
    isBlank_of_isSpace (h x (List.mem_reverse.1 hx))
  rw [Text.trimEnd, Text.trimEnd, List.reverse_append, List.dropWhile_append_of_pos hblank]

end TypeScribe.Dump
