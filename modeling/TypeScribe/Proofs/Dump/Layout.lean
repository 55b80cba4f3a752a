import TypeScribe.Proofs.Dump.Values

/-!
# Layouts of a dump

A node may be written with any gaps between its items (`Written`); the print on one line is one of
its texts (`written_text`). From such a text the node can be read back if its parts are spelled so
that no rule takes one for another (`Entry.Printable`). Most conditions concern one part alone. Two
concern neighbours: a node without a value must not start with what would be its value, and a raw
text must not look like the substitution of the declaration before it.
-/

namespace TypeScribe.Dump

open TypeScribe.Parser
open TypeScribe.Dump.Grammar

/-! ## Texts of a node -/

/-- What may stand between two items: blanks, the first of them a space or a line feed. -/
def IsGap : List Char → Prop
  | [] => False
  | x :: rest => (x = ' ' ∨ x = '\n') ∧ ∀ y ∈ rest, isSpace y = true

/-- The texts of a node's value, with a gap before it. -/
inductive WrittenValue : Option String → List Char → Prop
  | none : WrittenValue none []
  | some {gap : List Char} {value : String} : IsGap gap →
      WrittenValue (some value) (gap ++ ('"' :: value.toList ++ ['"']))

mutual
/-- The texts of an entry, with any gaps between the items of a node and perhaps one before its
end. -/
inductive Written : Entry → List Char → Prop
  | attr (value : Attribute) : Written (.attr value) value.text.toList
  | token (value : Token) : Written (.token value) value.text.toList
  | node {name : String} {value : Option String} {entries : List Entry}
      {quoted items tail : List Char} : WrittenValue value quoted → WrittenItems entries items →
      tail = [] ∨ IsGap tail →
      Written (.node name value entries)
        ('(' :: name.toList ++ (quoted ++ (items ++ (tail ++ [')']))))

/-- The texts of the entries of a node, with a gap before each. -/
inductive WrittenItems : List Entry → List Char → Prop
  | nil : WrittenItems [] []
  | cons {entry : Entry} {entries : List Entry} {gap text items : List Char} : IsGap gap →
      Written entry text → WrittenItems entries items →
      WrittenItems (entry :: entries) (gap ++ (text ++ items))
end

theorem isGap_space : IsGap " ".toList := ⟨.inl rfl, List.forall_mem_nil _⟩

mutual
/-- The print on one line is one of the texts. -/
theorem written_text : ∀ entry : Entry, Written entry entry.text.toList
  | .attr value => by rw [Entry.text]; exact .attr value
  | .token value => by rw [Entry.text]; exact .token value
  | .node name value entries => by
    have hvalue : WrittenValue value (valueText value).toList := by
      cases value with
      | none => exact .none
      | some value =>
        have htext : (valueText (some value)).toList =
            " ".toList ++ ('"' :: value.toList ++ ['"']) := by simp [valueText]
        rw [htext]
        exact .some isGap_space
    have htext : (Entry.node name value entries).text.toList = '(' :: name.toList ++
        ((valueText value).toList ++ ((Entry.texts entries).toList ++ ([] ++ [')']))) := by
      simp [Entry.text]
    rw [htext]
    exact .node hvalue (writtenItems_texts entries) (.inl rfl)

/-- So are the prints of the entries of a node. -/
theorem writtenItems_texts :
    ∀ entries : List Entry, WrittenItems entries (Entry.texts entries).toList
  | [] => .nil
  | entry :: entries => by
    rw [Entry.texts, String.toList_append, String.toList_append, List.append_assoc]
    exact .cons isGap_space (written_text entry) (writtenItems_texts entries)
end

/-! ## Nesting -/

mutual
/-- How many nodes are nested in one another. -/
def Entry.depth : Entry → Nat
  | .attr _ => 0
  | .token _ => 0
  | .node _ _ entries => Entry.depthAmong entries + 1

/-- The depth of the deepest of the entries. -/
def Entry.depthAmong : List Entry → Nat
  | [] => 0
  | entry :: rest => max entry.depth (Entry.depthAmong rest)
end

/-! ## Conditions on the parts -/

/-- Is there a numeral for the number? -/
def IsNumerable (n : Int) : Prop := 0 ≤ n ∧ (toString n).length ≤ Text.longestNumeral

/-- A file name without colons and gaps, and a line and a column that numerals can write. -/
structure Point.Printable (point : Point) : Prop where
  nonempty : point.fileName.toList ≠ []
  fileName : ∀ x ∈ point.fileName.toList, isFileChar x = true
  line : IsNumerable point.line
  column : IsNumerable point.column

/-- Signatures with one space between them, each of which is read as a whole when it stands alone,
and a substitution that is. -/
structure Decl.Printable (reference : Decl) : Prop where
  signature : ∃ groups : List String, groups ≠ [] ∧
    reference.signature = String.intercalate " " groups ∧
    ∀ group ∈ groups, declSignature.consumes group = true
  substitution : ∀ text ∈ reference.substitution, Grammar.substitution.consumes text = true

/-- The keyword is not one with a rule of its own, or its rule fails on the value. What the rule for
declarations reads may also be completed by the end of the node. -/
structure OwnRuleFails (keyword value : String) : Prop where
  range : keyword = "range" → Grammar.range.fails value = true
  type : keyword = "type" → typeName.fails value = true
  location : keyword = "location" → point.fails value = true
  decl : keyword = "decl" → Grammar.decl.fails value = true ∧
    Grammar.decl.fails (value ++ ")") = true

/-- An attribute that is read back as itself. -/
def Attribute.Printable : Attribute → Prop
  | .range stretch => stretch.start.Printable ∧ stretch.stop.Printable
  | .type name => '\'' ∉ name.toList
  | .location point => point.Printable
  | .nothrow => True
  | .decl reference => reference.Printable
  | .unknown keyword value =>
    IsKeyword keyword.toList ∧ ¬"nothrow".toList <+: keyword.toList ∧
      ∀ text ∈ value, IsValue text ∧ OwnRuleFails keyword text

/-- A token that is read back as itself. -/
def Token.Printable : Token → Prop
  | .singleQuoted text => '\'' ∉ text.toList
  | .doubleQuoted text => Quotable '"' true text.toList
  | .raw text => IsRaw text.toList ∧ StopsAt isWordChar text.toList

/-! ## Conditions on neighbours -/

/-- Does the entry end with a declaration to which a substitution could still belong? -/
def Entry.endsOpen : Entry → Bool
  | .attr (.decl reference) => reference.substitution.isNone
  | .attr (.unknown _ (some value)) => readsOpenDecl value
  | _ => false

/-- Does the entry start like a substitution? -/
def Entry.startsSubstitution : Entry → Bool
  | .token (.raw text) => "[with".toList.isPrefixOf text.toList
  | _ => false

/-- Could the entry be taken for the value of the node that it is the first entry of? -/
def Entry.isDoubleQuoted : Entry → Bool
  | .token (.doubleQuoted _) => true
  | _ => false

mutual
/-- An entry that is read back as itself, whatever gaps its text has. -/
def Entry.Printable : Entry → Prop
  | .attr value => value.Printable
  | .token value => value.Printable
  | .node name value entries =>
    IsKeyword name.toList ∧ (∀ text ∈ value, Quotable '"' true text.toList) ∧
      (value = none → ∀ first ∈ entries.head?, first.isDoubleQuoted = false) ∧
      Entry.AllPrintable entries

/-- The entries are read back as themselves, and none as a part of the one before it. -/
def Entry.AllPrintable : List Entry → Prop
  | [] => True
  | entry :: rest =>
    entry.Printable ∧
      (∀ next ∈ rest.head?, entry.endsOpen = true → next.startsSubstitution = false) ∧
      Entry.AllPrintable rest
end

end TypeScribe.Dump
