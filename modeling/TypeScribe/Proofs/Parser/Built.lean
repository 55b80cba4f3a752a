import TypeScribe.Dump.Grammar
import TypeScribe.Parser.Recipe
import TypeScribe.SwiftType.Grammar

/-!
# The parsers of the library

Every parser here is put together from a few that look at characters, by a few combinators. `Built`
says so of a parser, and what each of the parts keeps is then kept by all of them, by one induction.
The parsers of `TypeScribe.Parser`, all rules of the two grammars (`IsRule.built`) and the parsers
that recipes describe (`built_toParser`) are built in this way.

A rule that refers to itself is followed to some depth, beyond which it is not tried. So it is a
parser of this kind at every depth: it is built from itself at the depth below, and from
`Built.stop` at the bottom.
-/

namespace TypeScribe

open TypeScribe.Parser

namespace Parser

variable {α β : Type}

/-- Reads with `p`; a value that does not pass the test is a failure at the place where `p` started.
-/
def checked (p : Parser α) (test : α → Bool) (expected : String) : Parser α := fun c =>
  match p c with
  | .ok value next => if test value then .ok value next else .failed ⟨c.offset, expected⟩
  | reply => reply

/-- A parser put together from the parsers of characters by the combinators. -/
class inductive Built : {α : Type} → Parser α → Prop
  | pure {α : Type} (value : α) : Built (pure value : Parser α)
  | fail {α : Type} (expected : String) : Built (fail expected : Parser α)
  | satisfy (predicate : Char → Bool) (expected : String) : Built (satisfy predicate expected)
  | takeWhile (predicate : Char → Bool) : Built (takeWhile predicate)
  | takeWhile1 (predicate : Char → Bool) (expected : String) : Built (takeWhile1 predicate expected)
  | skipSpaces : Built skipSpaces
  | token (literal : String) : Built (token literal)
  | quoted (quote : Char) (escapes : Bool) : Built (quoted quote escapes)
  | number : Built number
  | endOfInput : Built endOfInput
  /-- The scanner of groups and substitutions. -/
  | closeBalanced (closing : Char) : Built (Dump.Grammar.closeBalanced closing)
  | bind {α β : Type} {p : Parser α} {f : α → Parser β} :
      Built p → (∀ value, Built (f value)) → Built (p >>= f)
  | orElse {α : Type} {p q : Parser α} : Built p → Built q → Built (p <|> q)
  | choice {α : Type} {parsers : List (Parser α)} :
      (∀ p ∈ parsers, Built p) → Built (choice parsers)
  | many {α : Type} {p : Parser α} : Built p → Built (many p)
  | slice {α : Type} {p : Parser α} : Built p → Built (slice p)
  | checked {α : Type} {p : Parser α} (test : α → Bool) (expected : String) :
      Built p → Built (checked p test expected)
  /-- A rule that is not followed any further. -/
  | stop {α : Type} : Built (stop .tooDeep : Parser α)

attribute [instance] Built.pure Built.fail Built.satisfy Built.takeWhile Built.takeWhile1
  Built.skipSpaces Built.token Built.quoted Built.number Built.endOfInput Built.closeBalanced
  Built.stop

instance {p : Parser α} {f : α → Parser β} [hp : Built p] [hf : ∀ value, Built (f value)] :
    Built (p >>= f) := .bind hp hf

instance {p : Parser α} {f : α → β} [Built p] : Built (f <$> p) :=
  inferInstanceAs (Built (p >>= fun value => pure (f value)))

instance {p q : Parser α} [hp : Built p] [hq : Built q] : Built (p <|> q) := .orElse hp hq

/-- All of the parsers are built. -/
class AllBuilt (parsers : List (Parser α)) : Prop where
  built : ∀ p ∈ parsers, Built p

instance : AllBuilt ([] : List (Parser α)) := ⟨fun _ h => nomatch h⟩

instance {p : Parser α} {rest : List (Parser α)} [hp : Built p] [hrest : AllBuilt rest] :
    AllBuilt (p :: rest) := ⟨List.forall_mem_cons.2 ⟨hp, hrest.built⟩⟩

instance {parsers : List (Parser α)} [h : AllBuilt parsers] : Built (choice parsers) :=
  .choice h.built

instance {p : Parser α} [h : Built p] : Built (many p) := .many h

instance {p : Parser α} [Built p] : Built (many1 p) :=
  inferInstanceAs (Built (p >>= fun first => many p >>= fun rest => pure (first :: rest)))

instance {p : Parser α} {default : α} [Built p] : Built (p.option default) :=
  inferInstanceAs (Built (p <|> pure default))

instance {p : Parser α} [Built p] : Built p.option? :=
  inferInstanceAs (Built (some <$> p <|> pure none))

instance {p : Parser α} [h : Built p] : Built (slice p) := .slice h

/-! ## Words and marks -/

instance (literal : String) : Built (symbol literal) := by
  unfold symbol
  infer_instance

instance (first later : Char → Bool) (expected : String) : Built (word first later expected) := by
  unfold word
  infer_instance

instance : Built keyword := by
  unfold keyword
  infer_instance

instance : Built escapedIdentifier := by
  unfold escapedIdentifier char
  infer_instance

instance : Built identifier := by
  unfold identifier
  infer_instance

instance : Built singleQuoted := by
  unfold singleQuoted
  infer_instance

instance : Built doubleQuoted := by
  unfold doubleQuoted
  infer_instance

end Parser

/-! ## Rules of a dump -/

namespace Dump.Grammar

instance : Built substitution := by
  unfold substitution
  infer_instance

instance : Built group := by
  unfold group
  infer_instance

instance : Built point := by
  unfold point
  infer_instance

instance : Built range := by
  unfold range
  infer_instance

instance : Built typeName := by
  unfold typeName
  infer_instance

instance : Built elements := by
  unfold elements
  infer_instance

instance : Built declName := by
  unfold declName
  infer_instance

instance : Built functionSignature := by
  unfold functionSignature
  infer_instance

instance : Built fileSignature := by
  unfold fileSignature
  infer_instance

instance : Built dottedComponent := by
  unfold dottedComponent
  infer_instance

instance : Built declSignature := by
  unfold declSignature
  infer_instance

instance : Built decl := by
  unfold decl
  infer_instance

instance : Built rawText := by
  unfold rawText
  infer_instance

instance : Built unknownValue := by
  unfold unknownValue
  infer_instance

instance : Built trimmedValue := by
  unfold trimmedValue
  infer_instance

instance : Built unknown := by
  unfold unknown
  infer_instance

instance : Built attr := by
  unfold attr
  infer_instance

instance : Built nodeToken := by
  unfold nodeToken
  infer_instance

instance : Built nodeValue := by
  unfold nodeValue
  infer_instance

instance (node : Parser RawNode) [Built node] : Built (entryOf node) := by
  unfold entryOf
  infer_instance

instance (node : Parser RawNode) [Built node] : Built (nodeOf node) := by
  unfold nodeOf
  refine .bind inferInstance fun _ => .bind inferInstance fun _ => ?_
  infer_instance

/-- A node is built from the nodes below it. -/
theorem built_nodeWithin (depth : Nat) : Built (nodeWithin depth) := by
  induction depth with
  | zero => exact .stop
  | succ depth ih => exact inferInstanceAs (Built (nodeOf (nodeWithin depth)))

instance (depth : Nat) : Built (nodeWithin depth) := built_nodeWithin depth

instance [CallStack] : Built node := built_nodeWithin CallStack.nodes

instance [CallStack] : Built entry := inferInstanceAs (Built (entryOf node))

instance [CallStack] : Built document := by
  unfold document
  infer_instance

end Dump.Grammar

/-! ## Rules of types -/

namespace SwiftType.Grammar

instance : Built name := by
  unfold name
  infer_instance

/-- One of several words is a name that is checked. -/
theorem oneOf_eq_checked (words : List String) (expected : String) :
    oneOf words expected = checked name words.contains expected := by
  funext c
  unfold oneOf checked
  cases name c <;> rfl

instance (words : List String) (expected : String) : Built (oneOf words expected) := by
  rw [oneOf_eq_checked]
  exact .checked _ _ inferInstance

instance : Built attributeArguments := by
  unfold attributeArguments
  infer_instance

instance : Built typeAttribute := by
  unfold typeAttribute
  infer_instance

instance : Built modifiers := by
  unfold modifiers
  infer_instance

instance : Built postfixMark := by
  unfold postfixMark
  infer_instance

instance : Built elementLabel := by
  unfold elementLabel
  infer_instance

section
variable {α : Type} (item : Parser α) [Built item] (type : Parser SwiftType) [Built type]

instance : Built (separated item) := by
  unfold separated
  infer_instance

instance : Built (element type) := by
  unfold element
  infer_instance

instance : Built (parenList type) := by
  unfold parenList
  infer_instance

instance : Built (collection type) := by
  unfold collection
  infer_instance

instance : Built (genericArguments type) := by
  unfold genericArguments
  infer_instance

instance : Built (segment type) := by
  unfold segment
  infer_instance

instance : Built (nominal type) := by
  unfold nominal
  infer_instance

instance : Built (primary type) := by
  unfold primary
  infer_instance

instance : Built (arrow type) := by
  unfold arrow
  infer_instance

instance : Built (functionOrPrimary type) := by
  unfold functionOrPrimary
  infer_instance

instance : Built (member type) := by
  unfold member
  infer_instance

instance : Built (typeOf type) := by
  unfold typeOf
  infer_instance

end

/-- A type is built from the types nested in it. -/
theorem built_typeWithin (depth : Nat) : Built (typeWithin depth) := by
  induction depth with
  | zero => exact .stop
  | succ depth ih => exact inferInstanceAs (Built (typeOf (typeWithin depth)))

instance (depth : Nat) : Built (typeWithin depth) := built_typeWithin depth

instance [CallStack] : Built document := by
  unfold document
  infer_instance

end SwiftType.Grammar

/-! ## Recipes -/

namespace Parser.Recipe

variable (rules : String → Parser Value)

/-- Parsers of the library in a row are one of the library. -/
theorem built_inOrder (parsers : List (Parser Value)) (h : ∀ p ∈ parsers, Built p) :
    Built (inOrder parsers) := by
  induction parsers with
  | nil => exact .pure []
  | cons p rest ih =>
    obtain ⟨hp, hrest⟩ := List.forall_mem_cons.1 h
    have := ih hrest
    unfold inOrder
    infer_instance

instance (p : Parser String) [Built p] : Built (textValue p) := by
  unfold textValue
  infer_instance

mutual
/-- A recipe describes a built parser, if the rules that it may name are built. -/
theorem built_toParser (hrules : ∀ name, Built (rules name)) :
    ∀ recipe : Recipe, Built (recipe.toParser rules)
  | .pure value => .pure value
  | .fail expected => .fail expected
  | .token literal true => inferInstanceAs (Built (textValue (symbol literal)))
  | .token literal false => inferInstanceAs (Built (textValue (Parser.token literal)))
  | .char _ | .satisfy _ _ | .takeWhile _ | .takeWhile1 _ _ | .keyword | .identifier | .number
  | .skipSpaces | .endOfInput | .quoted _ _ => by
    rw [toParser]
    infer_instance
  | .map _ of | .many of | .many1 of | .slice of | .option _ of => by
    have := built_toParser hrules of
    rw [toParser]
    infer_instance
  | .andThen _ left right => by
    have := built_toParser hrules left
    have := built_toParser hrules right
    rw [toParser]
    infer_instance
  | .orElse left right => .orElse (built_toParser hrules left) (built_toParser hrules right)
  | .choice of => by
    rw [toParser]
    exact .choice (built_toParsers hrules of)
  | .sequence of => by
    have := built_inOrder _ (built_toParsers hrules of)
    rw [toParser]
    infer_instance
  | .rule name => by
    rw [toParser]
    exact hrules name

/-- The same of several recipes. -/
theorem built_toParsers (hrules : ∀ name, Built (rules name)) :
    ∀ recipes : List Recipe, ∀ p ∈ toParsers rules recipes, Built p
  | [], _, h => by
    rw [toParsers] at h
    cases h
  | recipe :: rest, p, h => by
    rw [toParsers, List.mem_cons] at h
    rcases h with rfl | h
    · exact built_toParser hrules recipe
    · exact built_toParsers hrules rest p h
end

/-- Rules of recipes may refer to one another in any way. -/
theorem built_ruleParser (rules : List (String × Recipe)) (depth : Nat) (name : String) :
    Built (ruleParser rules depth name) := by
  induction depth generalizing name with
  | zero => exact .stop
  | succ depth ih =>
    cases hlookup : rules.lookup name with
    | none =>
      have hrule : ruleParser rules (depth + 1) name = Parser.fail name := by
        funext c
        rw [ruleParser, hlookup]
        rfl
      exact hrule ▸ .fail name
    | some recipe =>
      have hrule : ruleParser rules (depth + 1) name =
          recipe.toParser (ruleParser rules depth) := by
        funext c
        rw [ruleParser, hlookup]
      exact hrule ▸ built_toParser _ ih recipe

end Parser.Recipe

/-! ## All rules -/

open Dump.Grammar SwiftType.Grammar in
/-- The rules of the two grammars, and the parsers that recipes describe. What nests is taken at
every depth to which it may be followed. -/
inductive Parser.IsRule : {α : Type} → Parser α → Prop
  | substitution : IsRule Dump.Grammar.substitution
  | group : IsRule Dump.Grammar.group
  | point : IsRule Dump.Grammar.point
  | range : IsRule Dump.Grammar.range
  | typeName : IsRule Dump.Grammar.typeName
  | elements : IsRule Dump.Grammar.elements
  | declSignature : IsRule Dump.Grammar.declSignature
  | decl : IsRule Dump.Grammar.decl
  | rawText : IsRule Dump.Grammar.rawText
  | unknown : IsRule Dump.Grammar.unknown
  | attr : IsRule Dump.Grammar.attr
  | nodeToken : IsRule Dump.Grammar.nodeToken
  | nodeValue : IsRule Dump.Grammar.nodeValue
  | entry (depth : Nat) : IsRule (entryOf (nodeWithin depth))
  | node (depth : Nat) : IsRule (nodeWithin depth)
  | dump [CallStack] : IsRule Dump.Grammar.document
  | oneOf (words : List String) (expected : String) :
      IsRule (SwiftType.Grammar.oneOf words expected)
  | typeAttribute : IsRule SwiftType.Grammar.typeAttribute
  | postfixMark : IsRule SwiftType.Grammar.postfixMark
  | element (depth : Nat) : IsRule (SwiftType.Grammar.element (typeWithin depth))
  | parenList (depth : Nat) : IsRule (SwiftType.Grammar.parenList (typeWithin depth))
  | collection (depth : Nat) : IsRule (SwiftType.Grammar.collection (typeWithin depth))
  | nominal (depth : Nat) : IsRule (SwiftType.Grammar.nominal (typeWithin depth))
  | functionOrPrimary (depth : Nat) :
      IsRule (SwiftType.Grammar.functionOrPrimary (typeWithin depth))
  | type (depth : Nat) : IsRule (typeWithin depth)
  | wholeType [CallStack] : IsRule SwiftType.Grammar.document
  | recipe (recipe : Recipe) (rules : List (String × Recipe)) (depth : Nat) :
      IsRule (recipe.toParser (Recipe.ruleParser rules depth))

/-- The rules of the grammars are built from the library. -/
theorem Parser.IsRule.built {α : Type} {p : Parser α} (h : IsRule p) : Built p := by
  cases h with
  | recipe recipe rules depth =>
    exact Recipe.built_toParser _ (Recipe.built_ruleParser rules depth) recipe
  | _ => infer_instance

end TypeScribe
