import TypeScribe.Parser.Text

/-!
# Parsers as data

A `Recipe` describes a parser built from the combinators, over values of a small dynamic type. It
has a label, composed from the labels of its parts, and a meaning as a parser. Rules that a recipe
names may be recursive; a rule that is entered again at the place where it is still being tried
would never end, so the depth of nested rules is bounded by the number of rules times the number of
places in the text.
-/

namespace TypeScribe.Parser

/-- The values that recipes compute with. -/
inductive Value where
  | null
  | bool (value : Bool)
  | int (value : Int)
  | text (value : String)
  | list (items : List Value)
  | record (fields : List (String × Value))

instance : Inhabited Value := ⟨.null⟩

/-- How a recipe transforms a value. -/
inductive Transform where
  /-- The number of characters or of items. -/
  | length
  /-- The texts of a list, one after another. -/
  | concat
  /-- The number, text or list twice. -/
  | double
  /-- A list of the value alone. -/
  | wrap
deriving DecidableEq

/-- How a recipe combines the values of two parsers that run in sequence. -/
inductive Combine where
  /-- A list of both. -/
  | pair
  /-- The first one. -/
  | left
  /-- The second one. -/
  | right
  /-- The sum of numbers, or both texts or lists one after the other. -/
  | add
deriving DecidableEq

/-- Which characters a recipe accepts. -/
inductive CharSet where
  | among (chars : List Char)
  | notAmong (chars : List Char)
  | letter
  | alphanumeric
  | any
  | nothing

/-- Does the set hold the character? -/
def CharSet.contains : CharSet → Char → Bool
  | .among chars, c => chars.contains c
  | .notAmong chars, c => !chars.contains c
  | .letter, c => Text.isLetter c
  | .alphanumeric, c => Text.isAlphanumeric c
  | .any, _ => true
  | .nothing, _ => false

/-- The text in a value, or nothing. -/
def Value.asText : Value → String
  | .text value => value
  | _ => ""

/-- Applies a transformation; a value that it is not meant for stays as it is. -/
def Transform.apply : Transform → Value → Value
  | .length, .text value => .int value.length
  | .length, .list items => .int items.length
  | .length, .record fields => .int fields.length
  | .concat, .list items => .text (String.join (items.map Value.asText))
  | .double, .int value => .int (value * 2)
  | .double, .text value => .text (value ++ value)
  | .double, .list items => .list (items ++ items)
  | .wrap, value => .list [value]
  | _, value => value

/-- Combines two values; `add` keeps the first of two that cannot be added. -/
def Combine.apply : Combine → Value → Value → Value
  | .pair, a, b => .list [a, b]
  | .left, a, _ => a
  | .right, _, b => b
  | .add, .text a, .text b => .text (a ++ b)
  | .add, .list a, .list b => .list (a ++ b)
  | .add, .int a, .int b => .int (a + b)
  | .add, a, _ => a

/-- A description of a parser. -/
inductive Recipe where
  | pure (value : Value)
  | fail (expected : String)
  | token (literal : String) (skipSpaces : Bool)
  | char (expected : String)
  | satisfy (set : CharSet) (expected : String)
  | takeWhile (set : CharSet)
  | takeWhile1 (set : CharSet) (expected : String)
  | keyword
  | identifier
  | number
  | skipSpaces
  | endOfInput
  | quoted (quote : Char) (escapes : Bool)
  | map (transform : Transform) (of : Recipe)
  | andThen (combine : Combine) (left right : Recipe)
  | orElse (left right : Recipe)
  | many (of : Recipe)
  | many1 (of : Recipe)
  | slice (of : Recipe)
  | option (default : Value) (of : Recipe)
  | choice (of : List Recipe)
  | sequence (of : List Recipe)
  | rule (name : String)

namespace Recipe

mutual
/-- What the parser is called. -/
def label : Recipe → String
  | .pure _ => "pure"
  | .fail expected => expected
  | .token literal _ => Text.quoted literal
  | .char expected => Text.quoted expected
  | .satisfy _ expected => expected
  | .takeWhile _ => "run"
  | .takeWhile1 _ expected => expected
  | .keyword => "keyword run"
  | .identifier => "identifier run | '`' identifier '`'"
  | .number => "number"
  | .skipSpaces => "whitespace"
  | .endOfInput => "end of input"
  | .quoted quote _ => quote.toString ++ "-quoted text"
  | .map _ of => of.label
  | .andThen _ left right => left.label ++ " " ++ right.label
  | .orElse left right => left.label ++ " | " ++ right.label
  | .many of => "many(" ++ of.label ++ ")"
  | .many1 of => of.label ++ " many(" ++ of.label ++ ")"
  | .slice of => of.label
  | .option _ of => of.label ++ " | pure"
  | .choice of => String.intercalate " | " (labels of)
  | .sequence of => String.intercalate " " (labels of)
  | .rule _ => "lazy"

/-- The labels of several parsers. -/
def labels : List Recipe → List String
  | [] => []
  | recipe :: rest => recipe.label :: labels rest
end

/-- The text of a parser of texts, as a value. -/
def textValue (p : Parser String) : Parser Value := Value.text <$> p

/-- Runs parsers one after another and lists their values. -/
def inOrder : List (Parser Value) → Parser (List Value)
  | [] => Parser.pure []
  | p :: rest => do
    let first ← p
    let values ← inOrder rest
    return first :: values

mutual
/-- The parser that the recipe describes, with the rules it may name. -/
def toParser (rules : String → Parser Value) : Recipe → Parser Value
  | .pure value => Parser.pure value
  | .fail expected => Parser.fail expected
  | .token literal skip => textValue (if skip then symbol literal else Parser.token literal)
  | .char expected =>
    textValue (Char.toString <$>
      Parser.satisfy (fun c => c.toString == expected) (Text.quoted expected))
  | .satisfy set expected => textValue (Char.toString <$> Parser.satisfy set.contains expected)
  | .takeWhile set => textValue (Parser.takeWhile set.contains)
  | .takeWhile1 set expected => textValue (Parser.takeWhile1 set.contains expected)
  | .keyword => textValue Parser.keyword
  | .identifier => textValue Parser.identifier
  | .number => (fun n => Value.int (Int.ofNat n)) <$> Parser.number
  | .skipSpaces => (fun _ => Value.null) <$> Parser.skipSpaces
  | .endOfInput => (fun _ => Value.null) <$> Parser.endOfInput
  | .quoted quote escapes => textValue (Parser.quoted quote escapes)
  | .map transform of => transform.apply <$> toParser rules of
  | .andThen combine left right => do
    let first ← toParser rules left
    let second ← toParser rules right
    return combine.apply first second
  | .orElse left right => Parser.orElse (toParser rules left) (toParser rules right)
  | .many of => Value.list <$> (toParser rules of).many
  | .many1 of => Value.list <$> (toParser rules of).many1
  | .slice of => textValue (toParser rules of).slice
  | .option default of => (toParser rules of).option default
  | .choice of => Parser.choice (toParsers rules of)
  | .sequence of => Value.list <$> inOrder (toParsers rules of)
  | .rule name => rules name

/-- The parsers that several recipes describe. -/
def toParsers (rules : String → Parser Value) : List Recipe → List (Parser Value)
  | [] => []
  | recipe :: rest => toParser rules recipe :: toParsers rules rest
end

/-- The parser of a named rule, followed at most `depth` rules deep. -/
def ruleParser (rules : List (String × Recipe)) : Nat → String → Parser Value
  | 0, _, _ => .stopped .tooDeep
  | depth + 1, name, c =>
    match rules.lookup name with
    | some recipe => toParser (ruleParser rules depth) recipe c
    | none => .failed ⟨c.offset, name⟩

/-- Runs a recipe on a text, after its first `offset` characters. -/
def runAt (recipe : Recipe) (rules : List (String × Recipe)) (text : String) (offset : Nat) :
    Reply Value :=
  let depth := rules.length * (text.length + 1)
  recipe.toParser (ruleParser rules depth) (.within text.toList offset)

end Recipe

end TypeScribe.Parser
