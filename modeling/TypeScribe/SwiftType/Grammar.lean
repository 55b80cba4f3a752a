import TypeScribe.CallStack
import TypeScribe.SwiftType.Basic
import TypeScribe.Parser.Text

/-!
# Reading types

The grammar of the type names that the compiler records. The rules refer to one another through one
parameter `type`, which reads the types nested in them. Nested types are followed as deep as the
call stack has room for them; a name that nests deeper is not read.
-/

namespace TypeScribe.SwiftType

open TypeScribe.Parser

namespace Grammar

/-- Words that may stand before a type. -/
def specifiers : List String :=
  ["inout", "__owned", "__shared", "borrowing", "consuming", "sending", "isolated", "some", "any"]

/-- The effects of a function. -/
def effects : List String := ["async", "throws", "rethrows"]

/-- An identifier after blanks. -/
def name : Parser String := do
  skipSpaces
  identifier

/-- One of the given words, after blanks. Another word is a failure at the place before the blanks.
-/
def oneOf (words : List String) (expected : String) : Parser String := fun c =>
  match name c with
  | .ok word next => if words.contains word then .ok word next else .failed ⟨c.offset, expected⟩
  | reply => reply

/-- The arguments of an attribute: parentheses around text without a closing one. -/
def attributeArguments : Parser String := do
  let opening ← token "("
  let text ← takeWhile (· != ')')
  let closing ← token ")"
  return opening ++ text ++ closing

/-- An attribute such as `@escaping` or `@convention(block)`, as written but for blanks before it.
-/
def typeAttribute : Parser String := do
  skipSpaces
  let mark ← token "@"
  let name ← identifier
  let arguments ← attributeArguments.option ""
  return mark ++ name ++ arguments

/-- What may stand before a type. -/
def modifiers : Parser (List String) := many (choice [typeAttribute, oneOf specifiers "specifier"])

/-- What stands before a postfix or an arrow: a list in parentheses, of which only what follows
tells whether it is a tuple, a parameter list or just a type; or a type. -/
inductive Primary where
  | parens (elements : List (TypeElement SwiftType))
  | plain (type : SwiftType)

namespace Primary

/-- The type that it is by itself: parentheses around one plain type are dropped. -/
def toType : Primary → SwiftType
  | .parens [⟨none, type, false⟩] => type
  | .parens elements => .tuple elements
  | .plain type => type

/-- The parameters that it is before an arrow. -/
def toParameters : Primary → List (TypeElement SwiftType)
  | .parens elements => elements
  | .plain type => [⟨none, type, false⟩]

end Primary

/-- A type with one postfix. -/
def applyPostfix (base : SwiftType) : String → SwiftType
  | "?" => .optional base false
  | "!" => .optional base true
  | ".Protocol" => .metatype base "Protocol"
  | _ => .metatype base "Type"

/-- A primary with its postfixes, from the inside out. -/
def applyPostfixes (base : Primary) (postfixes : List String) : Primary :=
  postfixes.foldl (fun base mark => .plain (applyPostfix base.toType mark)) base

/-- A postfix. -/
def postfixMark : Parser String := choice [token "?", token "!", token ".Type", token ".Protocol"]

section
variable (type : Parser SwiftType)

/-- The label of an element and its colon. -/
def elementLabel : Parser String := do
  let label ← name
  let _ ← symbol ":"
  return label

/-- An element of a list in parentheses. -/
def element : Parser (TypeElement SwiftType) := do
  let label ← option? elementLabel
  let type ← type
  let dots ← option? (symbol "...")
  return ⟨label, type, dots.isSome⟩

/-- One or more items with commas between them. -/
def separated {α : Type} (item : Parser α) : Parser (List α) := do
  let first ← item
  let rest ← many do
    let _ ← symbol ","
    item
  return first :: rest

/-- A list of elements in parentheses. -/
def parenList : Parser Primary := do
  let _ ← symbol "("
  let elements ← (separated (element type)).option []
  let _ ← symbol ")"
  return .parens elements

/-- An array or a dictionary. -/
def collection : Parser SwiftType := do
  let _ ← symbol "["
  let first ← type
  let second ← option? do
    let _ ← symbol ":"
    type
  let _ ← symbol "]"
  return match second with
    | none => .array first
    | some value => .dictionary first value

/-- The generic arguments of a segment. -/
def genericArguments : Parser (List SwiftType) := do
  let _ ← symbol "<"
  let arguments ← separated type
  let _ ← symbol ">"
  return arguments

/-- A name with its generic arguments. -/
def segment : Parser (TypeSegment SwiftType) := do
  let name ← name
  let arguments ← (genericArguments type).option []
  return ⟨name, arguments⟩

/-- A nominal type. -/
def nominal : Parser SwiftType := do
  let first ← segment type
  let rest ← many do
    let _ ← token "."
    segment type
  return .nominal (first :: rest)

/-- A list in parentheses, a collection or a nominal type. -/
def primary : Parser Primary :=
  choice [parenList type, Primary.plain <$> collection type, Primary.plain <$> nominal type]

/-- The effects, the arrow and the result of a function type. -/
def arrow : Parser (List String × SwiftType) := do
  let effects ← many (oneOf effects "effect")
  let _ ← symbol "->"
  let result ← type
  return (effects, result)

/-- A function type, or a type with its postfixes. -/
def functionOrPrimary : Parser SwiftType := do
  let base ← primary type
  let postfixes ← many postfixMark
  let base := applyPostfixes base postfixes
  let tail ← option? (arrow type)
  return match tail with
    | none => base.toType
    | some (effects, result) => .function base.toParameters result effects

/-- A member of a composition. -/
def member : Parser SwiftType := do
  let attributes ← modifiers
  let base ← functionOrPrimary type
  return if attributes.isEmpty then base else .attributed attributes base

/-- A type, where `type` reads the types nested in it. -/
def typeOf : Parser SwiftType := do
  let first ← member type
  let rest ← many do
    let _ ← symbol "&"
    member type
  return if rest.isEmpty then first else .composition (first :: rest)

end

/-- A type with at most `depth` types nested in one another, itself included. -/
def typeWithin : Nat → Parser SwiftType
  | 0, _ => .stopped .tooDeep
  | depth + 1, c => typeOf (fun c => typeWithin depth c) c

/-- A whole type name. -/
def document [CallStack] : Parser SwiftType := do
  let type ← typeWithin CallStack.types
  skipSpaces
  endOfInput
  return type

end Grammar

/-- Why no type is read from a text. -/
inductive Unread where
  /-- The text is not understood. -/
  | unexpected (failure : Failure)
  /-- Reading was stopped. -/
  | stopped (stop : Stop)
deriving DecidableEq

/-- Reads a type name. -/
def parse [CallStack] (text : String) : Except Unread SwiftType :=
  match Grammar.document (.start text.toList) with
  | .ok type _ => .ok type
  | .failed failure => .error (.unexpected failure)
  | .stopped stop => .error (.stopped stop)

end TypeScribe.SwiftType
