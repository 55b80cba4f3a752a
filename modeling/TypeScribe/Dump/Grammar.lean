import TypeScribe.CallStack
import TypeScribe.Dump.Entry
import TypeScribe.Parser.Text
import TypeScribe.Text.Blank

/-!
# Grammar of a dump

The rules by which the text of a dump is read. The order of the alternatives matters: an earlier one
shadows a later one. Groups in parentheses and substitutions are scanned to their balanced end with
a counter, so only nested nodes take room on the call stack.
-/

namespace TypeScribe.Dump.Grammar

open TypeScribe.Parser

/-! ## Balanced text -/

/-- Reads up to and including the first `closing` that stands outside parentheses. `depth` counts
the parentheses that are open. -/
def closeBalancedFrom (closing : Char) (offset depth : Nat) : List Char → Reply Unit
  | [] => .failed ⟨offset, "'" ++ closing.toString ++ "'"⟩
  | c :: rest =>
    if c = closing && depth = 0 then .ok () ⟨offset + 1, rest, false⟩
    else if c = '(' then closeBalancedFrom closing (offset + 1) (depth + 1) rest
    else if c = ')' then
      match depth with
      | 0 => .failed ⟨offset, "balanced parentheses"⟩
      | depth + 1 => closeBalancedFrom closing (offset + 1) depth rest
    else closeBalancedFrom closing (offset + 1) depth rest

/-- Reads up to and including the first `closing` that stands outside parentheses. -/
def closeBalanced (closing : Char) : Parser Unit := fun c =>
  closeBalancedFrom closing c.offset 0 c.rest

/-- A `[with ...]` block, as written. -/
def substitution : Parser String := slice do
  let _ ← token "[with"
  closeBalanced ']'

/-- A group in parentheses such as `(a<direct> self<direct>)`, as written. -/
def group : Parser String := slice do
  let _ ← token "("
  closeBalanced ')'

/-! ## Points, ranges, names -/

/-- A file name, a line and a column, with colons between them. -/
def point : Parser Point := do
  let fileName ← takeWhile1 (fun c => c != ':' && c != ' ' && c != '\n') "file name"
  let _ ← token ":"
  let line ← number
  let _ ← token ":"
  let column ← number
  return ⟨fileName, line, column⟩

/-- Two points between brackets. -/
def range : Parser Range := do
  let _ ← token "["
  let start ← point
  let _ ← token " - "
  let stop ← point
  let _ ← token "]"
  return ⟨start, stop⟩

/-- A type name between single quotes. -/
def typeName : Parser String := singleQuoted

/-- Text between brackets. -/
def elements : Parser (List String) := do
  let _ ← token "["
  let text ← takeWhile (· != ']')
  let _ ← token "]"
  return [text]

/-! ## Declarations -/

/-- A character of an operator's name. -/
def isOperatorChar (c : Char) : Bool := "/=-+!*%<>&|^~?".toList.contains c

/-- The name of a function or an operator. -/
def declName : Parser String := keyword <|> takeWhile1 isOperatorChar "operator"

/-- A function with its argument labels: `foo(arg:)`, `foo()`, `==(_:_:)`. -/
def functionSignature : Parser String := do
  let name ← declName
  let opening ← token "("
  let labels ← keyword.option ""
  let closing ← token ")"
  return name ++ opening ++ labels ++ closing

/-- The mark of a file, such as `(file)`. -/
def fileSignature : Parser String := do
  let opening ← token "("
  let name ← keyword
  let closing ← token ")"
  return opening ++ name ++ closing

/-- A dot and one component of a signature. -/
def dottedComponent : Parser String := do
  let dot ← token "."
  let component ← choice [functionSignature, fileSignature, declName]
  return dot ++ component

/-- A signature such as `Swift.(file).Int.init(_builtinIntegerLiteral:)`, with at least one dot. -/
def declSignature : Parser String := do
  let head ← keyword
  let components ← many1 dottedComponent
  return head ++ String.join components

/-- A declaration: signatures with blanks between them, then perhaps a substitution. -/
def decl : Parser Decl := do
  let signatures ← many1 do
    skipSpaces
    let signature ← declSignature
    skipSpaces
    return signature
  skipSpaces
  let substitution ← option? substitution
  return ⟨String.intercalate " " signatures, substitution⟩

/-! ## Attributes and tokens -/

/-- A character that raw text may hold. -/
def isRawChar (c : Char) : Bool := !isSpace c && c != '(' && c != ')'

/-- A character with which raw text may start. -/
def isRawStart (c : Char) : Bool := isRawChar c && c != '\'' && c != '"' && c != '='

/-- Unquoted text up to a blank or a parenthesis. -/
def rawText : Parser String := do
  let head ← takeWhile1 isRawStart "text"
  let tail ← takeWhile isRawChar
  return head ++ tail

/-- The value of an attribute that has no rule of its own, as written. -/
def unknownValue : Parser String :=
  choice [slice range, slice typeName, slice point, slice elements, slice decl, slice doubleQuoted,
    slice group, slice rawText]

/-- The value without the blanks that a declaration takes with it. -/
def trimmedValue : Parser String := do
  let _ ← token "="
  let value ← unknownValue
  return String.ofList (Text.trimEnd value.toList)

/-- Any keyword, with or without a value. -/
def unknown : Parser Attribute := do
  let name ← keyword
  let value ← option? trimmedValue
  return .unknown name value

/-- An attribute of a node. -/
def attr : Parser Attribute :=
  choice [
    do let _ ← token "range="; return .range (← range),
    do let _ ← token "type="; return .type (← typeName),
    do let _ ← token "location="; return .location (← point),
    do let _ ← token "nothrow"; return .nothrow,
    do let _ ← token "decl="; return .decl (← decl),
    unknown]

/-- A token of a node. -/
def nodeToken : Parser Token :=
  choice [Token.singleQuoted <$> singleQuoted, Token.doubleQuoted <$> doubleQuoted,
    Token.raw <$> rawText]

/-! ## Nodes -/

/-- The quoted value that may follow a node's name. -/
def nodeValue : Parser (Option String) := option? doubleQuoted

/-- One entry of a node, where `node` reads the nodes below it. -/
def entryOf (node : Parser RawNode) : Parser Entry :=
  Entry.attr <$> attr <|> RawNode.toEntry <$> node <|> Entry.token <$> nodeToken

/-- A node in parentheses, where `node` reads the nodes below it. -/
def nodeOf (node : Parser RawNode) : Parser RawNode := do
  let _ ← token "("
  let name ← keyword
  skipSpaces
  let value ← nodeValue
  let entries ← many do
    skipSpaces
    let entry ← entryOf node
    skipSpaces
    return entry
  skipSpaces
  let _ ← token ")"
  return ⟨name, value, entries⟩

/-- A node with at most `depth` nodes nested in one another, itself included. -/
def nodeWithin : Nat → Parser RawNode
  | 0, _ => .stopped .tooDeep
  | depth + 1, c => nodeOf (fun c => nodeWithin depth c) c

section
variable [CallStack]

/-- A node. -/
def node : Parser RawNode := nodeWithin CallStack.nodes

/-- One entry of a node. -/
def entry : Parser Entry := entryOf node

/-- A whole dump: one node, with blanks around it. -/
def document : Parser RawNode := do
  skipSpaces
  let root ← node
  skipSpaces
  endOfInput
  return root

end

end Grammar

/-! ## Reading a dump -/

/-- Why a text is not a dump. -/
inductive Malformed where
  | unexpected (failure : Failure)
  | tooDeep
deriving DecidableEq

namespace Malformed

/-- Where the text stops being a dump; one that nests too deep is blamed as a whole. -/
def offset : Malformed → Nat
  | .unexpected failure => failure.offset
  | .tooDeep => 0

/-- The wording of each reason. -/
def message : Malformed → String
  | .unexpected failure =>
    "Malformed AST dump: expected " ++ failure.expected ++
      " (at offset " ++ toString failure.offset ++ ")"
  | .tooDeep => "Malformed AST dump: nesting too deep (at offset 0)"

end Malformed

/-- Why no dump is read from a text. -/
inductive Unread where
  /-- The text is not a dump. -/
  | malformed (reason : Malformed)
  /-- A line or a column has too many digits for a numeral. -/
  | notANumeral (digits : String)
deriving DecidableEq

/-- Reads a whole dump; all or nothing. -/
def RawNode.parse [CallStack] (text : String) : Except Unread RawNode :=
  match Grammar.document (.start text.toList) with
  | .ok root _ => .ok root
  | .failed failure => .error (.malformed (.unexpected failure))
  | .stopped .tooDeep => .error (.malformed .tooDeep)
  | .stopped (.notANumeral digits) => .error (.notANumeral digits)

end TypeScribe.Dump
