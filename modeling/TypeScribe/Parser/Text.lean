import TypeScribe.Parser.Basic
import TypeScribe.Text.Digit
import TypeScribe.Text.Letter
import TypeScribe.Text.Quoted

/-!
# Parsers of characters and words

The parsers that look at characters: literals, runs, quoted text, and the words of a compiler dump
(`keyword`) and of the Swift language (`identifier`).
-/

namespace TypeScribe.Parser

/-! ## Characters and runs -/

/-- One character that satisfies the predicate. -/
def satisfy (predicate : Char → Bool) (expected : String) : Parser Char := fun c =>
  match c.rest with
  | [] => .failed ⟨c.offset, expected⟩
  | x :: rest => if predicate x then .ok x (c.advance 1 rest) else .failed ⟨c.offset, expected⟩

/-- The character `x`. -/
def char (x : Char) : Parser Char := satisfy (· == x) (Text.quoted x.toString)

/-- The longest run of characters that satisfy the predicate; it may be empty. -/
def takeWhile (predicate : Char → Bool) : Parser String := fun c =>
  let run := c.rest.takeWhile predicate
  .ok (String.ofList run) (c.advance run.length (c.rest.dropWhile predicate))

/-- The longest run of characters that satisfy the predicate, at least one. -/
def takeWhile1 (predicate : Char → Bool) (expected : String) : Parser String := fun c =>
  match c.rest.takeWhile predicate with
  | [] => .failed ⟨c.offset, expected⟩
  | run => .ok (String.ofList run) (c.advance run.length (c.rest.dropWhile predicate))

/-- A blank of the dump and of type names: space, tab, carriage return or line feed. -/
def isSpace (c : Char) : Bool := c == ' ' || c == '\t' || c == '\r' || c == '\n'

/-- Any number of blanks. -/
def skipSpaces : Parser Unit := fun c =>
  let run := c.rest.takeWhile isSpace
  .ok () (c.advance run.length (c.rest.dropWhile isSpace))

/-- The literal itself. -/
def token (literal : String) : Parser String := fun c =>
  match c.after? literal.toList with
  | some next => .ok literal next
  | none => .failed ⟨c.offset, Text.quoted literal⟩

/-- The literal, with blanks around it. -/
def symbol (literal : String) : Parser String := do
  skipSpaces
  let found ← token literal
  skipSpaces
  return found

/-- The end of the text. -/
def endOfInput : Parser Unit := fun c =>
  if c.atEnd then .ok () c else .failed ⟨c.offset, "end of input"⟩

/-! ## Words and numbers -/

/-- A character of a word. -/
def isWordChar (c : Char) : Bool := Text.isAlphanumeric c || c == '_' || c == '$'

/-- A character with which an identifier starts. -/
def isIdentifierStart (c : Char) : Bool := Text.isLetter c || c == '_' || c == '$'

/-- A character that continues a keyword of the dump. -/
def isKeywordChar (c : Char) : Bool := isWordChar c || c == '-' || c == ':'

/-- A character that satisfies `first`, then the longest run that satisfies `later`. -/
def word (first later : Char → Bool) (expected : String) : Parser String := do
  let head ← satisfy first expected
  let tail ← takeWhile later
  return head.toString ++ tail

/-- A keyword of the dump: a word that may go on with `-` and `:`. -/
def keyword : Parser String := word isWordChar isKeywordChar "keyword"

/-- The mark around an escaped identifier. -/
def backtick : Char := '\x60'

/-- An identifier between backticks; the backticks stay. -/
def escapedIdentifier : Parser String := do
  let opening ← char backtick
  let name ← takeWhile1 (fun c => c != backtick && c != '\n') "identifier"
  let closing ← char backtick
  return opening.toString ++ name ++ closing.toString

/-- A Swift identifier. -/
def identifier : Parser String :=
  word isIdentifierStart isWordChar "identifier" <|> escapedIdentifier

/-- The number that ASCII digits write. -/
def ofAsciiDigits (digits : List Char) : Nat :=
  digits.foldl (fun n c => 10 * n + (c.toNat - '0'.toNat)) 0

/-- A natural number in ASCII digits. A run of more digits than a numeral may have stops the run. -/
def number : Parser Nat := do
  let digits ← takeWhile1 Char.isDigit "number"
  if Text.longestNumeral < digits.length then stop (.notANumeral digits)
  else return ofAsciiDigits digits.toList

/-! ## Quoted text -/

/-- Splits at the closing quote: the text before it, and what follows it. With `escapes`, a
backslash protects the next character, and both stay in the text. -/
def splitAtQuote (quote : Char) (escapes : Bool) : List Char → Option (List Char × List Char)
  | [] => none
  | c :: rest =>
    if c = quote then some ([], rest)
    else if escapes && c == '\\' then
      match rest with
      | [] => none
      | d :: rest =>
        (splitAtQuote quote escapes rest).map fun (text, rest) => (c :: d :: text, rest)
    else (splitAtQuote quote escapes rest).map fun (text, rest) => (c :: text, rest)

/-- The text between two quotes. A quote that is not closed is a failure at the opening one. -/
def quoted (quote : Char) (escapes : Bool) : Parser String := fun c =>
  match c.rest with
  | [] => .failed ⟨c.offset, quote.toString ++ "-quoted text"⟩
  | x :: rest =>
    if x = quote then
      match splitAtQuote quote escapes rest with
      | some (text, rest) => .ok (String.ofList text) (c.advance (text.length + 2) rest)
      | none => .failed ⟨c.offset, "closing " ++ quote.toString⟩
    else .failed ⟨c.offset, quote.toString ++ "-quoted text"⟩

/-- Text between single quotes. -/
def singleQuoted : Parser String := quoted '\'' false

/-- Text between double quotes, in which a backslash protects the next character. -/
def doubleQuoted : Parser String := quoted '"' true

end TypeScribe.Parser
