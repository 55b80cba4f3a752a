/-!
# Shell words

Splits a line into arguments the way a shell does, without expansions. Blanks (space, tab, carriage
return, line feed) end a word. Between single quotes everything is literal; between double quotes a
backslash protects only a double quote or a backslash; outside quotes it protects any character.
Quoted pieces join the word they touch, and an empty pair of quotes is an empty word.
-/

namespace TypeScribe.Text

/-- Why a line cannot be split. -/
inductive ShellWordsError where
  /-- A quote is not closed. -/
  | openQuote
  /-- A backslash ends the line. -/
  | danglingBackslash
deriving DecidableEq

/-- The wording of each reason. -/
def ShellWordsError.message : ShellWordsError → String
  | .openQuote => "No closing quotation"
  | .danglingBackslash => "No escaped character"

/-- Where the splitter stands. -/
inductive ShellPlace where
  /-- Between words. -/
  | outside
  /-- In a word, outside quotes. -/
  | word
  /-- Between single quotes. -/
  | single
  /-- Between double quotes. -/
  | double
deriving DecidableEq

/-- A character that ends a word. -/
def isShellBlank (c : Char) : Bool := c = ' ' || c = '\t' || c = '\r' || c = '\n'

/-- Splits the rest of a line. `word` holds the characters of the current word, last one first. -/
def shellWordsFrom : ShellPlace → List Char → List Char → Except ShellWordsError (List String)
  | .outside, _, [] => .ok []
  | .word, word, [] => .ok [String.ofList word.reverse]
  | .single, _, [] => .error .openQuote
  | .double, _, [] => .error .openQuote
  | .single, word, c :: rest =>
    if c = '\'' then shellWordsFrom .word word rest else shellWordsFrom .single (c :: word) rest
  | .double, word, '\\' :: rest =>
    match rest with
    | [] => .error .danglingBackslash
    | d :: rest =>
      if d = '"' || d = '\\' then shellWordsFrom .double (d :: word) rest
      else shellWordsFrom .double (d :: '\\' :: word) rest
  | .double, word, c :: rest =>
    if c = '"' then shellWordsFrom .word word rest else shellWordsFrom .double (c :: word) rest
  | _, word, '\\' :: rest =>
    match rest with
    | [] => .error .danglingBackslash
    | d :: rest => shellWordsFrom .word (d :: word) rest
  | place, word, c :: rest =>
    if c = '\'' then shellWordsFrom .single word rest
    else if c = '"' then shellWordsFrom .double word rest
    else if isShellBlank c then
      if place = .outside then shellWordsFrom .outside [] rest
      else (shellWordsFrom .outside [] rest).map (String.ofList word.reverse :: ·)
    else shellWordsFrom .word (c :: word) rest

/-- The arguments in a line. -/
def shellWords (line : String) : Except ShellWordsError (List String) :=
  shellWordsFrom .outside [] line.toList

end TypeScribe.Text
