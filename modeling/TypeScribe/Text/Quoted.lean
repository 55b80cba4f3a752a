import TypeScribe.Text.Printable

/-!
# Quoted text

How a text is shown in a message: between single quotes, or between double quotes when it holds a
single quote and no double one. A backslash and the quote in use are escaped with a backslash; line
feed, carriage return and tab have their letters; any other unprintable character is written by its
code point in two, four or eight hexadecimal digits.
-/

namespace TypeScribe.Text

/-- The lower-case hexadecimal digits of `n`, padded with zeros to `width`. -/
def hexadecimal (width n : Nat) : List Char :=
  let digits := Nat.toDigits 16 n
  List.replicate (width - digits.length) '0' ++ digits

/-- The quote that a text is shown in. -/
def quoteFor (text : List Char) : Char :=
  if text.contains '\'' && !text.contains '"' then '"' else '\''

/-- One character as it is shown between `quote`s. -/
def shownChar (quote c : Char) : List Char :=
  if c = quote || c = '\\' then ['\\', c]
  else if c = '\n' then ['\\', 'n']
  else if c = '\r' then ['\\', 'r']
  else if c = '\t' then ['\\', 't']
  else if isPrintable c then [c]
  else if c.toNat < 0x100 then '\\' :: 'x' :: hexadecimal 2 c.toNat
  else if c.toNat < 0x10000 then '\\' :: 'u' :: hexadecimal 4 c.toNat
  else '\\' :: 'U' :: hexadecimal 8 c.toNat

/-- The text between quotes, with what cannot stand there escaped. -/
def quoted (text : String) : String :=
  let quote := quoteFor text.toList
  String.ofList (quote :: (text.toList.flatMap (shownChar quote) ++ [quote]))

end TypeScribe.Text
