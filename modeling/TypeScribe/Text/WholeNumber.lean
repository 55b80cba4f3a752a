import TypeScribe.Text.Blank
import TypeScribe.Text.Digit

/-!
# Whole numbers

A whole number as a user may write it: white space around it, an optional sign, ASCII digits with
single underscores between them, and perhaps a decimal point with nothing but zeros after it. Among
leading zeros underscores may stand in any number.
-/

namespace TypeScribe.Text

/-- ASCII digits in which one underscore may stand between two digits. -/
def readGrouped? (text : List Char) : Option Nat :=
  let groups := text.splitOnP (· == '_')
  if groups.all fun group => !group.isEmpty && group.all Char.isDigit then
    readDecimal? groups.flatten
  else none

/-- A numeral without its leading zeros and the underscores among them. If nothing else is left, it
is its last character. -/
def dropLeadingZeros : List Char → List Char
  | '0' :: rest =>
    match rest.dropWhile fun c => c == '0' || c == '_' with
    | [] => ('0' :: rest).getLast?.toList
    | significant => significant
  | text => text

/-- Reads a number without a sign. -/
def readUnsigned? (text : List Char) : Option Nat :=
  let fraction := (text.dropWhile (· != '.')).drop 1
  if fraction.all (· == '0') then readGrouped? (dropLeadingZeros (text.takeWhile (· != '.')))
  else none

/-- Reads a whole number. -/
def readWholeNumber? (text : List Char) : Option Int :=
  match trimSpacing text with
  | '+' :: rest => (readUnsigned? rest).map Int.ofNat
  | '-' :: rest => (readUnsigned? rest).map fun n => -(Int.ofNat n)
  | number => (readUnsigned? number).map Int.ofNat

end TypeScribe.Text
