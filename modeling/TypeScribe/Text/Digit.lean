import TypeScribe.Text.CodeRun

/-!
# Digits

Two notions of digit. A *decimal* digit belongs to a positional numeral system and has a value from
0 to 9 (`decimalValue?`); a *digit* in the wider sense may also be a superscript or a circled figure
(`isDigit`), which no numeral can be read from. `readDecimal?` reads a numeral in decimal digits of
any script.
-/

namespace TypeScribe.Text

/-- First and last code points of the runs of decimal digits beyond ASCII. Each run counts from 0 to
9, once or several times over. -/
def decimalRuns : List (Nat × Nat) :=
  [(0x660, 0x669), (0x6f0, 0x6f9), (0x7c0, 0x7c9), (0x966, 0x96f), (0x9e6, 0x9ef), (0xa66, 0xa6f),
   (0xae6, 0xaef), (0xb66, 0xb6f), (0xbe6, 0xbef), (0xc66, 0xc6f), (0xce6, 0xcef), (0xd66, 0xd6f),
   (0xde6, 0xdef), (0xe50, 0xe59), (0xed0, 0xed9), (0xf20, 0xf29), (0x1040, 0x1049),
   (0x1090, 0x1099), (0x17e0, 0x17e9), (0x1810, 0x1819), (0x1946, 0x194f), (0x19d0, 0x19d9),
   (0x1a80, 0x1a89), (0x1a90, 0x1a99), (0x1b50, 0x1b59), (0x1bb0, 0x1bb9), (0x1c40, 0x1c49),
   (0x1c50, 0x1c59), (0xa620, 0xa629), (0xa8d0, 0xa8d9), (0xa900, 0xa909), (0xa9d0, 0xa9d9),
   (0xa9f0, 0xa9f9), (0xaa50, 0xaa59), (0xabf0, 0xabf9), (0xff10, 0xff19), (0x104a0, 0x104a9),
   (0x10d30, 0x10d39), (0x11066, 0x1106f), (0x110f0, 0x110f9), (0x11136, 0x1113f),
   (0x111d0, 0x111d9), (0x112f0, 0x112f9), (0x11450, 0x11459), (0x114d0, 0x114d9),
   (0x11650, 0x11659), (0x116c0, 0x116c9), (0x11730, 0x11739), (0x118e0, 0x118e9),
   (0x11950, 0x11959), (0x11c50, 0x11c59), (0x11d50, 0x11d59), (0x11da0, 0x11da9),
   (0x16a60, 0x16a69), (0x16ac0, 0x16ac9), (0x16b50, 0x16b59), (0x1d7ce, 0x1d7ff),
   (0x1e140, 0x1e149), (0x1e2f0, 0x1e2f9), (0x1e950, 0x1e959), (0x1fbf0, 0x1fbf9)]

/-- First and last code points of the runs of digits beyond ASCII that are not decimal digits. -/
def figureRuns : List (Nat × Nat) :=
  [(0xb2, 0xb3), (0xb9, 0xb9), (0x1369, 0x1371), (0x19da, 0x19da), (0x2070, 0x2070),
   (0x2074, 0x2079), (0x2080, 0x2089), (0x2460, 0x2468), (0x2474, 0x247c), (0x2488, 0x2490),
   (0x24ea, 0x24ea), (0x24f5, 0x24fd), (0x24ff, 0x24ff), (0x2776, 0x277e), (0x2780, 0x2788),
   (0x278a, 0x2792), (0x10a40, 0x10a43), (0x10e60, 0x10e68), (0x11052, 0x1105a), (0x1f100, 0x1f10a)]

/-- The value of a decimal digit of any script. -/
def decimalValue? (c : Char) : Option Nat :=
  if c.isDigit then some (c.toNat - '0'.toNat)
  else
    (decimalRuns.find? fun run => run.1 ≤ c.toNat && c.toNat ≤ run.2).map fun run =>
      (c.toNat - run.1) % 10

/-- The digits beyond ASCII that are not decimal. -/
def figureTable : List CodeRun := figureRuns.map CodeRun.ofBounds

/-- A digit, decimal or not. -/
def isDigit (c : Char) : Bool := (decimalValue? c).isSome || covers c.toNat figureTable

/-- The number written by a list of decimal digits, most significant first. -/
def ofDigits (digits : List Nat) : Nat := digits.foldl (fun n d => 10 * n + d) 0

/-- The most digits that a numeral may have. -/
def longestNumeral : Nat := 4300

/-- Reads a non-empty run of decimal digits of any script, unless it is too long. -/
def readDecimal? (digits : List Char) : Option Nat :=
  if digits.isEmpty || longestNumeral < digits.length then none
  else (digits.mapM decimalValue?).map ofDigits

/-- Every decimal digit is a digit. -/
theorem isDigit_of_decimalValue? {c : Char} {n : Nat} (h : decimalValue? c = some n) :
    isDigit c = true := by
  simp [isDigit, h]

end TypeScribe.Text
