/-!
# Points and ranges

A point is a place in a source file as the compiler prints it. Points are ordered by line and column
alone, while equality also compares the file name: two points may be neither equal nor ordered.
-/

namespace TypeScribe.Dump

/-- A place in a source file; lines and columns count from one. -/
structure Point where
  fileName : String
  line : Int
  column : Int
deriving DecidableEq

namespace Point

/-- Strictly before, by line and then by column. -/
protected def lt (a b : Point) : Prop := a.line < b.line ∨ a.line = b.line ∧ a.column < b.column

/-- Before or at the same line and column. -/
protected def le (a b : Point) : Prop := a.line < b.line ∨ a.line = b.line ∧ a.column ≤ b.column

instance : LT Point := ⟨Point.lt⟩

instance : LE Point := ⟨Point.le⟩

instance (a b : Point) : Decidable (a < b) :=
  inferInstanceAs (Decidable (a.line < b.line ∨ a.line = b.line ∧ a.column < b.column))

instance (a b : Point) : Decidable (a ≤ b) :=
  inferInstanceAs (Decidable (a.line < b.line ∨ a.line = b.line ∧ a.column ≤ b.column))

theorem lt_iff {a b : Point} :
    a < b ↔ a.line < b.line ∨ a.line = b.line ∧ a.column < b.column := Iff.rfl

theorem le_iff {a b : Point} :
    a ≤ b ↔ a.line < b.line ∨ a.line = b.line ∧ a.column ≤ b.column := Iff.rfl

/-- The order is total: what is not before or beside a point is after it. -/
theorem not_le {a b : Point} : ¬a ≤ b ↔ b < a := by
  rw [le_iff, lt_iff]; omega

/-- As the compiler prints it. -/
def text (p : Point) : String :=
  p.fileName ++ ":" ++ toString p.line ++ ":" ++ toString p.column

end Point

/-- A stretch of a source file; both ends belong to it. -/
structure Range where
  start : Point
  stop : Point
deriving DecidableEq

namespace Range

/-- Does the point lie in the range, by line and column? -/
def contains (range : Range) (point : Point) : Bool := range.start ≤ point && point ≤ range.stop

/-- As the compiler prints it. -/
def text (range : Range) : String := "[" ++ range.start.text ++ " - " ++ range.stop.text ++ "]"

end Range

end TypeScribe.Dump
