/-!
# Runs of code points

A character property of the Unicode standard is stored as a list of runs of code points in
ascending order. `covers` asks whether a code point lies in one of them; it stops at the first run
that starts after the code point, so an ASCII character costs one comparison.
-/

namespace TypeScribe.Text

/-- The code points `first`, `first + step`, … up to `last`. -/
structure CodeRun where
  first : Nat
  last : Nat
  step : Nat

/-- A run of consecutive code points, from its first and last. -/
def CodeRun.ofBounds (bounds : Nat × Nat) : CodeRun := ⟨bounds.1, bounds.2, 1⟩

/-- Is the code point `n` one of the run's members? -/
def CodeRun.contains (run : CodeRun) (n : Nat) : Bool :=
  run.first ≤ n && n ≤ run.last && (n - run.first) % run.step == 0

/-- Is the code point `n` in one of the ascending runs? -/
def covers (n : Nat) : List CodeRun → Bool
  | [] => false
  | run :: rest => if n < run.first then false else run.contains n || covers n rest

/-- A code point before the first run is in none. -/
theorem covers_cons_of_lt {n : Nat} {run : CodeRun} {rest : List CodeRun} (h : n < run.first) :
    covers n (run :: rest) = false := by
  simp [covers, h]

/-- A run that ends before the code point does not matter. -/
theorem covers_cons_of_last_lt {n : Nat} {run : CodeRun} {rest : List CodeRun}
    (h : run.first ≤ n) (h' : run.last < n) : covers n (run :: rest) = covers n rest := by
  simp [covers, CodeRun.contains, Nat.not_lt.mpr h, Nat.not_le.mpr h']

end TypeScribe.Text
