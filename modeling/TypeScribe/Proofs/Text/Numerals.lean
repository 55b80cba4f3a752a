import Mathlib.Data.List.Forall2
import Mathlib.Data.Nat.Digits.Defs
import TypeScribe.Text.Digit

/-!
# Numerals

Which texts are numerals, and of which numbers (`IsNumeralOf`), said without the way they are read;
`readDecimal?` reads these and no others (`readDecimal?_eq_some_iff`). Digits alone do not make a
numeral: a figure has no value, and a numeral may be too long (`readDecimal?_eq_none_iff`).
-/

namespace TypeScribe.Text

/-- One digit at least, decimal or not. -/
def IsDigits (text : List Char) : Prop := text ≠ [] ∧ ∀ c ∈ text, isDigit c = true

/-- Decimal digits of any script that write a number, the most significant one first. -/
structure IsNumeralOf (text : List Char) (n : Nat) : Prop where
  ne_nil : text ≠ []
  length_le : text.length ≤ longestNumeral
  value : ∃ digits, text.Forall₂ (fun c digit => decimalValue? c = some digit) digits ∧
    n = Nat.ofDigits 10 digits.reverse

/-- What keeps digits from being a numeral. -/
def IsUnreadable (text : List Char) : Prop :=
  longestNumeral < text.length ∨ ∃ c ∈ text, decimalValue? c = none

/-- Digits are worth what the library's are worth, read from behind. -/
theorem ofDigits_eq (digits : List Nat) : ofDigits digits = Nat.ofDigits 10 digits.reverse := by
  rw [Nat.ofDigits_eq_foldr, List.foldr_reverse, ofDigits]
  congr 1
  funext n digit
  exact Nat.add_comm (10 * n) digit

section
variable {α β : Type} {f : α → Option β}

/-- A list is mapped if its first member is and the others are. -/
theorem mapM_cons_eq_some_iff {a : α} {list : List α} {images : List β} :
    (a :: list).mapM f = some images ↔
      ∃ image later, f a = some image ∧ list.mapM f = some later ∧ images = image :: later := by
  simp only [List.mapM_cons, Option.bind_eq_bind, Option.bind_eq_some_iff, Option.pure_def,
    Option.some.injEq]
  constructor
  · rintro ⟨image, himage, later, hlater, rfl⟩
    exact ⟨image, later, himage, hlater, rfl⟩
  · rintro ⟨image, later, himage, hlater, rfl⟩
    exact ⟨image, himage, later, hlater, rfl⟩

/-- A list is mapped if each of its members is. -/
theorem mapM_eq_some_iff_forall₂ {list : List α} {images : List β} :
    list.mapM f = some images ↔ list.Forall₂ (fun a image => f a = some image) images := by
  induction list generalizing images with
  | nil =>
    rw [List.mapM_nil, List.forall₂_nil_left_iff, Option.pure_def, Option.some.injEq, eq_comm]
  | cons a list ih =>
    rw [mapM_cons_eq_some_iff, List.forall₂_cons_left_iff]
    simp only [ih, exists_and_left]

/-- A list is not mapped if one of its members is not. -/
theorem mapM_eq_none_iff {list : List α} : list.mapM f = none ↔ ∃ a ∈ list, f a = none := by
  induction list with
  | nil => simp
  | cons a list ih =>
    simp only [List.mem_cons, exists_eq_or_imp, ← ih, List.mapM_cons]
    cases ha : f a with
    | none => simp
    | some image => cases hlist : list.mapM f <;> simp

end

/-- Exactly the numerals are read, each as its number. -/
theorem readDecimal?_eq_some_iff {text : List Char} {n : Nat} :
    readDecimal? text = some n ↔ IsNumeralOf text n := by
  unfold readDecimal?
  split
  · next hguard =>
    simp only [Bool.or_eq_true, List.isEmpty_iff, decide_eq_true_eq] at hguard
    refine iff_of_false (Option.some_ne_none n).symm fun hnumeral => ?_
    rcases hguard with hnil | hlong
    · exact hnumeral.ne_nil hnil
    · exact Nat.not_lt.2 hnumeral.length_le hlong
  · next hguard =>
    simp only [Bool.or_eq_true, List.isEmpty_iff, decide_eq_true_eq, not_or, Nat.not_lt] at hguard
    simp only [Option.map_eq_some_iff, mapM_eq_some_iff_forall₂, ofDigits_eq]
    constructor
    · rintro ⟨digits, hdigits, rfl⟩
      exact ⟨hguard.1, hguard.2, digits, hdigits, rfl⟩
    · rintro ⟨-, -, digits, hdigits, rfl⟩
      exact ⟨digits, hdigits, rfl⟩

/-- A text is not read if it is too long or if one of its characters has no value. -/
theorem readDecimal?_eq_none_iff {text : List Char} (h : text ≠ []) :
    readDecimal? text = none ↔ IsUnreadable text := by
  unfold readDecimal?
  rw [List.isEmpty_eq_false_iff.2 h, Bool.false_or]
  simp only [decide_eq_true_eq, ite_eq_left_iff, Option.map_eq_none_iff, mapM_eq_none_iff,
    IsUnreadable]
  exact or_iff_not_imp_left.symm

end TypeScribe.Text
