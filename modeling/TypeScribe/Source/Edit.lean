import TypeScribe.Text.Utf8

/-!
# Edits

An edit replaces a stretch of a file's bytes by a text. Several edits are applied at once: they are
put in order, checked for overlaps, and spliced in from the last to the first, so that an edit does
not move the places of those before it. Bytes outside the edited stretches stay as they are, and
insertions at one place appear in the order in which they were listed.
-/

namespace TypeScribe

/-- Replaces the bytes from `start` up to `stop` by `text`; with `start = stop` it inserts. -/
structure Edit where
  start : Int
  stop : Int
  text : String
deriving DecidableEq

/-- Why edits cannot be applied. -/
inductive EditError where
  /-- An edit starts, at `next`, before the one ahead of it has ended. -/
  | overlapping (start stop next : Int)
  /-- An edit does not lie in the file. -/
  | outside (start stop : Int)
deriving DecidableEq

/-- The wording of each reason. -/
def EditError.message : EditError → String
  | .overlapping start stop next =>
    "Overlapping edits at bytes " ++ toString start ++ "-" ++ toString stop ++ " and " ++
      toString next
  | .outside start stop =>
    "Edit " ++ toString start ++ "-" ++ toString stop ++ " is outside the source"

namespace Edit

/-- The order of edits: by start, then by end. -/
def le (a b : Edit) : Bool := a.start < b.start || (a.start == b.start && a.stop ≤ b.stop)

/-- Puts an edit before the first one that it need not follow. -/
def insert (edit : Edit) : List Edit → List Edit
  | [] => [edit]
  | other :: rest => if edit.le other then edit :: other :: rest else other :: insert edit rest

/-- The edits in order; those of one stretch stay in the order given. -/
def sort (edits : List Edit) : List Edit := edits.foldr insert []

/-- The first pair of neighbours that overlap. -/
def firstOverlap : List Edit → Option EditError
  | a :: b :: rest =>
    if b.start < a.stop then some (.overlapping a.start a.stop b.start)
    else firstOverlap (b :: rest)
  | _ => none

/-- Applies one edit. -/
def splice (edit : Edit) (bytes : List UInt8) : Except EditError (List UInt8) :=
  if 0 ≤ edit.start ∧ edit.start ≤ edit.stop ∧ edit.stop ≤ bytes.length then
    .ok (bytes.take edit.start.toNat ++ Text.encode edit.text ++ bytes.drop edit.stop.toNat)
  else .error (.outside edit.start edit.stop)

/-- Applies ordered edits, the last one first. -/
def spliceAll : List Edit → List UInt8 → Except EditError (List UInt8)
  | [], bytes => .ok bytes
  | edit :: rest, bytes =>
    match spliceAll rest bytes with
    | .ok bytes => edit.splice bytes
    | .error error => .error error

/-- Applies edits given in any order. -/
def applyAll (edits : List Edit) (bytes : List UInt8) : Except EditError (List UInt8) :=
  let ordered := sort edits
  match firstOverlap ordered with
  | some error => .error error
  | none => spliceAll ordered bytes

end Edit

end TypeScribe
