import TypeScribe.Proofs.SwiftType.Lexemes
import TypeScribe.Proofs.SwiftType.Parts

/-!
# Normal types

A type is well formed when its names, labels, attributes, effects and kinds are spelled as the
grammar has them and no list is shorter than it can be (`WellFormed`). It is unambiguous when no
part of its spelling can be taken for a part of something else (`Unambiguous`): a metatype of a
nominal type is spelled like a member of that type, attributes before a composition belong to its
first member, and a function type in the middle of a composition would take the later members for
its result. A type that is both at every depth is normal.
-/

namespace TypeScribe.SwiftType

open TypeScribe.Parser
open TypeScribe.SwiftType.Grammar

/-! ## Shapes -/

def isNominal : SwiftType → Bool
  | .nominal _ => true
  | _ => false

def isComposition : SwiftType → Bool
  | .composition _ => true
  | _ => false

def isAttributed : SwiftType → Bool
  | .attributed .. => true
  | _ => false

def isFunction : SwiftType → Bool
  | .function .. => true
  | _ => false

/-- A function type, perhaps with attributes: one that goes on to the end of its result. -/
def isOpen : SwiftType → Bool
  | .function .. => true
  | .attributed _ base => base.isFunction
  | _ => false

/-! ## Well-formed, unambiguous, normal -/

/-- The label of an element, if it has one, is an identifier. -/
def LabelWellFormed (element : TypeElement SwiftType) : Prop :=
  ∀ label ∈ element.label, identifier.consumes label = true

/-- The type is spelled as the grammar has it, whatever its parts are. -/
def WellFormed : SwiftType → Prop
  | .nominal segments =>
    segments ≠ [] ∧ (∀ segment ∈ segments, identifier.consumes segment.name = true) ∧
      ∀ first ∈ segments.head?, first.name ∉ specifiers
  | .tuple elements =>
    (∀ type, elements ≠ [⟨none, type, false⟩]) ∧ ∀ element ∈ elements, LabelWellFormed element
  | .array _ => True
  | .dictionary _ _ => True
  | .optional _ _ => True
  | .metatype _ kind => kind = "Type" ∨ kind = "Protocol"
  | .attributed attributes _ =>
    attributes ≠ [] ∧ ∀ modifier ∈ attributes, IsModifier modifier
  | .composition members => 2 ≤ members.length
  | .function parameters _ effects =>
    (∀ parameter ∈ parameters, LabelWellFormed parameter) ∧
      ∀ effect ∈ effects, effect ∈ Grammar.effects

/-- The spelling of the type cannot be taken apart in another way. -/
def Unambiguous : SwiftType → Prop
  | .metatype of _ => of.isNominal = false
  | .attributed _ base => base.isAttributed = false ∧ base.isComposition = false
  | .composition members =>
    (∀ member ∈ members, member.isComposition = false) ∧
      ∀ member ∈ members.dropLast, member.isOpen = false
  | _ => True

/-- The type is well formed and unambiguous at every depth. -/
def Normal (type : SwiftType) : Prop :=
  Everywhere (fun type => type.WellFormed ∧ type.Unambiguous) type

theorem normal_of_parts {type : SwiftType} (hwell : type.WellFormed)
    (hunambiguous : type.Unambiguous) (hparts : ∀ part ∈ type.parts, part.Normal) : type.Normal :=
  .intro ⟨hwell, hunambiguous⟩ hparts

theorem Normal.of_mem_parts {type : SwiftType} (h : type.Normal) :
    ∀ part ∈ type.parts, part.Normal :=
  h.inside

theorem Normal.wellFormed {type : SwiftType} (h : type.Normal) : type.WellFormed := h.here.1

theorem Normal.unambiguous {type : SwiftType} (h : type.Normal) : type.Unambiguous := h.here.2

/-- A well formed composition has two members at least. -/
theorem exists_members {members : List SwiftType} (h : WellFormed (.composition members)) :
    ∃ first second later, members = first :: second :: later := by
  have hlength : 2 ≤ members.length := h
  rcases members with _ | ⟨first, _ | ⟨second, later⟩⟩
  · cases hlength
  · exact absurd hlength (by simp)
  · exact ⟨first, second, later, rfl⟩

/-! ## Unit results -/

/-- The type that is written for the result of a function. -/
def spelledResult (result : SwiftType) : SwiftType :=
  if result.isUnit then .named "Void" [] else result

/-- A function type with the result that is written for it. -/
def voidResult : SwiftType → SwiftType
  | .function parameters result effects => .function parameters (spelledResult result) effects
  | type => type

/-- The type with `Void` for every function result, at any depth, that is the empty tuple. -/
def voidResults : SwiftType → SwiftType := rebuild voidResult

theorem voidResults_eq (type : SwiftType) :
    type.voidResults = voidResult (type.mapParts voidResults) :=
  rebuild_eq voidResult type

/-- Spelling a result as `Void` does not change how deep a type is. -/
theorem depth_voidResult (type : SwiftType) : type.voidResult.depth = type.depth := by
  cases type with
  | function parameters result effects =>
    have hresult : (spelledResult result).depth = result.depth := by
      unfold spelledResult
      split
      · next hunit =>
        unfold isUnit at hunit
        split at hunit
        · rfl
        · cases hunit
      · rfl
    rw [voidResult, depth, hresult, depth]
  | _ => rfl

/-- `Void` has no more levels than the empty tuple. -/
theorem depth_voidResults (type : SwiftType) : type.voidResults.depth = type.depth := by
  induction type using induction_on_parts with
  | step type ih =>
    rw [voidResults_eq, depth_voidResult, depth_eq, depth_eq type, parts_mapParts,
      depthOfAll_map ih]

end TypeScribe.SwiftType
