import Mathlib.Data.List.Basic
import TypeScribe.SwiftType.Printer

/-!
# The parts of a type

The types of which a type is directly made are its `parts`. A property may hold of a type at every
depth (`Everywhere`), which is to say of every type that occurs in it (`Occurs`), and a type may be
rebuilt from the inside out by a function that is applied at every depth (`rebuild`). All are
reasoned about through the parts alone: `induction_on_parts` is induction over a type, `depth_eq`
counts its levels, and `rebuild_eq` says what rebuilding does to a type in terms of its parts.
-/

namespace TypeScribe

/-- The segment with other arguments. -/
def TypeSegment.map {α β : Type} (f : α → β) (segment : TypeSegment α) : TypeSegment β :=
  ⟨segment.name, segment.arguments.map f⟩

/-- The element with another type. -/
def TypeElement.map {α β : Type} (f : α → β) (element : TypeElement α) : TypeElement β :=
  ⟨element.label, f element.type, element.variadic⟩

namespace SwiftType

/-- The types of which a type is directly made. -/
def parts : SwiftType → List SwiftType
  | .nominal segments => segments.flatMap TypeSegment.arguments
  | .tuple elements => elements.map TypeElement.type
  | .array element => [element]
  | .dictionary key value => [key, value]
  | .optional wrapped _ => [wrapped]
  | .metatype of _ => [of]
  | .attributed _ base => [base]
  | .composition members => members
  | .function parameters result _ => parameters.map TypeElement.type ++ [result]

/-- What holds of a type whenever it holds of its parts holds of every type. -/
theorem induction_on_parts {motive : SwiftType → Prop}
    (step : ∀ type : SwiftType, (∀ part ∈ type.parts, motive part) → motive type)
    (type : SwiftType) : motive type := by
  refine @SwiftType.rec motive (fun segments => ∀ s ∈ segments, ∀ a ∈ s.arguments, motive a)
    (fun elements => ∀ e ∈ elements, motive e.type) (fun types => ∀ t ∈ types, motive t)
    (fun segment => ∀ a ∈ segment.arguments, motive a) (fun element => motive element.type)
    ?nominal ?tuple ?array ?dictionary ?optional ?metatype ?attributed ?composition ?function
    ?noSegment ?segments ?noElement ?elements ?noType ?types ?segment ?element type
  case nominal =>
    intro segments ih
    refine step _ fun part hpart => ?_
    obtain ⟨segment, hsegment, hmem⟩ := List.mem_flatMap.1 hpart
    exact ih segment hsegment part hmem
  case tuple => exact fun elements ih => step _ (by simpa [parts] using ih)
  case array => exact fun element ih => step _ (by simpa [parts] using ih)
  case dictionary =>
    exact fun key value hkey hvalue => step _ (by simpa [parts] using ⟨hkey, hvalue⟩)
  case optional => exact fun wrapped _ ih => step _ (by simpa [parts] using ih)
  case metatype => exact fun of _ ih => step _ (by simpa [parts] using ih)
  case attributed => exact fun _ base ih => step _ (by simpa [parts] using ih)
  case composition => exact fun members ih => step _ ih
  case function =>
    intro parameters result _ hparameters hresult
    refine step _ fun part hpart => ?_
    rcases List.mem_append.1 hpart with hpart | hpart
    · obtain ⟨element, helement, rfl⟩ := List.mem_map.1 hpart
      exact hparameters element helement
    · rw [List.mem_singleton.1 hpart]
      exact hresult
  case noSegment | noElement | noType => simp
  case segments | elements | types =>
    exact fun head tail hhead htail => List.forall_mem_cons.2 ⟨hhead, htail⟩
  case segment => exact fun _ arguments ih => ih
  case element => exact fun _ type _ ih => ih

/-! ## Depth -/

/-- Types in two lists are as deep as the deeper list. -/
theorem depthOfAll_append (types later : List SwiftType) :
    depthOfAll (types ++ later) = max (depthOfAll types) (depthOfAll later) := by
  induction types with
  | nil => simp [depthOfAll]
  | cons type types ih => rw [List.cons_append, depthOfAll, ih, depthOfAll, Nat.max_assoc]

/-- The parts of a name are as deep as their arguments. -/
theorem depthOfSegments_eq (segments : List (TypeSegment SwiftType)) :
    depthOfSegments segments = depthOfAll (segments.flatMap TypeSegment.arguments) := by
  induction segments with
  | nil => simp [depthOfSegments, depthOfAll]
  | cons segment segments ih =>
    rw [List.flatMap_cons, depthOfAll_append, ← ih, depthOfSegments]

/-- The elements of a tuple are as deep as their types. -/
theorem depthOfElements_eq (elements : List (TypeElement SwiftType)) :
    depthOfElements elements = depthOfAll (elements.map TypeElement.type) := by
  induction elements with
  | nil => simp [depthOfElements, depthOfAll]
  | cons element elements ih => rw [List.map_cons, depthOfAll, ← ih, depthOfElements]

/-- A type nests one level deeper than its parts. -/
theorem depth_eq (type : SwiftType) : type.depth = depthOfAll type.parts + 1 := by
  cases type <;> simp [depth, parts, depthOfAll, depthOfAll_append, depthOfSegments_eq,
    depthOfElements_eq]

/-- A function that keeps each type as deep as it is keeps the list so. -/
theorem depthOfAll_map {f : SwiftType → SwiftType} {types : List SwiftType}
    (h : ∀ type ∈ types, (f type).depth = type.depth) :
    depthOfAll (types.map f) = depthOfAll types := by
  induction types with
  | nil => rfl
  | cons type types ih =>
    obtain ⟨htype, htypes⟩ := List.forall_mem_cons.1 h
    rw [List.map_cons, depthOfAll, htype, ih htypes, depthOfAll]

/-- No type is deeper than the list it is in. -/
theorem depth_le_depthOfAll {type : SwiftType} {types : List SwiftType} (h : type ∈ types) :
    type.depth ≤ depthOfAll types := by
  induction types with
  | nil => cases h
  | cons first types ih =>
    rw [depthOfAll]
    rcases List.mem_cons.1 h with rfl | h
    · exact Nat.le_max_left _ _
    · exact Nat.le_trans (ih h) (Nat.le_max_right _ _)

/-- The parts of a type are less deep than the type. -/
theorem depth_lt_of_mem_parts {part type : SwiftType} (h : part ∈ type.parts) :
    part.depth < type.depth := by
  rw [depth_eq type]
  exact Nat.lt_succ_of_le (depth_le_depthOfAll h)

/-! ## At every depth -/

/-- The type satisfies the predicate, and so does at every depth what it is made of. -/
inductive Everywhere (P : SwiftType → Prop) : SwiftType → Prop
  | intro {type : SwiftType} : P type → (∀ part ∈ type.parts, Everywhere P part) →
      Everywhere P type

namespace Everywhere

variable {P : SwiftType → Prop} {type : SwiftType}

theorem here (h : Everywhere P type) : P type := by
  cases h with
  | intro h _ => exact h

theorem inside (h : Everywhere P type) : ∀ part ∈ type.parts, Everywhere P part := by
  cases h with
  | intro _ h => exact h

end Everywhere

/-- The first type is the second or stands in it, at whatever depth. -/
inductive Occurs (below : SwiftType) : SwiftType → Prop
  | here : Occurs below below
  | inside {part type : SwiftType} : part ∈ type.parts → Occurs below part → Occurs below type

/-- What holds everywhere in a type holds of all that occurs in it. -/
theorem Everywhere.of_occurs {P : SwiftType → Prop} {below type : SwiftType}
    (h : Everywhere P type) (hbelow : Occurs below type) : P below := by
  induction hbelow with
  | here => exact h.here
  | inside hpart _ ih => exact ih (h.inside _ hpart)

/-! ## Rebuilding -/

/-- The type with other parts. -/
def mapParts (f : SwiftType → SwiftType) : SwiftType → SwiftType
  | .nominal segments => .nominal (segments.map (TypeSegment.map f))
  | .tuple elements => .tuple (elements.map (TypeElement.map f))
  | .array element => .array (f element)
  | .dictionary key value => .dictionary (f key) (f value)
  | .optional wrapped implicitlyUnwrapped => .optional (f wrapped) implicitlyUnwrapped
  | .metatype of kind => .metatype (f of) kind
  | .attributed attributes base => .attributed attributes (f base)
  | .composition members => .composition (members.map f)
  | .function parameters result effects =>
    .function (parameters.map (TypeElement.map f)) (f result) effects

/-- The parts of a type whose parts are changed are the changed parts. -/
theorem parts_mapParts (f : SwiftType → SwiftType) (type : SwiftType) :
    (type.mapParts f).parts = type.parts.map f := by
  cases type with
  | nominal segments =>
    simp [mapParts, parts, TypeSegment.map, List.flatMap_map, List.map_flatMap]
  | tuple elements => simp [mapParts, parts, TypeElement.map, Function.comp_def]
  | function parameters result effects =>
    simp [mapParts, parts, TypeElement.map, Function.comp_def]
  | _ => rfl

mutual
/-- The type rebuilt from the inside out, with `f` applied at every depth. -/
def rebuild (f : SwiftType → SwiftType) : SwiftType → SwiftType
  | .nominal segments => f (.nominal (rebuildSegments f segments))
  | .tuple elements => f (.tuple (rebuildElements f elements))
  | .array element => f (.array (rebuild f element))
  | .dictionary key value => f (.dictionary (rebuild f key) (rebuild f value))
  | .optional wrapped implicitlyUnwrapped => f (.optional (rebuild f wrapped) implicitlyUnwrapped)
  | .metatype of kind => f (.metatype (rebuild f of) kind)
  | .attributed attributes base => f (.attributed attributes (rebuild f base))
  | .composition members => f (.composition (rebuildAll f members))
  | .function parameters result effects =>
    f (.function (rebuildElements f parameters) (rebuild f result) effects)

/-- The types rebuilt one by one. -/
def rebuildAll (f : SwiftType → SwiftType) : List SwiftType → List SwiftType
  | [] => []
  | type :: rest => rebuild f type :: rebuildAll f rest

/-- The segments with their arguments rebuilt. -/
def rebuildSegments (f : SwiftType → SwiftType) :
    List (TypeSegment SwiftType) → List (TypeSegment SwiftType)
  | [] => []
  | ⟨name, arguments⟩ :: rest => ⟨name, rebuildAll f arguments⟩ :: rebuildSegments f rest

/-- The elements with their types rebuilt. -/
def rebuildElements (f : SwiftType → SwiftType) :
    List (TypeElement SwiftType) → List (TypeElement SwiftType)
  | [] => []
  | ⟨label, type, variadic⟩ :: rest => ⟨label, rebuild f type, variadic⟩ :: rebuildElements f rest
end

/-- Several types are rebuilt one by one. -/
theorem rebuildAll_eq_map (f : SwiftType → SwiftType) (types : List SwiftType) :
    rebuildAll f types = types.map (rebuild f) := by
  induction types with
  | nil => rfl
  | cons type rest ih => rw [rebuildAll, ih, List.map_cons]

/-- So are the arguments of names. -/
theorem rebuildSegments_eq_map (f : SwiftType → SwiftType)
    (segments : List (TypeSegment SwiftType)) :
    rebuildSegments f segments = segments.map (TypeSegment.map (rebuild f)) := by
  induction segments with
  | nil => rfl
  | cons segment rest ih => rw [rebuildSegments, ih, rebuildAll_eq_map, List.map_cons]; rfl

/-- And the types of elements. -/
theorem rebuildElements_eq_map (f : SwiftType → SwiftType)
    (elements : List (TypeElement SwiftType)) :
    rebuildElements f elements = elements.map (TypeElement.map (rebuild f)) := by
  induction elements with
  | nil => rfl
  | cons element rest ih => rw [rebuildElements, ih, List.map_cons]; rfl

/-- A type is rebuilt by rebuilding its parts. -/
theorem rebuild_eq (f : SwiftType → SwiftType) (type : SwiftType) :
    rebuild f type = f (type.mapParts (rebuild f)) := by
  cases type <;>
    simp only [rebuild, mapParts, rebuildAll_eq_map, rebuildSegments_eq_map,
      rebuildElements_eq_map]

/-! ## Spelling -/

/-- The spelling of a segment. -/
def segmentSpelling (segment : TypeSegment SwiftType) : String :=
  segmentText segment.name (segment.arguments.map render)

/-- The spelling of an element. -/
def elementSpelling (element : TypeElement SwiftType) : String :=
  elementText element.label (render element.type) element.variadic

/-- Several types are written one by one. -/
theorem renderAll_eq_map (types : List SwiftType) : renderAll types = types.map render := by
  induction types with
  | nil => rfl
  | cons type rest ih => rw [renderAll, ih, List.map_cons]

/-- So are the parts of a name. -/
theorem renderSegments_eq_map (segments : List (TypeSegment SwiftType)) :
    renderSegments segments = segments.map segmentSpelling := by
  induction segments with
  | nil => rfl
  | cons segment rest ih => rw [renderSegments, ih, renderAll_eq_map, List.map_cons]; rfl

/-- And the elements of a tuple. -/
theorem renderElements_eq_map (elements : List (TypeElement SwiftType)) :
    renderElements elements = elements.map elementSpelling := by
  induction elements with
  | nil => rfl
  | cons element rest ih => rw [renderElements, ih, List.map_cons]; rfl

end SwiftType

end TypeScribe
