import TypeScribe.Proofs.SwiftType.Wide
import TypeScribe.Proofs.SwiftType.WellFormed

/-!
# Types with one spelling

Several types may be spelled alike: a metatype of a nominal type like a member of that type,
attributes before a composition like attributes of its first member, and a composition with a
function type before its last member like a function type whose result is a composition. Among the
well-formed types with one spelling there is always a normal one (`exists_normal_respells`). What is
read from a spelling therefore has that spelling again, although it may be another type, and one
that nests deeper than the call stack has room for (`not_render_stable_of_wide`).
-/

namespace TypeScribe.SwiftType

open TypeScribe.Parser
open TypeScribe.SwiftType.Grammar

/-! ## Respelling -/

/-- The other type is spelled like the type, and stands in parentheses or gives way to `Void` where
the type does. -/
structure Respells (found other : SwiftType) : Prop where
  chars : other.chars = found.chars
  parentheses : other.needsParentheses = found.needsParentheses
  unit : other.isUnit = found.isUnit

namespace Respells

theorem refl (found : SwiftType) : Respells found found := ⟨rfl, rfl, rfl⟩

theorem trans {a b c : SwiftType} (h : Respells a b) (h' : Respells b c) : Respells a c :=
  ⟨h'.chars.trans h.chars, h'.parentheses.trans h.parentheses, h'.unit.trans h.unit⟩

variable {found other : SwiftType} (h : Respells found other)
include h

theorem baseChars : other.baseChars = found.baseChars := by
  rw [SwiftType.baseChars, SwiftType.baseChars, h.chars, h.parentheses]

/-- As a result it is spelled alike too. -/
theorem spelledResult : (spelledResult other).chars = (spelledResult found).chars := by
  rw [SwiftType.spelledResult, SwiftType.spelledResult, h.unit]
  split
  · rfl
  · exact h.chars

end Respells

/-- Arguments that respell others are spelled alike. -/
theorem argumentChars_map {f : SwiftType → SwiftType} {arguments : List SwiftType}
    (h : ∀ argument ∈ arguments, Respells argument (f argument)) :
    argumentChars (arguments.map f) = argumentChars arguments := by
  cases arguments with
  | nil => rfl
  | cons first later =>
    have hchars : ((first :: later).map f).map chars = (first :: later).map chars := by
      rw [List.map_map]
      exact List.map_congr_left fun argument hargument => (h argument hargument).chars
    show '<' :: separatedBy ", ".toList (((first :: later).map f).map chars) ++ ['>'] = _
    rw [hchars]
    rfl

/-- So are elements with types that respell others. -/
theorem parenChars_map {f : SwiftType → SwiftType} {elements : List (TypeElement SwiftType)}
    (h : ∀ item ∈ elements, Respells item.type (f item.type)) :
    parenChars (elements.map (TypeElement.map f)) = parenChars elements := by
  have hchars : (elements.map (TypeElement.map f)).map elementChars =
      elements.map elementChars := by
    rw [List.map_map]
    refine List.map_congr_left fun item hitem => ?_
    show labelChars item.label ++ ((f item.type).chars ++ _) = elementChars item
    rw [(h item hitem).chars]
    rfl
  rw [parenChars, parenChars, hchars]

/-- A type whose parts are respelled is respelled. -/
theorem respells_mapParts {found : SwiftType} {f : SwiftType → SwiftType}
    (h : ∀ part ∈ found.parts, Respells part (f part)) : Respells found (found.mapParts f) := by
  cases found with
  | nominal segments =>
    refine ⟨?_, rfl, rfl⟩
    rw [mapParts, chars_nominal, chars_nominal, List.map_map]
    refine congrArg _ (List.map_congr_left fun part hpart => ?_)
    show part.name.toList ++ argumentChars (part.arguments.map f) = segmentChars part
    rw [argumentChars_map fun argument hargument =>
      h argument (List.mem_flatMap.2 ⟨part, hpart, hargument⟩)]
    rfl
  | tuple elements =>
    refine ⟨?_, rfl, by cases elements <;> rfl⟩
    rw [mapParts, chars_tuple, chars_tuple]
    exact parenChars_map fun item hitem => h _ (List.mem_map_of_mem hitem)
  | array element =>
    refine ⟨?_, rfl, rfl⟩
    rw [mapParts, chars_array, chars_array, (h element (by simp [parts])).chars]
  | dictionary key value =>
    refine ⟨?_, rfl, rfl⟩
    rw [mapParts, chars_dictionary, chars_dictionary, (h key (by simp [parts])).chars,
      (h value (by simp [parts])).chars]
  | optional wrapped implicitlyUnwrapped =>
    refine ⟨?_, rfl, rfl⟩
    rw [mapParts, chars_optional, chars_optional, (h wrapped (by simp [parts])).baseChars]
  | metatype of kind =>
    refine ⟨?_, rfl, rfl⟩
    rw [mapParts, chars_metatype, chars_metatype, (h of (by simp [parts])).baseChars]
  | attributed attributes base =>
    refine ⟨?_, rfl, rfl⟩
    rw [mapParts, chars_attributed, chars_attributed, (h base (by simp [parts])).chars]
  | composition members =>
    refine ⟨?_, rfl, rfl⟩
    rw [mapParts, chars_composition, chars_composition, List.map_map]
    exact congrArg _ (List.map_congr_left fun part hpart => (h part hpart).chars)
  | function parameters result effects =>
    refine ⟨?_, rfl, rfl⟩
    have hparameters : ∀ item ∈ parameters, Respells item.type (f item.type) := fun item hitem =>
      h _ (List.mem_append_left _ (List.mem_map_of_mem hitem))
    rw [mapParts, chars_function, chars_function, parenChars_map hparameters,
      (h result (by simp [parts])).spelledResult]

/-! ## Unit results -/

/-- A result is never spelled as the empty tuple. -/
theorem isUnit_spelledResult (result : SwiftType) : (spelledResult result).isUnit = false := by
  unfold spelledResult
  split
  · rfl
  · next hunit => exact Bool.eq_false_iff.2 hunit

theorem spelledResult_of_not_isUnit {result : SwiftType} (h : result.isUnit = false) :
    spelledResult result = result := by
  rw [spelledResult, h, if_neg (by decide)]

/-- A function type with a `Void` result is spelled like the one with the empty tuple. -/
theorem respells_voidResult (found : SwiftType) : Respells found (voidResult found) := by
  cases found with
  | function parameters result effects =>
    refine ⟨?_, rfl, rfl⟩
    rw [voidResult, chars_function, chars_function,
      spelledResult_of_not_isUnit (isUnit_spelledResult result)]
  | _ => exact .refl _

/-- So are types in which such function types occur. -/
theorem respells_voidResults (found : SwiftType) : Respells found found.voidResults := by
  induction found using induction_on_parts with
  | step found ih =>
    rw [voidResults_eq]
    exact (respells_mapParts ih).trans (respells_voidResult _)

/-- The type is not a function type that returns the empty tuple. -/
def ReturnsNoUnit : SwiftType → Prop
  | .function _ result _ => result.isUnit = false
  | _ => True

/-- Made at the outermost level, the change leaves no empty tuple as a result if none is left below.
-/
theorem everywhere_returnsNoUnit_voidResult {found : SwiftType}
    (h : ∀ part ∈ found.parts, Everywhere ReturnsNoUnit part) :
    Everywhere ReturnsNoUnit (voidResult found) := by
  cases found with
  | function parameters result effects =>
    refine .intro (isUnit_spelledResult result) fun part hpart => ?_
    rcases List.mem_append.1 hpart with hpart | hpart
    · exact h part (List.mem_append_left _ hpart)
    · rw [List.mem_singleton.1 hpart, spelledResult]
      split
      · exact .intro trivial (by simp [parts, named])
      · exact h result (by simp [parts])
  | _ => exact .intro trivial h

/-- Made at every level, it leaves none. -/
theorem everywhere_returnsNoUnit_voidResults (found : SwiftType) :
    Everywhere ReturnsNoUnit found.voidResults := by
  induction found using induction_on_parts with
  | step found ih =>
    rw [voidResults_eq]
    refine everywhere_returnsNoUnit_voidResult fun part hpart => ?_
    rw [parts_mapParts] at hpart
    obtain ⟨inner, hinner, rfl⟩ := List.mem_map.1 hpart
    exact ih inner hinner

/-! ## Members strung together -/

/-- The members of a composition; any other type is its own only member. -/
def members : SwiftType → List SwiftType
  | .composition members => members
  | found => [found]

/-- A type is spelled as its members with ampersands between them. -/
theorem chars_eq_members (found : SwiftType) :
    found.chars = separatedBy " & ".toList (found.members.map chars) := by
  cases found with
  | composition members => exact chars_composition members
  | _ => simp [members, separatedBy]

/-- Two lists of items are separated as the items are. -/
theorem separatedBy_append {separator : List Char} {s t : List (List Char)} (hs : s ≠ [])
    (ht : t ≠ []) :
    separatedBy separator (s ++ t) =
      separatedBy separator s ++ (separator ++ separatedBy separator t) := by
  obtain ⟨first, s, rfl⟩ := List.exists_cons_of_ne_nil hs
  obtain ⟨second, t, rfl⟩ := List.exists_cons_of_ne_nil ht
  simp [separatedBy]

/-- The types can be the members of a normal composition, if there are two of them. -/
structure Strung (types : List SwiftType) : Prop where
  ne_nil : types ≠ []
  normal : ∀ part ∈ types, part.Normal
  flat : ∀ part ∈ types, part.isComposition = false
  closed : ∀ part ∈ types.dropLast, part.isOpen = false

theorem Strung.normal_composition {types : List SwiftType} (h : Strung types)
    (hlength : 2 ≤ types.length) : Normal (.composition types) :=
  normal_of_parts hlength ⟨h.flat, h.closed⟩ h.normal

/-- Normal types that are closed may stand before strung ones. -/
theorem Strung.append {types later : List SwiftType} (h : ∀ part ∈ types, part.Normal)
    (hflat : ∀ part ∈ types, part.isComposition = false)
    (hclosed : ∀ part ∈ types, part.isOpen = false) (hlater : Strung later) :
    Strung (types ++ later) := by
  refine ⟨List.append_ne_nil_of_right_ne_nil _ hlater.ne_nil,
    List.forall_mem_append.2 ⟨h, hlater.normal⟩, List.forall_mem_append.2 ⟨hflat, hlater.flat⟩, ?_⟩
  rw [List.dropLast_append_of_ne_nil hlater.ne_nil]
  exact List.forall_mem_append.2 ⟨hclosed, hlater.closed⟩

/-- The members of a normal type are strung. -/
theorem Normal.strung {found : SwiftType} (h : found.Normal) : Strung found.members := by
  cases found with
  | composition members =>
    have hlength : 2 ≤ members.length := h.wellFormed
    refine ⟨?_, h.of_mem_parts, h.unambiguous.1, h.unambiguous.2⟩
    rintro rfl
    exact absurd hlength (by decide)
  | _ =>
    exact ⟨by simp [members], by simpa [members] using h, by simp [members, isComposition],
      by simp [members]⟩

/-- The normal type is spelled as the two others with `&` between them. -/
structure Joins (left right joined : SwiftType) : Prop where
  normal : joined.Normal
  chars : joined.chars = left.chars ++ (" & ".toList ++ right.chars)
  parentheses : joined.needsParentheses = true
  unit : joined.isUnit = false
  function : left.isFunction = true → joined.isFunction = true

/-- A composition of what comes before and of the members of a normal type. -/
theorem composition_members {types : List SwiftType} {right : SwiftType} (hne : types ≠ [])
    (hnormal : ∀ part ∈ types, part.Normal) (hflat : ∀ part ∈ types, part.isComposition = false)
    (hclosed : ∀ part ∈ types, part.isOpen = false) (hright : right.Normal) :
    Normal (.composition (types ++ right.members)) ∧
      chars (.composition (types ++ right.members)) =
        separatedBy " & ".toList (types.map chars) ++ (" & ".toList ++ right.chars) := by
  have hstrung := hright.strung
  constructor
  · refine (Strung.append hnormal hflat hclosed hstrung).normal_composition ?_
    have hpos : 0 < types.length := List.length_pos_iff.2 hne
    have hpos' : 0 < right.members.length := List.length_pos_iff.2 hstrung.ne_nil
    rw [List.length_append]
    omega
  · rw [chars_composition, List.map_append, separatedBy_append (by simpa using hne)
      (by simpa using hstrung.ne_nil), ← chars_eq_members]

/-- A closed type and a normal one join as the members of a composition. -/
theorem exists_joins_of_closed {left right : SwiftType} (hleft : left.Normal)
    (hflat : left.isComposition = false) (hclosed : left.isOpen = false) (hright : right.Normal) :
    ∃ joined, Joins left right joined := by
  obtain ⟨hnormal, hchars⟩ := composition_members (List.cons_ne_nil left [])
    (by simpa using hleft) (by simpa using hflat) (by simpa using hclosed) hright
  refine ⟨_, hnormal, by simpa [separatedBy] using hchars, rfl, rfl, fun hfunction => ?_⟩
  cases left with
  | function => cases hclosed
  | _ => cases hfunction

/-- A function type joins as its result does. -/
theorem joins_function {parameters : List (TypeElement SwiftType)} {result : SwiftType}
    {effects : List String} {right inner : SwiftType}
    (hleft : Normal (.function parameters result effects))
    (hinner : Joins (spelledResult result) right inner) :
    Joins (.function parameters result effects) right (.function parameters inner effects) := by
  refine ⟨normal_of_parts hleft.wellFormed trivial ?_, ?_, rfl, rfl, fun _ => rfl⟩
  · refine List.forall_mem_append.2 ⟨fun part hpart => ?_, by simpa using hinner.normal⟩
    exact hleft.of_mem_parts part (List.mem_append_left _ hpart)
  · rw [chars_function, chars_function, spelledResult_of_not_isUnit hinner.unit, hinner.chars]
    simp only [List.append_assoc]

/-- An attributed function type joins as the function type does. -/
theorem joins_attributed {attributes : List String} {base right inner : SwiftType}
    (hleft : Normal (.attributed attributes base)) (hfunction : base.isFunction = true)
    (hinner : Joins base right inner) :
    Joins (.attributed attributes base) right (.attributed attributes inner) := by
  have hshape : inner.isAttributed = false ∧ inner.isComposition = false := by
    have hinner := hinner.function hfunction
    cases inner with
    | function => exact ⟨rfl, rfl⟩
    | _ => cases hinner
  refine ⟨normal_of_parts hleft.wellFormed hshape (by simpa [parts] using hinner.normal), ?_, rfl,
    rfl, fun h => by cases h⟩
  rw [chars_attributed, chars_attributed, hinner.chars, List.append_assoc]

/-- The other type is taken into the last member. -/
theorem joins_composition {types : List SwiftType} {last right inner : SwiftType}
    (hleft : Normal (.composition (types ++ [last]))) (hinner : Joins last right inner) :
    Joins (.composition (types ++ [last])) right (.composition (types ++ inner.members)) := by
  have hstrung : Strung (types ++ [last]) := hleft.strung
  have hne : types ≠ [] := by
    have hlength : 2 ≤ (types ++ [last]).length := hleft.wellFormed
    rintro rfl
    exact absurd hlength (by simp)
  have hclosed : ∀ part ∈ types, part.isOpen = false := by
    simpa using hstrung.closed
  obtain ⟨hnormal, hchars⟩ := composition_members hne
    (fun part hpart => hstrung.normal part (List.mem_append_left _ hpart))
    (fun part hpart => hstrung.flat part (List.mem_append_left _ hpart)) hclosed hinner.normal
  refine ⟨hnormal, ?_, rfl, rfl, fun h => by cases h⟩
  rw [hchars, hinner.chars, chars_composition, List.map_append,
    separatedBy_append (by simpa using hne) (by simp)]
  simp [separatedBy]

/-- Two normal types can be joined. A function type takes the other type into its result, and a
composition into its last member. -/
theorem exists_joins {left right : SwiftType} (hleft : left.Normal) (hright : right.Normal) :
    ∃ joined, Joins left right joined := by
  induction hleft with
  | @intro left hhere hinside ih =>
    have hleft : left.Normal := .intro hhere hinside
    cases left with
    | function parameters result effects =>
      obtain ⟨inner, hinner⟩ : ∃ inner, Joins (spelledResult result) right inner := by
        rw [spelledResult]
        split
        · exact exists_joins_of_closed normal_void rfl rfl hright
        · exact ih result (by simp [parts])
      exact ⟨_, joins_function hleft hinner⟩
    | attributed attributes base =>
      by_cases hfunction : base.isFunction = true
      · obtain ⟨inner, hinner⟩ := ih base (by simp [parts])
        exact ⟨_, joins_attributed hleft hfunction hinner⟩
      · exact exists_joins_of_closed hleft rfl (Bool.eq_false_iff.2 hfunction) hright
    | composition members =>
      obtain ⟨types, last, rfl⟩ : ∃ types last, members = types ++ [last] :=
        (List.eq_nil_or_concat' members).resolve_left hleft.strung.ne_nil
      obtain ⟨inner, hinner⟩ := ih last (by simp [parts])
      exact ⟨_, joins_composition hleft hinner⟩
    | _ => exact exists_joins_of_closed hleft rfl rfl hright

/-- Any number of normal types can be joined. -/
theorem exists_joins_all {first : SwiftType} {later : List SwiftType} (hfirst : first.Normal)
    (hlater : ∀ part ∈ later, part.Normal) (hne : later ≠ []) :
    ∃ joined, joined.Normal ∧ Respells (.composition (first :: later)) joined := by
  induction later generalizing first with
  | nil => exact absurd rfl hne
  | cons second later ih =>
    obtain ⟨hsecond, hlater⟩ := List.forall_mem_cons.1 hlater
    obtain ⟨rest, hrest, hchars⟩ : ∃ rest : SwiftType, rest.Normal ∧
        rest.chars = separatedBy " & ".toList ((second :: later).map chars) := by
      cases later with
      | nil => exact ⟨second, hsecond, by simp [separatedBy]⟩
      | cons third later =>
        obtain ⟨rest, hrest, hrespells⟩ := ih hsecond hlater (by simp)
        exact ⟨rest, hrest, by rw [hrespells.chars, chars_composition]⟩
    obtain ⟨joined, hjoined⟩ := exists_joins hfirst hrest
    refine ⟨joined, hjoined.normal, ?_, hjoined.parentheses, hjoined.unit⟩
    have htail : (second :: later).map chars ≠ [] := by simp
    rw [hjoined.chars, hchars, chars_composition]
    exact (separatedBy_cons_of_ne_nil htail).symm

/-! ## Attributes -/

/-- Attributes before a normal type that is not a composition go with those that it already has. -/
theorem exists_attributed {attributes : List String} {base : SwiftType}
    (hwell : WellFormed (.attributed attributes base)) (hbase : base.Normal)
    (hflat : base.isComposition = false) :
    ∃ found, found.Normal ∧ Respells (.attributed attributes base) found ∧
      found.isComposition = false ∧ found.isOpen = base.isOpen := by
  obtain ⟨hne, hmodifiers⟩ := hwell
  cases base with
  | attributed later inner =>
    have hmore := hbase.wellFormed
    refine ⟨.attributed (attributes ++ later) inner, normal_of_parts ?_ hbase.unambiguous
      hbase.of_mem_parts, ⟨?_, rfl, rfl⟩, rfl, rfl⟩
    · exact ⟨List.append_ne_nil_of_left_ne_nil hne _,
        List.forall_mem_append.2 ⟨hmodifiers, hmore.2⟩⟩
    · rw [chars_attributed, chars_attributed, chars_attributed, List.flatMap_append,
        List.append_assoc]
  | composition members => cases hflat
  | _ =>
    refine ⟨.attributed attributes _, ?_, .refl _, rfl, rfl⟩
    exact normal_of_parts ⟨hne, hmodifiers⟩ ⟨rfl, rfl⟩ (by simpa [parts] using hbase)

/-- Attributes before a normal composition are attributes of its first member. -/
theorem exists_attributed_composition {attributes : List String} {types : List SwiftType}
    (hwell : WellFormed (.attributed attributes (.composition types)))
    (hbase : Normal (.composition types)) :
    ∃ found, found.Normal ∧ Respells (.attributed attributes (.composition types)) found := by
  have hstrung : Strung types := hbase.strung
  have hlength : 2 ≤ types.length := hbase.wellFormed
  obtain ⟨first, later, rfl⟩ := List.exists_cons_of_ne_nil hstrung.ne_nil
  have hlater : later ≠ [] := by
    rintro rfl
    exact absurd hlength (by simp)
  obtain ⟨hfirstNormal, hlaterNormal⟩ := List.forall_mem_cons.1 hstrung.normal
  obtain ⟨hfirstFlat, hlaterFlat⟩ := List.forall_mem_cons.1 hstrung.flat
  have hclosed := hstrung.closed
  rw [List.dropLast_cons_of_ne_nil hlater] at hclosed
  obtain ⟨hfirstClosed, hlaterClosed⟩ := List.forall_mem_cons.1 hclosed
  have hattributed : WellFormed (.attributed attributes first) := hwell
  obtain ⟨found, hfound, hrespells, hflat, hopen⟩ :=
    exists_attributed hattributed hfirstNormal hfirstFlat
  have hall : Strung (found :: later) := by
    refine ⟨by simp, List.forall_mem_cons.2 ⟨hfound, hlaterNormal⟩,
      List.forall_mem_cons.2 ⟨hflat, hlaterFlat⟩, ?_⟩
    rw [List.dropLast_cons_of_ne_nil hlater]
    exact List.forall_mem_cons.2 ⟨hopen.trans hfirstClosed, hlaterClosed⟩
  refine ⟨.composition (found :: later), hall.normal_composition hlength, ?_, rfl, rfl⟩
  have hchars : found.chars = _ := hrespells.chars
  rw [chars_composition, chars_attributed, chars_composition, List.map_cons, List.map_cons,
    separatedBy, separatedBy, hchars, chars_attributed, List.append_assoc]

/-! ## Every well-formed type -/

/-- A well-formed type stays so whatever its parts are changed to. -/
theorem wellFormed_mapParts {found : SwiftType} (h : found.WellFormed)
    (f : SwiftType → SwiftType) : (found.mapParts f).WellFormed := by
  cases found with
  | nominal segments =>
    obtain ⟨hne, hnames, hfirst⟩ := h
    refine ⟨by simpa using hne, ?_, ?_⟩
    · exact List.forall_mem_map.2 hnames
    · simpa [TypeSegment.map] using hfirst
  | tuple elements =>
    refine ⟨fun type heq => ?_, List.forall_mem_map.2 h.2⟩
    obtain ⟨item, rfl, hitem⟩ := List.map_eq_singleton_iff.1 heq
    obtain ⟨label, inner, variadic⟩ := item
    cases hitem
    exact h.1 inner rfl
  | composition members => simpa [mapParts, WellFormed] using h
  | function parameters result effects => exact ⟨List.forall_mem_map.2 h.1, h.2⟩
  | _ => exact h

/-- A metatype has a normal respelling: that of a nominal type is a member of it. -/
theorem exists_metatype {of : SwiftType} {kind : String}
    (hwell : WellFormed (.metatype of kind)) (hof : of.Normal) :
    ∃ found, found.Normal ∧ Respells (.metatype of kind) found := by
  cases of with
  | nominal segments =>
    obtain ⟨hne, hnames, hfirst⟩ := hof.wellFormed
    have hkind : identifier.consumes kind = true := by
      rcases hwell with rfl | rfl <;> exact consumes_identifier_iff.2 (.plain (by decide))
    refine ⟨.nominal (segments ++ [⟨kind, []⟩]), normal_of_parts ⟨by simp, ?_, ?_⟩ trivial ?_,
      ?_, rfl, rfl⟩
    · exact List.forall_mem_append.2 ⟨hnames, by simpa using hkind⟩
    · rwa [List.head?_append_of_ne_nil _ hne]
    · intro part hpart
      refine hof.of_mem_parts part ?_
      simpa [parts] using hpart
    · rw [chars_nominal, List.map_append, separatedBy_append (by simpa using hne) (by simp),
        ← chars_nominal, chars_metatype]
      simp [separatedBy, segmentChars, argumentChars, baseChars, needsParentheses]
  | _ => exact ⟨_, normal_of_parts hwell rfl (by simpa [parts] using hof), .refl _⟩

/-- A well-formed type with normal parts is spelled like a normal one. -/
theorem exists_normal_of_parts {found : SwiftType} (hwell : found.WellFormed)
    (hparts : ∀ part ∈ found.parts, part.Normal) :
    ∃ normal, normal.Normal ∧ Respells found normal := by
  cases found with
  | metatype of kind => exact exists_metatype hwell (hparts of (by simp [parts]))
  | attributed attributes base =>
    have hbase := hparts base (by simp [parts])
    by_cases hflat : base.isComposition = false
    · obtain ⟨normal, hnormal, hrespells, -⟩ := exists_attributed hwell hbase hflat
      exact ⟨normal, hnormal, hrespells⟩
    · cases base with
      | composition members => exact exists_attributed_composition hwell hbase
      | _ => exact absurd rfl hflat
  | composition members =>
    obtain ⟨first, second, later, rfl⟩ := exists_members hwell
    obtain ⟨hfirst, hlater⟩ := List.forall_mem_cons.1 hparts
    exact exists_joins_all hfirst hlater (by simp)
  | _ => exact ⟨_, normal_of_parts hwell trivial hparts, .refl _⟩

/-- Every type that is well formed at every depth is spelled like a normal one. -/
theorem exists_normal_respells {found : SwiftType} (h : Everywhere WellFormed found) :
    ∃ normal, normal.Normal ∧ Respells found normal := by
  induction h with
  | @intro found hwell _ ih =>
    choose! f hnormal hrespells using ih
    have hparts : ∀ part ∈ (found.mapParts f).parts, part.Normal := by
      rw [parts_mapParts]
      exact List.forall_mem_map.2 hnormal
    obtain ⟨normal, hresult, hagain⟩ :=
      exists_normal_of_parts (wellFormed_mapParts hwell f) hparts
    exact ⟨normal, hresult, (respells_mapParts hrespells).trans hagain⟩

/-- Rendering what was read gives a text that is stable: it belongs to one type, which has this
spelling and in which no function type returns the empty tuple, and on any call stack that type is
read from it, if there is room for more levels than it has, or the text is too deep. -/
theorem render_stable_of_parse [CallStack] {text : String} {found : SwiftType}
    (h : parse text = .ok found) :
    ∃ again, again.render = found.render ∧ Everywhere ReturnsNoUnit again ∧
      ∀ [CallStack], parse found.render = .ok again ∨
        CallStack.types ≤ again.depth ∧ parse found.render = .error (.stopped .tooDeep) := by
  obtain ⟨normal, hnormal, hrespells⟩ := exists_normal_respells (everywhere_wellFormed_of_parse h)
  have hspelling : normal.render = found.render := String.toList_inj.1 hrespells.chars
  have hvoid : normal.voidResults.render = normal.render :=
    String.toList_inj.1 (respells_voidResults normal).chars
  refine ⟨normal.voidResults, hvoid.trans hspelling, everywhere_returnsNoUnit_voidResults normal,
    fun {_} => ?_⟩
  rw [depth_voidResults]
  exact hnormal.parse_eq hrespells.chars.symm

/-- A text that can be read and written has a type. -/
theorem exists_of_render_parse [CallStack] {text printed : String}
    (h : (parse text).toOption.map render = some printed) :
    ∃ found, parse text = .ok found ∧ found.render = printed :=
  exists_of_map_parse h

/-- A metatype of a nominal type, and a function type as the first member of a composition: what is
read from the rendering is another type with that rendering. -/
theorem render_stable_of_parse_composition :
    letI := CallStack.uniform 6
    ∃ found, parse "((Int).Type, @escaping (() -> ()) & B)" = .ok found ∧
      found.render = "(Int.Type, @escaping () -> Void & B)" ∧
      ∃ again, again.render = found.render ∧ Everywhere ReturnsNoUnit again ∧
        ∀ [CallStack], parse found.render = .ok again ∨
          CallStack.types ≤ again.depth ∧ parse found.render = .error (.stopped .tooDeep) := by
  let _ := CallStack.uniform 6
  have hmap : (parse "((Int).Type, @escaping (() -> ()) & B)").toOption.map render =
      some "(Int.Type, @escaping () -> Void & B)" := by decide +kernel
  obtain ⟨found, hparse, hrender⟩ := exists_of_render_parse hmap
  exact ⟨found, hparse, hrender, render_stable_of_parse hparse⟩

/-- A type that nests three deep is read and written, and with room for a thousand levels it is not
read again from what was written. -/
theorem not_render_stable_of_wide :
    letI := CallStack.uniform 1000
    parse (wideText 1000) = .ok (wide 1000) ∧ (wide 1000).depth = 3 ∧
      parse (wide 1000).render = .error (.stopped .tooDeep) := by
  let _ := CallStack.uniform 1000
  exact ⟨parse_wideText (show 3 < 1000 by decide) (by decide), depth_wide 1000,
    parse_render_wide (Nat.le_refl 1000)⟩

end TypeScribe.SwiftType
