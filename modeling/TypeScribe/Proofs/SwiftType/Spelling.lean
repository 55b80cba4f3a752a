import TypeScribe.Proofs.SwiftType.Normal

/-!
# Spellings as characters

The spelling of each kind of type as a list of characters, with the lists in it (segments,
arguments, elements, members) as their first item and the later ones, each behind its separator.
Further, how such a spelling starts: with a bracket, with an attribute, or with an identifier that
is neither prolonged nor made a label by what follows (`Starts`). From this it follows which parsers
fail there: the spelling of a type is not taken for a label (`StartsType.elementLabel_rejects`), and
without attributes it is not taken for a modifier (`StartsPlain.modifier_rejects`).
-/

namespace TypeScribe.SwiftType

open TypeScribe.Parser
open TypeScribe.SwiftType.Grammar

/-! ## Separated lists -/

/-- Items with a separator between them. -/
def separatedBy (separator : List Char) : List (List Char) → List Char
  | [] => []
  | first :: later => first ++ later.flatMap (separator ++ ·)

/-- Before other items the first one is followed by the separator. -/
theorem separatedBy_cons_of_ne_nil {separator first : List Char} {later : List (List Char)}
    (h : later ≠ []) :
    separatedBy separator (first :: later) =
      first ++ (separator ++ separatedBy separator later) := by
  obtain ⟨second, later, rfl⟩ := List.exists_cons_of_ne_nil h
  simp [separatedBy]

/-- The separator may as well be read as the end of every item but the last. -/
theorem separatedBy_concat (separator : List Char) (items : List (List Char)) (last : List Char) :
    separatedBy separator (items ++ [last]) = items.flatMap (· ++ separator) ++ last := by
  induction items with
  | nil => simp [separatedBy]
  | cons first later ih =>
    rw [List.cons_append, separatedBy_cons_of_ne_nil (by simp), ih]
    simp

/-- The library's intercalation of lists is the same. -/
theorem intercalate_eq_separatedBy (separator : List Char) (items : List (List Char)) :
    separator.intercalate items = separatedBy separator items := by
  induction items with
  | nil => rfl
  | cons first later ih =>
    cases later with
    | nil => simp [separatedBy]
    | cons second later =>
      rw [List.intercalate_cons_cons, ih, List.append_assoc,
        separatedBy_cons_of_ne_nil (List.cons_ne_nil _ _)]

/-- And so is that of texts, seen as characters. -/
theorem toList_intercalate_eq (separator : String) (items : List String) :
    (separator.intercalate items).toList =
      separatedBy separator.toList (items.map String.toList) := by
  rw [String.toList_intercalate, intercalate_eq_separatedBy]

/-! ## The spelling of each kind of type -/

/-- The characters of a type's spelling. -/
def chars (type : SwiftType) : List Char := type.render.toList

/-- The characters of generic arguments. -/
def argumentChars : List SwiftType → List Char
  | [] => []
  | arguments => '<' :: separatedBy ", ".toList (arguments.map chars) ++ ['>']

/-- The characters of a segment's spelling. -/
def segmentChars (segment : TypeSegment SwiftType) : List Char :=
  segment.name.toList ++ argumentChars segment.arguments

/-- The characters of a label and its colon. -/
def labelChars : Option String → List Char
  | some label => label.toList ++ ": ".toList
  | none => []

/-- The characters behind the type of an element. -/
def dotsChars (variadic : Bool) : List Char := if variadic then "...".toList else []

/-- The characters of an element's spelling. -/
def elementChars (element : TypeElement SwiftType) : List Char :=
  labelChars element.label ++ (element.type.chars ++ dotsChars element.variadic)

/-- The characters of a list of elements in parentheses. -/
def parenChars (elements : List (TypeElement SwiftType)) : List Char :=
  '(' :: separatedBy ", ".toList (elements.map elementChars) ++ [')']

/-- The characters of a type before a postfix. -/
def baseChars (type : SwiftType) : List Char :=
  if type.needsParentheses then '(' :: type.chars ++ [')'] else type.chars

/-- The postfix of an optional type. -/
def optionalMark (implicitlyUnwrapped : Bool) : String := if implicitlyUnwrapped then "!" else "?"

/-- The spelling of a part of a name, in characters. -/
theorem toList_segmentSpelling (segment : TypeSegment SwiftType) :
    (segmentSpelling segment).toList = segmentChars segment := by
  obtain ⟨name, arguments⟩ := segment
  cases arguments with
  | nil => simp [segmentSpelling, segmentText, segmentChars, argumentChars]
  | cons first later =>
    simp only [segmentSpelling, segmentText, segmentChars, argumentChars, List.map_cons,
      String.toList_append, toList_intercalate_eq, List.map_map, List.append_assoc]
    rfl

/-- The spelling of an element, in characters. -/
theorem toList_elementSpelling (element : TypeElement SwiftType) :
    (elementSpelling element).toList = elementChars element := by
  obtain ⟨label, type, variadic⟩ := element
  cases label <;> cases variadic <;>
    simp [elementSpelling, elementText, elementChars, labelChars, dotsChars, chars]

/-- A nominal type is spelled as its parts with dots between them. -/
theorem chars_nominal (segments : List (TypeSegment SwiftType)) :
    chars (.nominal segments) = separatedBy ['.'] (segments.map segmentChars) := by
  show (String.intercalate "." (renderSegments segments)).toList = _
  rw [renderSegments_eq_map, toList_intercalate_eq, List.map_map]
  exact congrArg _ (List.map_congr_left fun s _ => toList_segmentSpelling s)

/-- The spelling of a list of elements in parentheses, in characters. -/
theorem toList_parenthesizedElements (elements : List (TypeElement SwiftType)) :
    ("(" ++ String.intercalate ", " (renderElements elements) ++ ")").toList =
      parenChars elements := by
  have helements : elements.map (String.toList ∘ elementSpelling) = elements.map elementChars :=
    List.map_congr_left fun e _ => toList_elementSpelling e
  rw [renderElements_eq_map, String.toList_append, String.toList_append, toList_intercalate_eq,
    List.map_map, helements]
  rfl

theorem chars_tuple (elements : List (TypeElement SwiftType)) :
    chars (.tuple elements) = parenChars elements :=
  toList_parenthesizedElements elements

/-- An array type is spelled as its element in brackets. -/
theorem chars_array (element : SwiftType) :
    chars (.array element) = '[' :: element.chars ++ [']'] := by
  show ("[" ++ element.render ++ "]").toList = _
  simp [chars]

/-- A dictionary type is spelled as key and value in brackets. -/
theorem chars_dictionary (key value : SwiftType) :
    chars (.dictionary key value) =
      '[' :: key.chars ++ (" : ".toList ++ (value.chars ++ [']'])) := by
  show ("[" ++ key.render ++ " : " ++ value.render ++ "]").toList = _
  simp [chars]

/-- The spelling of a type before postfixes, in characters. -/
theorem toList_parenthesized (type : SwiftType) :
    (parenthesized type type.render).toList = type.baseChars := by
  rw [parenthesized, baseChars]
  split <;> simp [chars]

/-- An optional type is spelled with its mark behind what it wraps. -/
theorem chars_optional (wrapped : SwiftType) (implicitlyUnwrapped : Bool) :
    chars (.optional wrapped implicitlyUnwrapped) =
      wrapped.baseChars ++ (optionalMark implicitlyUnwrapped).toList := by
  show (parenthesized wrapped wrapped.render ++ optionalMark implicitlyUnwrapped).toList = _
  rw [String.toList_append, toList_parenthesized]

/-- A metatype is spelled with its kind behind its instance. -/
theorem chars_metatype (of : SwiftType) (kind : String) :
    chars (.metatype of kind) = of.baseChars ++ ("." ++ kind).toList := by
  show (parenthesized of of.render ++ "." ++ kind).toList = _
  rw [String.toList_append, String.toList_append, toList_parenthesized, String.toList_append,
    List.append_assoc]

/-- An attributed type is spelled with each attribute and a space before its base. -/
theorem chars_attributed (attributes : List String) (base : SwiftType) :
    chars (.attributed attributes base) =
      (attributes.flatMap fun modifier => modifier.toList ++ [' ']) ++ base.chars := by
  show (String.intercalate " " (attributes ++ [base.render])).toList = _
  rw [toList_intercalate_eq, List.map_append, List.map_singleton, separatedBy_concat,
    List.flatMap_map]
  rfl

/-- A composition is spelled as its members with ampersands between them. -/
theorem chars_composition (members : List SwiftType) :
    chars (.composition members) = separatedBy " & ".toList (members.map chars) := by
  show (String.intercalate " & " (renderAll members)).toList = _
  rw [renderAll_eq_map, toList_intercalate_eq, List.map_map]
  rfl

/-- A function type is spelled as its parameters, its effects, an arrow and its result. -/
theorem chars_function (parameters : List (TypeElement SwiftType)) (result : SwiftType)
    (effects : List String) :
    chars (.function parameters result effects) =
      parenChars parameters ++ ((effects.flatMap fun effect => ' ' :: effect.toList) ++
        (" -> ".toList ++ (spelledResult result).chars)) := by
  have hresult : (resultText result result.render).toList = (spelledResult result).chars := by
    rw [resultText, spelledResult]
    split
    · decide
    · rfl
  have heffects : (effectsText effects).toList =
      effects.flatMap fun effect => ' ' :: effect.toList := by
    rw [effectsText, String.toList_join, List.flatMap_map]
    refine List.flatMap_congr fun effect _ => ?_
    simp
  show ("(" ++ String.intercalate ", " (renderElements parameters) ++ ")" ++ effectsText effects ++
    " -> " ++ resultText result result.render).toList = _
  rw [String.toList_append, String.toList_append, String.toList_append,
    toList_parenthesizedElements, hresult, heffects]
  simp only [List.append_assoc]

/-! ## How a spelling starts -/

/-- Two texts that stop a run stop it together, also if the first is empty. -/
theorem stopsAt_append {predicate : Char → Bool} {s t : List Char} (hs : StopsAt predicate s)
    (ht : StopsAt predicate t) : StopsAt predicate (s ++ t) := by
  cases s with
  | nil => exact ht
  | cons x s => exact stopsAt_cons.2 (stopsAt_cons.1 hs)

/-- Behind an identifier, the text neither prolongs it nor makes it a label. -/
structure Detached (text : List Char) : Prop where
  word : StopsAt isWordChar text
  colon : StopsAt (· == ':') (text.dropWhile isSpace)

theorem detached_nil : Detached [] := ⟨stopsAt_nil _, stopsAt_nil _⟩

/-- Behind an identifier, a character that is no part of a word, no blank and no colon detaches it.
-/
theorem detached_cons {x : Char} {rest : List Char} (hword : isWordChar x = false)
    (hspace : isSpace x = false) (hcolon : x ≠ ':') : Detached (x :: rest) := by
  refine ⟨stopsAt_cons.2 hword, ?_⟩
  rw [List.dropWhile_cons_of_neg (by rw [hspace]; decide)]
  exact stopsAt_beq hcolon _

/-- So does a space before such a character. -/
theorem detached_space {x : Char} {rest : List Char} (hspace : isSpace x = false)
    (hcolon : x ≠ ':') : Detached (' ' :: x :: rest) := by
  refine ⟨stopsAt_cons.2 rfl, ?_⟩
  rw [List.dropWhile_cons_of_pos rfl, List.dropWhile_cons_of_neg (by rw [hspace]; decide)]
  exact stopsAt_beq hcolon _

/-- Detached texts in a row are detached. -/
theorem Detached.append {s t : List Char} (hs : Detached s) (ht : Detached t) :
    Detached (s ++ t) := by
  refine ⟨stopsAt_append hs.word ht.word, ?_⟩
  rw [List.dropWhile_append]
  split
  · exact ht.colon
  · next hne => exact hs.colon.append (by simpa using hne) t

/-- The text starts with one of the marks, or with an identifier that is allowed there. -/
inductive Starts (marks : List Char) (allowed : String → Prop) : List Char → Prop
  | mark {x : Char} {rest : List Char} : x ∈ marks → Starts marks allowed (x :: rest)
  | word {name rest : List Char} : IsIdentifier name → allowed (String.ofList name) →
      Detached rest → Starts marks allowed (name ++ rest)

/-- A text starts the same way when something detached follows it. -/
theorem Starts.append {marks : List Char} {allowed : String → Prop} {s t : List Char}
    (h : Starts marks allowed s) (ht : Detached t) : Starts marks allowed (s ++ t) := by
  cases h with
  | mark hx => exact .mark hx
  | word hname hallowed hrest =>
    rw [List.append_assoc]
    exact .word hname hallowed (hrest.append ht)

/-- The text starts as a type does. -/
def StartsType : List Char → Prop := Starts ['(', '[', '@'] fun _ => True

/-- The text starts as a type without attributes does. -/
def StartsPlain : List Char → Prop := Starts ['(', '['] fun word => word ∉ specifiers

/-- What starts as a type without attributes starts as a type. -/
theorem StartsPlain.startsType {text : List Char} (h : StartsPlain text) : StartsType text := by
  cases h with
  | mark hx => exact .mark (by simp only [List.mem_cons] at hx ⊢; tauto)
  | word hname _ hrest => exact .word hname trivial hrest

/-- The first character of a type is not blank, nor a colon, nor the end of a list. -/
theorem StartsType.exists_cons {text : List Char} (h : StartsType text) :
    ∃ x rest, text = x :: rest ∧ isSpace x = false ∧ x ≠ ':' ∧ x ≠ ')' := by
  cases h with
  | @mark x rest hx =>
    refine ⟨x, rest, rfl, ?_⟩
    revert x
    simp only [List.forall_mem_cons, List.not_mem_nil, false_imp_iff, implies_true, and_true]
    decide
  | @word name rest hname _ _ =>
    obtain ⟨x, tail, rfl, hx⟩ := hname.exists_cons
    refine ⟨x, tail ++ rest, rfl, isSpace_of_opensIdentifier hx, ?_, ?_⟩ <;>
      rintro rfl <;> revert hx <;> decide

/-- A type does not start with a blank. -/
theorem StartsType.stopsAt_isSpace {text : List Char} (h : StartsType text) (after : List Char) :
    StopsAt isSpace (text ++ after) := by
  obtain ⟨x, rest, rfl, hx, -⟩ := h.exists_cons
  exact stopsAt_cons.2 hx

/-- A type is not taken for a label. -/
theorem StartsType.elementLabel_rejects {text after : List Char} (h : StartsType text)
    (hafter : Detached after) : elementLabel.Rejects (text ++ after) := by
  have hall : StartsType (text ++ after) := h.append hafter
  revert hall
  generalize text ++ after = all
  rintro (hx | ⟨hname, -, hrest⟩)
  · refine (name_rejects ?_).bind _
    simp only [List.mem_cons, List.not_mem_nil, or_false] at hx
    rcases hx with rfl | rfl | rfl <;> exact stopsAt_cons.2 rfl
  · refine Accepts.bind_rejects (name_accepts (List.forall_mem_nil _) hname hrest.word) ?_
    exact (symbol_rejects_of_head rfl hrest.colon).bind _

/-- Without attributes, a type is not taken for a modifier. -/
theorem StartsPlain.modifier_rejects {lead text after : List Char} (h : StartsPlain text)
    (hlead : ∀ x ∈ lead, isSpace x = true) (hafter : StopsAt isWordChar after) :
    modifier.Rejects (lead ++ (text ++ after)) := by
  have hskip : (lead ++ (text ++ after)).dropWhile isSpace = text ++ after :=
    dropWhile_append_of_stopsAt hlead (h.startsType.stopsAt_isSpace after)
  refine .choice ?_
  simp only [List.forall_mem_cons, List.not_mem_nil, false_imp_iff, implies_true, and_true]
  cases h with
  | @mark x rest hx =>
    have hstops : StopsAt (· == '@') (x :: rest ++ after) ∧
        StopsAt opensIdentifier (x :: rest ++ after) := by
      simp only [List.mem_cons, List.not_mem_nil, or_false] at hx
      rcases hx with rfl | rfl <;> exact ⟨stopsAt_cons.2 rfl, stopsAt_cons.2 rfl⟩
    refine ⟨typeAttribute_rejects ?_, oneOf_rejects ?_⟩
    · rw [hskip]
      exact hstops.1
    · rw [hskip]
      exact hstops.2
  | @word name rest hname hallowed hrest =>
    refine ⟨typeAttribute_rejects ?_, ?_⟩
    · rw [hskip]
      obtain ⟨x, tail, rfl, hx⟩ := hname.exists_cons
      exact stopsAt_beq_of_pos hx (by decide) _
    · have hreject := oneOf_rejects_of_notMem "specifier" hlead hname hallowed
        (stopsAt_append hrest.word hafter)
      simpa only [List.append_assoc] using hreject

/-! ## How the spelling of a normal type starts -/

/-- With attributes before it, a type still starts as one. -/
theorem startsType_of_modifiers {attributes : List String} {text : List Char}
    (hattributes : ∀ modifier ∈ attributes, IsModifier modifier) (htext : StartsType text) :
    StartsType ((attributes.flatMap fun modifier => modifier.toList ++ [' ']) ++ text) := by
  induction attributes with
  | nil => exact htext
  | cons first later ih =>
    obtain ⟨hfirst, hlater⟩ := List.forall_mem_cons.1 hattributes
    have hrest := ih hlater
    obtain ⟨x, rest, hcons, hspace, hcolon, -⟩ := hrest.exists_cons
    rw [List.flatMap_cons, List.append_assoc, List.append_assoc, hcons, List.singleton_append]
    rcases hfirst with hmem | hattribute
    · have hword := isIdentifier_of_mem_specifiers hmem
      exact .word hword trivial (detached_space hspace hcolon)
    · revert hattribute
      generalize first.toList = text
      rintro (_ | _) <;> exact .mark (by simp)

/-- Generic arguments end the name before them. -/
theorem detached_argumentChars (arguments : List SwiftType) :
    Detached (argumentChars arguments) := by
  cases arguments with
  | nil => exact detached_nil
  | cons first later => exact detached_cons (by decide) (by decide) (by decide)

/-- A nominal type starts with its first name, which is no specifier. -/
theorem startsPlain_nominal {segments : List (TypeSegment SwiftType)}
    (h : WellFormed (.nominal segments)) : StartsPlain (chars (.nominal segments)) := by
  obtain ⟨hne, hnames, hfirst⟩ := h
  obtain ⟨first, later, rfl⟩ := List.exists_cons_of_ne_nil hne
  have hlater : Detached ((later.map segmentChars).flatMap (['.'] ++ ·)) := by
    cases later with
    | nil => exact detached_nil
    | cons second later => exact detached_cons (by decide) (by decide) (by decide)
  have hname := consumes_identifier_iff.1 (hnames first (by simp))
  rw [chars_nominal, List.map_cons, separatedBy, segmentChars, List.append_assoc]
  refine .word hname ?_ ((detached_argumentChars _).append hlater)
  rw [String.ofList_toList]
  exact hfirst first (by simp)

/-- A normal type starts as a type does, and before a postfix as one without attributes. -/
theorem Normal.starts {type : SwiftType} (h : type.Normal) :
    StartsPlain type.baseChars ∧ StartsType type.chars := by
  -- before a postfix a type is either in parentheses or without attributes
  have hplain : ∀ {type : SwiftType}, type.needsParentheses = false → StartsPlain type.chars →
      StartsPlain type.baseChars ∧ StartsType type.chars := by
    intro type hneeds hstarts
    rw [baseChars, hneeds]
    exact ⟨hstarts, hstarts.startsType⟩
  have hneeds : ∀ {type : SwiftType}, type.needsParentheses = true → StartsType type.chars →
      StartsPlain type.baseChars ∧ StartsType type.chars := by
    intro type hneeds hstarts
    rw [baseChars, hneeds]
    exact ⟨.mark (by simp), hstarts⟩
  induction h with
  | @intro type hhere _ ih =>
    obtain ⟨hwell, hclear⟩ := hhere
    cases type with
    | nominal segments => exact hplain rfl (startsPlain_nominal hwell)
    | tuple elements =>
      refine hplain rfl ?_
      rw [chars_tuple]
      exact .mark (by simp)
    | array element =>
      refine hplain rfl ?_
      rw [chars_array]
      exact .mark (by simp)
    | dictionary key value =>
      refine hplain rfl ?_
      rw [chars_dictionary]
      exact .mark (by simp)
    | optional wrapped implicitlyUnwrapped =>
      refine hplain rfl ?_
      rw [chars_optional]
      refine (ih wrapped (by simp [parts])).1.append ?_
      cases implicitlyUnwrapped <;> exact detached_cons (by decide) (by decide) (by decide)
    | metatype of kind =>
      refine hplain rfl ?_
      rw [chars_metatype, String.toList_append]
      refine (ih of (by simp [parts])).1.append ?_
      exact detached_cons (by decide) (by decide) (by decide)
    | attributed attributes base =>
      refine hneeds rfl ?_
      rw [chars_attributed]
      exact startsType_of_modifiers hwell.2 (ih base (by simp [parts])).2
    | composition members =>
      refine hneeds rfl ?_
      obtain ⟨first, later, rfl⟩ : ∃ first later, members = first :: later :=
        List.exists_cons_of_length_pos (Nat.lt_of_lt_of_le (by decide) hwell)
      rw [chars_composition, List.map_cons, separatedBy]
      refine (ih first (by simp [parts])).2.append ?_
      cases later with
      | nil => exact detached_nil
      | cons second later => exact detached_space (by decide) (by decide)
    | function parameters result effects =>
      refine hneeds rfl ?_
      rw [chars_function]
      exact .mark (by simp)

/-- A normal type that is neither attributed nor a composition starts as one without attributes. -/
theorem Normal.startsPlain {type : SwiftType} (h : type.Normal)
    (hattributed : type.isAttributed = false) (hcomposition : type.isComposition = false) :
    StartsPlain type.chars := by
  cases type with
  | attributed attributes base => cases hattributed
  | composition members => cases hcomposition
  | function parameters result effects =>
    rw [chars_function]
    exact .mark (by simp)
  | nominal | tuple | array | dictionary | optional | metatype => exact h.starts.1

end TypeScribe.SwiftType
