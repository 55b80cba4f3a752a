import TypeScribe.Proofs.SwiftType.Rules

/-!
# Types are read back

A normal type is read back from its spelling, with `Void` for the function results that are empty
tuples. The grammar has four levels (what stands before a postfix, a type without attributes, a
member of a composition, a type), and a type is read back at each level at which it may stand,
wherever what follows does not go on with it (`ReadsBack`). That is proved by induction over the
type, with one lemma for each kind of type and level. The parser of the types nested in it is a
parameter of these lemmas, since it follows one level less; a type that stands in parentheses before
a postfix is read by that parser.
-/

namespace TypeScribe.SwiftType

open TypeScribe.Parser
open TypeScribe.SwiftType.Grammar

/-! ## Postfixes -/

/-- No postfix is read where none of the marks stands. -/
theorem postfixMark_rejects {text : List Char} (h : ∀ mark ∈ postfixMarks, ¬mark.toList <+: text) :
    postfixMark.Rejects text := by
  refine .choice (forall_mem_postfixMarks.2 ⟨?_, ?_, ?_, ?_⟩) <;>
    exact token_rejects (h _ (by simp [postfixMarks]))

/-- A character with which a postfix may start. -/
def opensPostfix (x : Char) : Bool := x == '?' || x == '!' || x == '.'

/-- No postfix is read where no character stands that a mark starts with. -/
theorem postfixMark_rejects_of_stopsAt {text : List Char} (h : StopsAt opensPostfix text) :
    postfixMark.Rejects text := by
  refine postfixMark_rejects fun mark hmark hstands => ?_
  obtain ⟨more, rfl⟩ := hstands
  simp only [postfixMarks, List.mem_cons, List.not_mem_nil, or_false] at hmark
  rcases hmark with rfl | rfl | rfl | rfl <;> exact absurd (h _ rfl) (by decide)

/-- No postfix is read where a member of a composition may end: a dot there is not the only one. -/
theorem Ends.postfixMark_rejects {blanks rest : List Char} (h : Ends memberMarks blanks rest) :
    postfixMark.Rejects (blanks ++ rest) := by
  refine SwiftType.postfixMark_rejects fun mark hmark hstands => ?_
  obtain ⟨more, heq⟩ := hstands
  simp only [postfixMarks, List.mem_cons, List.not_mem_nil, or_false] at hmark
  cases blanks with
  | cons y blanks =>
    have hspace := h.blank y List.mem_cons_self
    rcases hmark with rfl | rfl | rfl | rfl <;> obtain ⟨rfl, -⟩ := List.cons.inj heq <;>
      exact absurd hspace (by decide)
  | nil =>
    obtain rfl : mark.toList ++ more = rest := heq
    rcases hmark with rfl | rfl | rfl | rfl
    · exact absurd (h.mark '?' rfl) (by decide)
    · exact absurd (h.mark '!' rfl) (by decide)
    · exact absurd (Option.some.inj (h.dots _ rfl)) (by decide)
    · exact absurd (Option.some.inj (h.dots _ rfl)) (by decide)

/-- Marks are read up to where no other one stands. -/
theorem postfixes_accept {marks : List String} (hmarks : ∀ mark ∈ marks, mark ∈ postfixMarks)
    {after : List Char} (hafter : postfixMark.Rejects after) :
    (many postfixMark).Accepts (marks.flatMap String.toList) marks after := by
  induction marks with
  | nil => exact hafter.many
  | cons mark later ih =>
    obtain ⟨hmark, hlater⟩ := List.forall_mem_cons.1 hmarks
    exact (postfixMark_accepts hmark _).many_cons (ih hlater)

/-- What stands before an arrow: a primary with its postfixes. -/
def postfixed (nested : Parser SwiftType) : Parser Primary := do
  let base ← primary nested
  let postfixes ← many postfixMark
  return applyPostfixes base postfixes

/-- The rule as a chain of its steps. -/
theorem functionOrPrimary_eq (nested : Parser SwiftType) :
    functionOrPrimary nested = postfixed nested >>= fun base =>
      option? (arrow nested) >>= fun tail => pure (match tail with
        | none => base.toType
        | some (effects, result) => .function base.toParameters result effects) := by
  rw [functionOrPrimary, postfixed, Parser.bind_assoc]
  refine congrArg (primary nested >>= ·) (funext fun base => ?_)
  rw [Parser.bind_assoc]
  rfl

/-! ## Levels of reading -/

/-- What may follow the type as a primary. -/
structure EndsPrimary (found : SwiftType) (blanks rest : List Char) : Prop where
  blank : ∀ x ∈ blanks, isSpace x = true
  space : StopsAt isSpace rest
  nominal : found.isNominal = true → Ends nominalMarks blanks rest

/-- The type is read back as a primary. -/
def ReadsPrimary (nested : Parser SwiftType) (found : SwiftType) : Prop :=
  ∃ base : Primary, base.toType = found.voidResults ∧
    ∀ lead blanks rest, (∀ x ∈ lead, isSpace x = true) → EndsPrimary found blanks rest →
      (primary nested).AcceptsLoosely (lead ++ found.baseChars) base blanks rest

/-- The type is read back before postfixes. Those of a metatype would prolong a nominal type. -/
def ReadsBase (nested : Parser SwiftType) (found : SwiftType) : Prop :=
  ∀ lead marks blanks rest, (∀ x ∈ lead, isSpace x = true) →
    (∀ mark ∈ marks, mark ∈ postfixMarks) →
    (found.isNominal = true → ∀ mark ∈ marks.head?, mark = "?" ∨ mark = "!") →
    Ends memberMarks blanks rest →
    ∃ base : Primary, base.toType = found.voidResults ∧
      (postfixed nested).AcceptsLoosely (lead ++ (found.baseChars ++ marks.flatMap String.toList))
        (applyPostfixes base marks) blanks rest

/-- The type is read back where no attributes may stand. -/
def ReadsPlain (nested : Parser SwiftType) (found : SwiftType) : Prop :=
  ∀ lead blanks rest, (∀ x ∈ lead, isSpace x = true) → Ends memberMarks blanks rest →
    (found.isFunction = true → Ends typeMarks blanks rest) →
    (functionOrPrimary nested).AcceptsLoosely (lead ++ found.chars) found.voidResults blanks rest

/-- The type is read back as a member of a composition. -/
def ReadsMember (nested : Parser SwiftType) (found : SwiftType) : Prop :=
  ∀ blanks rest, Ends memberMarks blanks rest →
    (found.isOpen = true → Ends typeMarks blanks rest) →
    (member nested).AcceptsLoosely found.chars found.voidResults blanks rest

/-- The type is read back at every level at which it may stand. -/
structure ReadsBack (nested : Parser SwiftType) (found : SwiftType) : Prop where
  base : Reads nested found → ReadsBase nested found
  plain : found.isAttributed = false → found.isComposition = false → ReadsPlain nested found
  member : found.isComposition = false → ReadsMember nested found
  whole : Reads (typeOf nested) found

section
variable {nested : Parser SwiftType} {found : SwiftType}

/-! ## Before postfixes -/

/-- What is read as a primary type is read with its postfixes. -/
theorem ReadsPrimary.readsBase (h : ReadsPrimary nested found) : ReadsBase nested found := by
  intro lead marks blanks rest hlead hmarks hnominal hends
  obtain ⟨base, hbase, hprimary⟩ := h
  refine ⟨base, hbase, ?_⟩
  cases marks with
  | nil =>
    rw [List.flatMap_nil, List.append_nil]
    refine (hprimary lead blanks rest hlead
      ⟨hends.blank, hends.stopsAt_isSpace memberMarks_subset_nominalMarks,
        fun _ => hends.mono memberMarks_subset_nominalMarks⟩).bind_nil fun left hleft => ?_
    exact (hends.suffix hleft).postfixMark_rejects.many.bind_pure
  | cons mark later =>
    have hmarked : EndsPrimary found []
        ((mark :: later).flatMap String.toList ++ (blanks ++ rest)) := by
      refine ⟨List.forall_mem_nil _, ?_, fun hfound => ?_⟩
      · have hmark := hmarks mark List.mem_cons_self
        simp only [postfixMarks, List.mem_cons, List.not_mem_nil, or_false] at hmark
        rcases hmark with rfl | rfl | rfl | rfl <;> exact stopsAt_cons.2 rfl
      · rcases hnominal hfound mark rfl with rfl | rfl <;>
          exact ends_cons (List.forall_mem_nil _) (by decide) (by decide)
    have haccepts := (hprimary lead [] _ hlead hmarked).tight
    have hpostfixes := postfixes_accept hmarks hends.postfixMark_rejects
    rw [← List.append_assoc]
    exact AcceptsLoosely.bind haccepts hpostfixes.bind_pure.loosely

/-- A type in parentheses is read back as a primary if it is read back at all. -/
theorem readsPrimary_parenthesized [Follows nested] (hneeds : found.needsParentheses = true)
    (hstarts : StartsType found.chars) (hreads : Reads nested found) :
    ReadsPrimary nested found := by
  refine ⟨.parens [⟨none, found.voidResults, false⟩], rfl, fun lead blanks rest hlead hends => ?_⟩
  rw [baseChars, if_pos hneeds]
  exact (parenList_accepts_type hlead hends.blank hends.space hstarts hreads).choice_head _

/-- One postfix more. -/
theorem ReadsBase.postfix {inner : SwiftType} (h : ReadsBase nested inner) (mark : String)
    (hmark : mark ∈ postfixMarks) (hbase : found.baseChars = inner.baseChars ++ mark.toList)
    (hvalue : found.voidResults = applyPostfix inner.voidResults mark)
    (hnominal : inner.isNominal = true → mark = "?" ∨ mark = "!") : ReadsBase nested found := by
  intro lead marks blanks rest hlead hmarks _ hends
  obtain ⟨base, htype, haccepts⟩ := h lead (mark :: marks) blanks rest hlead
    (List.forall_mem_cons.2 ⟨hmark, hmarks⟩)
    (fun hinner first hfirst => Option.some.inj hfirst ▸ hnominal hinner) hends
  refine ⟨.plain (applyPostfix base.toType mark), by rw [Primary.toType, htype, hvalue], ?_⟩
  rw [hbase, List.append_assoc]
  exact haccepts

/-! ## Without attributes -/

/-- No arrow is read where a member of a composition may end. -/
theorem Ends.arrow_rejects {blanks rest : List Char} (h : Ends memberMarks blanks rest) :
    (arrow nested).Rejects (blanks ++ rest) := by
  have hplain := memberMarks_subset_nominalMarks
  have heffect : (oneOf Grammar.effects "effect").Rejects (blanks ++ rest) :=
    oneOf_rejects (h.name_rejects hplain)
  have harrow := h.symbol_rejects hplain "->" rfl (by decide)
  exact heffect.many.nil_bind_rejects (harrow.bind _)

/-- A type that may stand before a postfix may do without. -/
theorem ReadsBase.functionOrPrimary_accepts (h : ReadsBase nested found)
    {lead blanks rest : List Char} (hlead : ∀ x ∈ lead, isSpace x = true)
    (hends : Ends memberMarks blanks rest) :
    (functionOrPrimary nested).AcceptsLoosely (lead ++ found.baseChars) found.voidResults
      blanks rest := by
  obtain ⟨base, hbase, haccepts⟩ := h lead [] blanks rest hlead (by simp) (by simp) hends
  rw [List.flatMap_nil, List.append_nil] at haccepts
  rw [functionOrPrimary_eq, ← hbase]
  refine haccepts.bind_nil fun left hleft => ?_
  exact (hends.suffix hleft).arrow_rejects.option?.bind_pure

/-- Without parentheses, a type is read as it is before postfixes. -/
theorem ReadsBase.readsPlain (h : ReadsBase nested found)
    (hneeds : found.needsParentheses = false) : ReadsPlain nested found := by
  intro lead blanks rest hlead hends _
  have hchars : found.baseChars = found.chars := by rw [baseChars, hneeds, if_neg (by decide)]
  rw [← hchars]
  exact h.functionOrPrimary_accepts hlead hends

/-- An effect is an identifier. -/
theorem isIdentifier_of_mem_effects {word : String} (h : word ∈ Grammar.effects) :
    IsIdentifier word.toList := by
  revert word
  simp only [Grammar.effects, List.forall_mem_cons, List.not_mem_nil, false_imp_iff, implies_true,
    and_true]
  refine ⟨?_, ?_, ?_⟩ <;> exact .plain (by decide)

/-- The characters of a function type from its effects on, but for the space before them. -/
def arrowChars (effects : List String) (result : List Char) : List Char :=
  match effects with
  | [] => "-> ".toList ++ result
  | first :: later => first.toList ++ (later.flatMap fun effect => [' '] ++ effect.toList) ++
      ([' '] ++ ("-> ".toList ++ result))

/-- A function type is spelled as its parameters, a space, and its arrow with the result. -/
theorem chars_function_eq (parameters : List (TypeElement SwiftType)) (result : SwiftType)
    (effects : List String) :
    chars (.function parameters result effects) =
      parenChars parameters ++ ([' '] ++ arrowChars effects (spelledResult result).chars) := by
  rw [chars_function]
  cases effects with
  | nil => rfl
  | cons first later =>
    simp only [List.flatMap_cons, arrowChars, List.append_assoc, List.cons_append]
    rfl

/-- Behind the parameters, neither a blank nor a postfix is left. -/
theorem arrowChars_stopsAt {effects : List String}
    (heffects : ∀ effect ∈ effects, effect ∈ Grammar.effects) (result after : List Char) :
    StopsAt isSpace (arrowChars effects result ++ after) ∧
      StopsAt opensPostfix (arrowChars effects result ++ after) := by
  cases effects with
  | nil => exact ⟨stopsAt_cons.2 rfl, stopsAt_cons.2 rfl⟩
  | cons first later =>
    obtain ⟨x, tail, hfirst, hx⟩ :=
      (isIdentifier_of_mem_effects (heffects first List.mem_cons_self)).exists_cons
    rw [arrowChars, hfirst]
    refine ⟨stopsAt_cons.2 (isSpace_of_opensIdentifier hx), stopsAt_cons.2 ?_⟩
    refine Bool.eq_false_iff.2 fun hopens => ?_
    simp only [opensPostfix, Bool.or_eq_true, beq_iff_eq] at hopens
    rcases hopens with (rfl | rfl) | rfl <;> revert hx <;> decide

theorem isSpace_of_suffix_space {left : List Char} (h : left <:+ [' ']) :
    ∀ x ∈ left, isSpace x = true :=
  fun x hx => isSpace_of_mem_space x (h.subset hx)

/-- Effects are read up to the arrow. -/
theorem effects_accept {first : String} {later : List String}
    (heffects : ∀ effect ∈ first :: later, effect ∈ Grammar.effects) {lead : List Char}
    (hlead : lead <:+ [' ']) {rest : List Char} (hrest : StopsAt isSpace rest)
    (hstop : StopsAt opensIdentifier rest) :
    (many (oneOf Grammar.effects "effect")).AcceptsLoosely
      (lead ++ (first.toList ++ later.flatMap fun effect => [' '] ++ effect.toList))
      (first :: later) [' '] rest := by
  have hstep : ∀ effect ∈ first :: later, ∀ left, left <:+ [' '] → ∀ b r : List Char, b = [' '] →
      (oneOf Grammar.effects "effect").AcceptsLoosely (left ++ ([] ++ effect.toList)) effect
        b r := by
    rintro effect heffect left hleft b r rfl
    have hmem := heffects effect heffect
    have hword : (oneOf Grammar.effects "effect").Accepts (left ++ effect.toList)
        (String.ofList effect.toList) (' ' :: r) :=
      oneOf_accepts (isSpace_of_suffix_space hleft) (isIdentifier_of_mem_effects hmem)
        (by rwa [String.ofList_toList]) (stopsAt_cons.2 rfl)
    rw [String.ofList_toList] at hword
    exact Accepts.loosely hword
  have hreject : ∀ left, left <:+ [' '] →
      (oneOf Grammar.effects "effect").Rejects (left ++ rest) := by
    intro left hleft
    refine oneOf_rejects ?_
    rwa [dropWhile_append_of_stopsAt (isSpace_of_suffix_space hleft) hrest]
  have hmany := many_acceptsLoosely String.toList id [' '] [] (fun _ b _ => b = [' ']) hstep
    (fun _ _ _ => rfl) (fun _ _ => rfl) hreject hlead
  simpa only [List.nil_append, List.map_id, List.append_assoc] using hmany

/-- Before the arrow, with or without the space, no effect stands. -/
theorem effect_rejects_arrow {lead : List Char} (hlead : lead <:+ [' ']) (after : List Char) :
    (oneOf Grammar.effects "effect").Rejects (lead ++ ("-> ".toList ++ after)) := by
  refine oneOf_rejects ?_
  have hstops : StopsAt isSpace ("-> ".toList ++ after) := stopsAt_cons.2 rfl
  rw [dropWhile_append_of_stopsAt (isSpace_of_suffix_space hlead) hstops]
  exact stopsAt_cons.2 rfl

/-- The arrow is read with at most one blank before it and the one behind it. -/
theorem arrow_symbol_accepts {lead after : List Char} (hlead : lead <:+ [' '])
    (hafter : StopsAt isSpace after) : (symbol "->").Accepts (lead ++ "-> ".toList) "->" after :=
  symbol_accepts_of_isInk "->" (by decide) (isSpace_of_suffix_space hlead) isSpace_of_mem_space
    hafter

/-- The arrow and the result are read, with or without the space before them. -/
theorem result_accepts {result : SwiftType} (hstarts : StartsType result.chars)
    (hreads : Reads nested result) {lead blanks rest : List Char} (hlead : lead <:+ [' '])
    (hends : Ends typeMarks blanks rest) (effects : List String) :
    (symbol "->" >>= fun _ => nested >>= fun found => pure (effects, found)).AcceptsLoosely
      (lead ++ ("-> ".toList ++ result.chars)) (effects, result.voidResults) blanks rest := by
  rw [← List.append_assoc]
  exact AcceptsLoosely.bind (arrow_symbol_accepts hlead (hstarts.stopsAt_isSpace _))
    (hreads blanks rest hends).bind_pure

/-- The effects, the arrow and the result of a function type are read back if the result is. -/
theorem arrow_accepts {effects : List String}
    (heffects : ∀ effect ∈ effects, effect ∈ Grammar.effects) {result : SwiftType}
    (hstarts : StartsType result.chars) (hreads : Reads nested result)
    {lead blanks rest : List Char} (hlead : lead <:+ [' ']) (hends : Ends typeMarks blanks rest) :
    (arrow nested).AcceptsLoosely (lead ++ arrowChars effects result.chars)
      (effects, result.voidResults) blanks rest := by
  cases effects with
  | nil =>
    have hnone : (oneOf Grammar.effects "effect").Rejects
        (lead ++ ("-> ".toList ++ result.chars) ++ (blanks ++ rest)) := by
      rw [List.append_assoc]
      exact effect_rejects_arrow hlead _
    exact AcceptsLoosely.bind (s := []) hnone.many (result_accepts hstarts hreads hlead hends [])
  | cons first later =>
    have hmany : (many (oneOf Grammar.effects "effect")).AcceptsLoosely
        (lead ++ (first.toList ++ later.flatMap fun effect => [' '] ++ effect.toList))
        (first :: later) [' '] ("-> ".toList ++ result.chars ++ (blanks ++ rest)) :=
      effects_accept heffects hlead (stopsAt_cons.2 rfl) (stopsAt_cons.2 rfl)
    rw [arrowChars, ← List.append_assoc]
    exact hmany.bind_after_blanks fun left hleft =>
      result_accepts hstarts hreads hleft hends (first :: later)

/-- Spelling results as `Void` makes no type the empty tuple and leaves the empty tuple as it is. -/
theorem isUnit_voidResults (found : SwiftType) : isUnit found.voidResults = isUnit found := by
  rw [voidResults_eq]
  cases found with
  | tuple elements => cases elements <;> rfl
  | _ => rfl

/-- Results may be spelled as `Void` before or after the type around them is. -/
theorem spelledResult_voidResults (result : SwiftType) :
    (spelledResult result).voidResults = spelledResult result.voidResults := by
  rw [spelledResult, spelledResult, isUnit_voidResults]
  split <;> rfl

/-- A list of parameters is read up to the arrow, with or without the space before it. -/
theorem postfixed_accepts_parameters [Follows nested] {parameters : List (TypeElement SwiftType)}
    (hlabels : ∀ item ∈ parameters, LabelWellFormed item)
    (hstarts : ∀ item ∈ parameters, StartsType item.type.chars)
    (hreads : ∀ item ∈ parameters, Reads nested item.type) {lead after : List Char}
    (hlead : ∀ x ∈ lead, isSpace x = true) (hspace : StopsAt isSpace after)
    (hmark : StopsAt opensPostfix after) :
    (postfixed nested).AcceptsLoosely (lead ++ parenChars parameters)
      (.parens (parameters.map (TypeElement.map voidResults))) [' '] after := by
  have hprimary : (primary nested).AcceptsLoosely (lead ++ parenChars parameters)
      (.parens (parameters.map (TypeElement.map voidResults))) [' '] after :=
    (parenList_accepts hlead isSpace_of_mem_space hspace hlabels hstarts hreads).choice_head _
  refine hprimary.bind_nil fun left hleft => ?_
  have hreject : postfixMark.Rejects (left ++ after) := by
    refine postfixMark_rejects_of_stopsAt ?_
    rcases List.suffix_cons_iff.1 hleft with rfl | hnil
    · exact stopsAt_cons.2 rfl
    · rwa [List.suffix_nil.1 hnil]
  exact hreject.many.bind_pure

/-- A function type is read back if its parameters and its result are. -/
theorem readsPlain_function [Follows nested] {parameters : List (TypeElement SwiftType)}
    {result : SwiftType} {effects : List String}
    (hwell : WellFormed (.function parameters result effects))
    (hstarts : ∀ item ∈ parameters, StartsType item.type.chars)
    (hreads : ∀ item ∈ parameters, Reads nested item.type)
    (hresult : StartsType (spelledResult result).chars)
    (hreadsResult : Reads nested (spelledResult result)) :
    ReadsPlain nested (.function parameters result effects) := by
  intro lead blanks rest hlead _ hends
  have hends := hends rfl
  obtain ⟨hspace, hmark⟩ :=
    arrowChars_stopsAt hwell.2 (spelledResult result).chars (blanks ++ rest)
  have hbase := postfixed_accepts_parameters hwell.1 hstarts hreads hlead hspace hmark
  rw [functionOrPrimary_eq, chars_function_eq, ← List.append_assoc]
  refine hbase.bind_after_blanks fun left hleft => ?_
  have hvalue : (function parameters result effects).voidResults =
      .function (parameters.map (TypeElement.map voidResults)) (spelledResult result).voidResults
        effects := by
    rw [voidResults_eq, spelledResult_voidResults]
    rfl
  rw [hvalue]
  exact (arrow_accepts hwell.2 hresult hreadsResult hleft hends).option?.bind_pure

/-! ## Members -/

/-- A type that starts without attributes is read as a member of a composition. -/
theorem ReadsPlain.readsMember (h : ReadsPlain nested found) (hstarts : StartsPlain found.chars)
    (hopen : found.isFunction = true → found.isOpen = true) : ReadsMember nested found := by
  intro blanks rest hends htype
  have hword : StopsAt isWordChar (blanks ++ rest) :=
    hends.stopsAt_isWordChar memberMarks_subset_nominalMarks
  have hnone := hstarts.modifier_rejects (List.forall_mem_nil _) hword
  rw [List.nil_append] at hnone
  have hplain := h [] blanks rest (List.forall_mem_nil _) hends fun hfunction =>
    htype (hopen hfunction)
  exact AcceptsLoosely.bind (s := []) hnone.many hplain.bind_pure

/-- A space behind every modifier is one before every later modifier and one before the text. -/
theorem flatMap_space_append (first : String) (later : List String) (text : List Char) :
    ((first :: later).flatMap fun modifier => modifier.toList ++ [' ']) ++ text =
      first.toList ++ (later.flatMap fun modifier => [' '] ++ modifier.toList) ++
        ([' '] ++ text) := by
  induction later generalizing first with
  | nil => simp
  | cons second later ih =>
    rw [List.flatMap_cons, List.append_assoc, ih second]
    simp

/-- Attributes are read up to the type that they stand before. -/
theorem modifiers_accept {first : String} {later : List String}
    (hmodifiers : ∀ modifier ∈ first :: later, IsModifier modifier) {rest : List Char}
    (hrest : ∀ left, left <:+ [' '] → modifier.Rejects (left ++ rest)) :
    modifiers.AcceptsLoosely
      (first.toList ++ later.flatMap fun modifier => [' '] ++ modifier.toList)
      (first :: later) [' '] rest := by
  have hstep : ∀ text ∈ first :: later, ∀ left, left <:+ [' '] → ∀ b r : List Char, b = [' '] →
      modifier.AcceptsLoosely (left ++ ([] ++ text.toList)) text b r := by
    rintro text htext left hleft b r rfl
    exact (modifier_accepts (isSpace_of_suffix_space hleft) (hmodifiers text htext) r).loosely
  have hmany := many_acceptsLoosely String.toList id [' '] [] (fun _ b _ => b = [' ']) hstep
    (fun _ _ _ => rfl) (fun _ _ => rfl) hrest List.nil_suffix
  simp only [List.nil_append, List.map_id] at hmany
  exact hmany

/-- With attributes before it, such a type is read as a member too. -/
theorem ReadsPlain.readsMember_attributed {attributes : List String} {base : SwiftType}
    (h : ReadsPlain nested base) (hwell : WellFormed (.attributed attributes base))
    (hstarts : StartsPlain base.chars) : ReadsMember nested (.attributed attributes base) := by
  intro blanks rest hends htype
  obtain ⟨hne, hmodifiers⟩ := hwell
  obtain ⟨first, later, rfl⟩ := List.exists_cons_of_ne_nil hne
  have hword : StopsAt isWordChar (blanks ++ rest) :=
    hends.stopsAt_isWordChar memberMarks_subset_nominalMarks
  have hvalue : (attributed (first :: later) base).voidResults =
      .attributed (first :: later) base.voidResults := by
    rw [voidResults_eq]
    rfl
  rw [chars_attributed, flatMap_space_append, hvalue]
  refine (modifiers_accept hmodifiers fun left hleft => ?_).bind_after_blanks fun left hleft => ?_
  · exact hstarts.modifier_rejects (isSpace_of_suffix_space hleft) hword
  · exact (h left blanks rest (isSpace_of_suffix_space hleft) hends htype).bind_pure

/-! ## Types -/

/-- Members are read one by one, each from its text. Only the last may be open, since an open one
would take the later members for a part of its result. -/
theorem typeOf_accepts_members [Forward nested] {text : SwiftType → List Char}
    {opens : SwiftType → Bool} {first : SwiftType} {later : List SwiftType}
    (hmembers : ∀ part ∈ first :: later, ∀ blanks rest, Ends memberMarks blanks rest →
      (opens part = true → Ends typeMarks blanks rest) →
      (member nested).AcceptsLoosely (text part) part.voidResults blanks rest)
    (hstarts : ∀ part ∈ later, StartsType (text part))
    (hopen : ∀ part ∈ (first :: later).dropLast, opens part = false) {blanks rest : List Char}
    (hends : Ends typeMarks blanks rest) :
    (typeOf nested).AcceptsLoosely (separatedBy " & ".toList ((first :: later).map text))
      (if (later.map voidResults).isEmpty then first.voidResults
        else .composition (first.voidResults :: later.map voidResults)) blanks rest := by
  have := advances_symbol "&" (by decide)
  have : Advances (symbol "&" >>= fun _ => member nested) := Advances.bind
  let Next (part : SwiftType) (b r : List Char) : Prop :=
    Ends memberMarks b r ∧ (opens part = true → Ends typeMarks b r)
  have hstep : ∀ part ∈ later, ∀ left, left <:+ [' '] → ∀ b r, Next part b r →
      (symbol "&" >>= fun _ => member nested).AcceptsLoosely (left ++ ("& ".toList ++ text part))
        part.voidResults b r := by
    rintro part hpart left hleft b r ⟨hmember, htype⟩
    have hsymbol : (symbol "&").Accepts (left ++ "& ".toList) "&" (text part ++ (b ++ r)) :=
      symbol_accepts_of_isInk "&" (by decide) (isSpace_of_suffix_space hleft)
        isSpace_of_mem_space ((hstarts part hpart).stopsAt_isSpace _)
    rw [← List.append_assoc]
    exact AcceptsLoosely.bind hsymbol
      (hmembers part (List.mem_cons_of_mem _ hpart) b r hmember htype)
  have hnext : ∀ part ∈ (first :: later).dropLast, ∀ r, Next part [' '] ("& ".toList ++ r) := by
    intro part hpart r
    refine ⟨ends_cons isSpace_of_mem_space (by decide) (by decide), fun h => ?_⟩
    rw [hopen part hpart] at h
    cases h
  have hend : ∀ part ∈ (first :: later).getLast?, Next part blanks rest :=
    fun _ _ => ⟨hends.mono typeMarks_subset_memberMarks, fun _ => hends⟩
  have hstop : ∀ left, left <:+ blanks →
      (symbol "&" >>= fun _ => member nested).Rejects (left ++ rest) := by
    intro left hleft
    exact ((hends.suffix hleft).symbol_rejects (by decide) "&" rfl (by decide)).bind _
  have hchain := chain_acceptsLoosely text voidResults [' '] "& ".toList Next
    (f := fun head tail => if tail.isEmpty then head else .composition (head :: tail))
    (fun b r hr => hmembers first List.mem_cons_self b r hr.1 hr.2) hstep hnext hend hstop
  rw [List.map_cons, separatedBy, List.flatMap_map]
  exact hchain

/-- What is read as a member is read as a whole type where a type may end. -/
theorem ReadsMember.reads [Forward nested] (h : ReadsMember nested found) :
    Reads (typeOf nested) found := by
  intro blanks rest hends
  have hchars : separatedBy " & ".toList ([found].map chars) = found.chars := by
    simp [separatedBy]
  rw [← hchars]
  have hmember : ∀ part ∈ [found], ReadsMember nested part := List.forall_mem_singleton.2 h
  exact typeOf_accepts_members hmember (by simp) (by simp) hends

/-- A composition is read back if its members are. -/
theorem reads_composition [Forward nested] {members : List SwiftType}
    (hwell : WellFormed (.composition members))
    (hunambiguous : Unambiguous (.composition members))
    (hmembers : ∀ part ∈ members, ReadsMember nested part)
    (hstarts : ∀ part ∈ members, StartsType part.chars) :
    Reads (typeOf nested) (.composition members) := by
  intro blanks rest hends
  obtain ⟨first, second, later, rfl⟩ := exists_members hwell
  have hvalue : (composition (first :: second :: later)).voidResults =
      .composition ((first :: second :: later).map voidResults) := by
    rw [voidResults_eq]
    rfl
  rw [chars_composition, hvalue]
  exact typeOf_accepts_members hmembers
    (fun part hpart => hstarts part (List.mem_cons_of_mem _ hpart)) hunambiguous.2 hends

/-! ## From level to level -/

/-- What is put in parentheses is read before postfixes as it is read by itself. -/
theorem Reads.readsBase [Follows nested] (h : Reads nested found)
    (hneeds : found.needsParentheses = true) (hstarts : StartsType found.chars) :
    ReadsBase nested found :=
  (readsPrimary_parenthesized hneeds hstarts h).readsBase

/-- A type that needs no parentheses is read at every level if it is before postfixes. -/
theorem ReadsBase.readsBack [Forward nested] (h : ReadsBase nested found)
    (hneeds : found.needsParentheses = false) (hstarts : StartsPlain found.chars) :
    ReadsBack nested found := by
  have hplain := h.readsPlain hneeds
  have hmember : ReadsMember nested found := hplain.readsMember hstarts fun hfunction => by
    cases found <;> simp_all [isFunction, needsParentheses]
  exact ⟨fun _ => h, fun _ _ => hplain, fun _ => hmember, hmember.reads⟩

/-! ## Primaries -/

section
variable {lead blanks rest : List Char} (hlead : ∀ x ∈ lead, isSpace x = true)
include hlead

/-- A symbol is rejected where another character stands behind the blanks. -/
theorem symbol_rejects_after_blanks {literal : String} {x y : Char}
    (hliteral : literal.toList.head? = some x) (hspace : isSpace y = false) (hne : y ≠ x)
    (tail : List Char) : (symbol literal).Rejects (lead ++ y :: tail) := by
  refine symbol_rejects_of_head hliteral ?_
  rw [dropWhile_append_of_stopsAt hlead (stopsAt_cons.2 hspace)]
  exact stopsAt_beq hne tail

/-- A bracket opens a collection and nothing else. -/
theorem primary_accepts_collection {tail : List Char} {value : SwiftType}
    (h : (collection nested).AcceptsLoosely (lead ++ '[' :: tail) value blanks rest) :
    (primary nested).AcceptsLoosely (lead ++ '[' :: tail) (.plain value) blanks rest := by
  refine .choice_tail ?_ ((h.map Primary.plain).choice_head _)
  rw [List.append_assoc]
  exact (symbol_rejects_after_blanks hlead rfl rfl (by decide) _).bind _

/-- A character that an identifier starts with opens a nominal type and nothing else. -/
theorem primary_accepts_nominal {x : Char} {tail : List Char} {value : SwiftType}
    (hx : opensIdentifier x = true)
    (h : (Grammar.nominal nested).AcceptsLoosely (lead ++ x :: tail) value blanks rest) :
    (primary nested).AcceptsLoosely (lead ++ x :: tail) (.plain value) blanks rest := by
  have hspace := isSpace_of_opensIdentifier hx
  have hother : ∀ {literal : String} {y : Char}, literal.toList.head? = some y →
      opensIdentifier y = false →
      (symbol literal).Rejects (lead ++ x :: tail ++ (blanks ++ rest)) := by
    intro literal y hliteral hy
    rw [List.append_assoc]
    refine symbol_rejects_after_blanks hlead hliteral hspace ?_ _
    rintro rfl
    rw [hx] at hy
    cases hy
  refine .choice_tail ((hother rfl (by decide)).bind _) (.choice_tail (Rejects.map ?_ _) ?_)
  · exact (hother rfl (by decide)).bind _
  · exact (h.map Primary.plain).choice_head _

end

/-- A nominal type is read back if its generic arguments are. -/
theorem readsPrimary_nominal [Forward nested] {segments : List (TypeSegment SwiftType)}
    (hwell : WellFormed (.nominal segments))
    (hstarts : ∀ argument ∈ parts (.nominal segments), StartsType argument.chars)
    (hreads : ∀ argument ∈ parts (.nominal segments), Reads nested argument) :
    ReadsPrimary nested (.nominal segments) := by
  refine ⟨.plain (.nominal (segments.map (TypeSegment.map voidResults))),
    (voidResults_eq (.nominal segments)).symm, fun lead blanks rest hlead hends => ?_⟩
  obtain ⟨x, tail, hcons, hx⟩ : ∃ x tail, chars (.nominal segments) = x :: tail ∧
      opensIdentifier x = true := by
    obtain ⟨hne, hnames, -⟩ := hwell
    obtain ⟨first, later, rfl⟩ := List.exists_cons_of_ne_nil hne
    have hidentifier := consumes_identifier_iff.1 (hnames first List.mem_cons_self)
    obtain ⟨x, tail, hname, hx⟩ := hidentifier.exists_cons
    rw [chars_nominal, List.map_cons, separatedBy, segmentChars, hname]
    exact ⟨x, _, rfl, hx⟩
  have haccepts := nominal_accepts hwell hstarts hreads hlead (hends.nominal rfl)
  show AcceptsLoosely _ (lead ++ chars (.nominal segments)) _ _ _
  rw [hcons] at haccepts ⊢
  exact primary_accepts_nominal hlead hx haccepts

/-- An array type is read back if its element is. -/
theorem readsPrimary_array {inner : SwiftType} (hstarts : StartsType inner.chars)
    (hreads : Reads nested inner) : ReadsPrimary nested (.array inner) := by
  refine ⟨.plain (.array inner.voidResults), (voidResults_eq (.array inner)).symm,
    fun lead blanks rest hlead hends => ?_⟩
  have haccepts := array_accepts hlead hends.blank hends.space hstarts hreads
  show AcceptsLoosely _ (lead ++ chars (.array inner)) _ _ _
  rw [chars_array] at haccepts ⊢
  exact primary_accepts_collection hlead haccepts

/-- A dictionary type is read back if its key and its value are. -/
theorem readsPrimary_dictionary {key value : SwiftType} (hkey : StartsType key.chars)
    (hvalue : StartsType value.chars) (hreadsKey : Reads nested key)
    (hreadsValue : Reads nested value) :
    ReadsPrimary nested (.dictionary key value) := by
  refine ⟨.plain (.dictionary key.voidResults value.voidResults),
    (voidResults_eq (.dictionary key value)).symm, fun lead blanks rest hlead hends => ?_⟩
  have haccepts := dictionary_accepts hlead hends.blank hends.space hkey hvalue hreadsKey
    hreadsValue
  show AcceptsLoosely _ (lead ++ chars (.dictionary key value)) _ _ _
  rw [chars_dictionary] at haccepts ⊢
  exact primary_accepts_collection hlead haccepts

/-- A list in parentheses is a tuple, unless it has a single bare element. -/
theorem toType_parens {elements : List (TypeElement SwiftType)}
    (h : ∀ type, elements ≠ [⟨none, type, false⟩]) :
    (Primary.parens elements).toType = .tuple elements := by
  unfold Primary.toType
  split
  · next type heq =>
    cases heq
    exact absurd rfl (h type)
  · next heq =>
    cases heq
    rfl
  · next heq => cases heq

/-- A tuple is read back if the types of its elements are. -/
theorem readsPrimary_tuple [Follows nested] {elements : List (TypeElement SwiftType)}
    (hwell : WellFormed (.tuple elements))
    (hstarts : ∀ item ∈ elements, StartsType item.type.chars)
    (hreads : ∀ item ∈ elements, Reads nested item.type) :
    ReadsPrimary nested (.tuple elements) := by
  refine ⟨.parens (elements.map (TypeElement.map voidResults)), ?_, ?_⟩
  · rw [voidResults_eq]
    refine toType_parens fun type heq => ?_
    obtain ⟨item, rfl, hitem⟩ := List.map_eq_singleton_iff.1 heq
    obtain ⟨label, found, variadic⟩ := item
    cases hitem
    exact hwell.1 found rfl
  · intro lead blanks rest hlead hends
    show AcceptsLoosely _ (lead ++ chars (.tuple elements)) _ _ _
    rw [chars_tuple]
    exact (parenList_accepts hlead hends.blank hends.space hwell.2 hstarts hreads).choice_head _

end

/-! ## Every normal type -/

/-- A name that is no specifier is a normal type. -/
theorem normal_named {name : String} (h : IsIdentifier name.toList) (hname : name ∉ specifiers) :
    Normal (named name []) := by
  refine normal_of_parts ⟨List.cons_ne_nil _ _, ?_, ?_⟩ trivial (by simp [parts, named])
  · simpa using consumes_identifier_iff.2 h
  · simpa using hname

theorem normal_void : Normal (named "Void" []) := normal_named (.plain (by decide)) (by decide)

section
variable {nested : Parser SwiftType}

/-- `Void` is read back. -/
theorem reads_void [Follows nested] : Reads nested (named "Void" []) := by
  obtain ⟨below, hforward, rfl⟩ := ‹Follows nested›.eq_typeOf
  have hprimary : ReadsPrimary below (named "Void" []) :=
    readsPrimary_nominal normal_void.wellFormed (by simp [parts]) (by simp [parts])
  exact (hprimary.readsBase.readsBack rfl (normal_void.startsPlain rfl rfl)).whole

/-- The parts of the type are normal, and they are read back, also where they are nested. -/
def PartsReadBack (nested : Parser SwiftType) (found : SwiftType) : Prop :=
  ∀ part ∈ found.parts, part.Normal ∧ ReadsBack nested part ∧ Reads nested part

theorem PartsReadBack.starts {found : SwiftType} (h : PartsReadBack nested found) :
    ∀ part ∈ found.parts, StartsType part.chars :=
  fun part hpart => (h part hpart).1.starts.2

theorem PartsReadBack.reads {found : SwiftType} (h : PartsReadBack nested found) :
    ∀ part ∈ found.parts, Reads nested part :=
  fun part hpart => (h part hpart).2.2

/-- An optional type is read back before postfixes if what it wraps is. -/
theorem readsBase_optional {wrapped : SwiftType} (h : ReadsBase nested wrapped)
    (implicitlyUnwrapped : Bool) : ReadsBase nested (.optional wrapped implicitlyUnwrapped) := by
  refine h.postfix (optionalMark implicitlyUnwrapped) ?_ ?_ ?_ fun _ => ?_
  · cases implicitlyUnwrapped <;> simp [optionalMark, postfixMarks]
  · exact chars_optional wrapped implicitlyUnwrapped
  · cases implicitlyUnwrapped <;> exact voidResults_eq (.optional wrapped _)
  · cases implicitlyUnwrapped <;> simp [optionalMark]

/-- A metatype is read back before postfixes if its instance is, which is no nominal type. -/
theorem readsBase_metatype {of : SwiftType} {kind : String} (h : ReadsBase nested of)
    (hwell : WellFormed (.metatype of kind)) (hunambiguous : Unambiguous (.metatype of kind)) :
    ReadsBase nested (.metatype of kind) := by
  have hnominal : of.isNominal = false := hunambiguous
  refine h.postfix ("." ++ kind) ?_ (chars_metatype of kind) ?_ fun hof => ?_
  · rcases hwell with rfl | rfl <;> decide
  · rcases hwell with rfl | rfl <;> exact voidResults_eq (.metatype of _)
  · rw [hnominal] at hof
    cases hof

/-- A function type is read back at every level, in parentheses where it needs them. -/
theorem ReadsPlain.readsBack_function [Follows nested]
    {parameters : List (TypeElement SwiftType)} {result : SwiftType} {effects : List String}
    (h : ReadsPlain nested (.function parameters result effects))
    (hstarts : StartsPlain (chars (.function parameters result effects))) :
    ReadsBack nested (.function parameters result effects) := by
  have hmember := h.readsMember hstarts fun _ => rfl
  exact ⟨fun hreads => hreads.readsBase rfl hstarts.startsType, fun _ _ => h, fun _ => hmember,
    hmember.reads⟩

/-- A function type is read back if its parts are; its result may be spelled `Void`. -/
theorem readsPlain_function_of_parts [Follows nested]
    {parameters : List (TypeElement SwiftType)} {result : SwiftType} {effects : List String}
    (hwell : WellFormed (.function parameters result effects))
    (hparts : PartsReadBack nested (.function parameters result effects)) :
    ReadsPlain nested (.function parameters result effects) := by
  have hmem : ∀ item ∈ parameters, item.type ∈ parts (.function parameters result effects) :=
    fun item hitem => List.mem_append_left _ (List.mem_map_of_mem hitem)
  have hresult : result ∈ parts (.function parameters result effects) := by simp [parts]
  refine readsPlain_function hwell (fun item hitem => hparts.starts _ (hmem item hitem))
    (fun item hitem => hparts.reads _ (hmem item hitem)) ?_ ?_
  · rw [spelledResult]
    split
    · exact normal_void.starts.2
    · exact hparts.starts result hresult
  · rw [spelledResult]
    split
    · exact reads_void
    · exact hparts.reads result hresult

/-- A normal type is read back at every level if its parts are. -/
theorem readsBack_of_parts [Follows nested] {found : SwiftType} (hnormal : found.Normal)
    (hparts : PartsReadBack nested found) : ReadsBack nested found := by
  have hwell := hnormal.wellFormed
  have hunambiguous := hnormal.unambiguous
  have hstarts := hparts.starts
  have hreads := hparts.reads
  cases found with
  | nominal segments =>
    exact (readsPrimary_nominal hwell hstarts hreads).readsBase.readsBack rfl
      (hnormal.startsPlain rfl rfl)
  | tuple elements =>
    refine (readsPrimary_tuple hwell ?_ ?_).readsBase.readsBack rfl (hnormal.startsPlain rfl rfl)
    · exact fun item hitem => hstarts _ (List.mem_map_of_mem hitem)
    · exact fun item hitem => hreads _ (List.mem_map_of_mem hitem)
  | array element =>
    have hmem : element ∈ parts (.array element) := List.mem_singleton_self _
    exact (readsPrimary_array (hstarts _ hmem) (hreads _ hmem)).readsBase.readsBack rfl
      (hnormal.startsPlain rfl rfl)
  | dictionary key value =>
    have hkey : key ∈ parts (.dictionary key value) := by simp [parts]
    have hvalue : value ∈ parts (.dictionary key value) := by simp [parts]
    have hprimary := readsPrimary_dictionary (hstarts key hkey) (hstarts value hvalue)
      (hreads key hkey) (hreads value hvalue)
    exact hprimary.readsBase.readsBack rfl (hnormal.startsPlain rfl rfl)
  | optional wrapped implicitlyUnwrapped =>
    obtain ⟨-, hback, hwhole⟩ := hparts wrapped (List.mem_singleton_self _)
    have hwrapped := hback.base hwhole
    exact (readsBase_optional hwrapped implicitlyUnwrapped).readsBack rfl
      (hnormal.startsPlain rfl rfl)
  | metatype of kind =>
    obtain ⟨-, hback, hwhole⟩ := hparts of (List.mem_singleton_self _)
    have hof := hback.base hwhole
    exact (readsBase_metatype hof hwell hunambiguous).readsBack rfl (hnormal.startsPlain rfl rfl)
  | attributed attributes base =>
    obtain ⟨hbase, hback, -⟩ := hparts base (List.mem_singleton_self _)
    have hplain := hback.plain hunambiguous.1 hunambiguous.2
    have hmember := hplain.readsMember_attributed hwell
      (hbase.startsPlain hunambiguous.1 hunambiguous.2)
    exact ⟨fun hreads => hreads.readsBase rfl hnormal.starts.2, (fun h => by cases h),
      fun _ => hmember, hmember.reads⟩
  | composition members =>
    have hmembers : ∀ part ∈ members, ReadsMember nested part :=
      fun part hpart => (hparts part hpart).2.1.member (hunambiguous.1 part hpart)
    have hwhole := reads_composition hwell hunambiguous hmembers hstarts
    exact ⟨fun hreads => hreads.readsBase rfl hnormal.starts.2, (fun _ h => by cases h),
      (fun h => by cases h), hwhole⟩
  | function parameters result effects =>
    exact (readsPlain_function_of_parts hwell hparts).readsBack_function
      (hnormal.startsPlain rfl rfl)

end

/-- A normal type is read back if as many levels are followed as it has, and where types are nested,
one more. -/
theorem Normal.readsBack {found : SwiftType} (h : found.Normal) {depth : Nat}
    (hdepth : found.depth ≤ depth) : ReadsBack (typeWithin depth) found := by
  induction h generalizing depth with
  | @intro found hhere hinside ih =>
    obtain ⟨depth, rfl⟩ : ∃ d, depth = d + 1 := by
      have hpos := found.depth_eq
      exact ⟨depth - 1, by omega⟩
    refine readsBack_of_parts (.intro hhere hinside) fun part hpart => ?_
    have hlt := depth_lt_of_mem_parts hpart
    have hroom : part.depth ≤ depth := by omega
    exact ⟨hinside part hpart, ih part hpart (hroom.trans (Nat.le_succ _)),
      (ih part hpart hroom).whole⟩

/-- A whole text is read as a type by the parser of types. -/
theorem accepts_alone {p : Parser SwiftType} {text : List Char} {value : SwiftType}
    (h : p.Accepts text value []) :
    (p >>= fun found => skipSpaces >>= fun _ => endOfInput >>= fun _ => pure found).Accepts text
      value [] := by
  have hskip : skipSpaces.Accepts [] () [] :=
    skipSpaces_accepts (List.forall_mem_nil _) (stopsAt_nil _)
  have hend : endOfInput.Accepts [] () [] := fun _ => rfl
  exact h.bind_nil (hskip.bind_nil hend.bind_pure)

/-- A normal type is read from its spelling if more levels are followed than it has. -/
theorem Normal.typeWithin_accepts {found : SwiftType} (h : found.Normal) {depth : Nat}
    (hdepth : found.depth < depth) :
    (typeWithin depth).Accepts found.chars found.voidResults [] := by
  obtain ⟨depth, rfl⟩ := Nat.exists_eq_add_one_of_ne_zero (Nat.ne_zero_of_lt hdepth)
  have hwhole := (h.readsBack (Nat.le_of_lt_succ hdepth)).whole
  exact (hwhole [] [] ends_nil).tight

/-- A normal type, alone in a text, is read back. -/
theorem Normal.typeName_eq_ok {found : SwiftType} (h : found.Normal) :
    ∃ next, typeName (.start found.chars) = .ok found.voidResults next := by
  have hreads : type.Accepts found.chars found.voidResults [] := by
    intro offset
    have hroom : found.depth < max found.depth found.chars.length + 1 := by omega
    have hok := h.typeWithin_accepts hroom offset
    rw [← hok]
    refine ((typeWithin_agree_type (n := found.chars.length) ?_) _ ?_).1.symm
    · omega
    · rw [List.append_nil]
      exact Nat.le_refl _
  have hok := accepts_alone hreads 0
  rw [List.append_nil] at hok
  exact ⟨_, hok⟩

/-- A text is read if the levels that there is room for are enough to accept it. -/
theorem parse_eq_ok_of_accepts [CallStack] {text : String} {value : SwiftType}
    (h : (typeWithin CallStack.types).Accepts text.toList value []) : parse text = .ok value := by
  have hok : document.Accepts text.toList value [] := accepts_alone h
  have hstart := hok 0
  rw [List.append_nil] at hstart
  rw [parse, Cursor.start, hstart]

/-- However a normal type came to be written, it is read from its spelling. -/
theorem Normal.parse_eq [CallStack] {found : SwiftType} (h : found.Normal) {text : String}
    (htext : text.toList = found.chars) :
    parse text = .ok found.voidResults ∨
      CallStack.types ≤ found.depth ∧ parse text = .error (.stopped .tooDeep) := by
  by_cases hroom : found.depth < CallStack.types
  · exact .inl (parse_eq_ok_of_accepts (htext ▸ h.typeWithin_accepts hroom))
  · obtain ⟨next, hname⟩ := h.typeName_eq_ok
    rw [← htext] at hname
    exact (parse_of_typeName_eq_ok hname).imp_right fun hdeep => ⟨Nat.le_of_not_lt hroom, hdeep⟩

end TypeScribe.SwiftType
