import TypeScribe.Proofs.SwiftType.Normal

/-!
# What is read is well formed

Every type that is read is well formed at every depth (`everywhere_wellFormed_of_parse`). The proof
follows the rules, with what they require of the types nested in them as a hypothesis. The one thing
that a rule does not see by itself is that a nominal type does not start with a specifier: it stands
where no modifier could be read any more (`notMem_specifiers_of_modifier_failed`). So nothing that a
reader of the result may come across needs a check of its own: in particular, every nominal type has
a last segment to take generic arguments from (`wellFormed_of_occurs_in_parse`).
-/

namespace TypeScribe

namespace Parser

variable {α : Type}

/-- What every step of a repetition guarantees holds of all its values. -/
theorem many_forall {p : Parser α} [Forward p] {P : α → Prop}
    (hp : ∀ ⦃c next : Cursor⦄ ⦃value : α⦄, p c = .ok value next → P value)
    {c next : Cursor} {values : List α} (h : many p c = .ok values next) :
    ∀ value ∈ values, P value := by
  have hstep : ∀ ⦃c next : Cursor⦄ ⦃value : α⦄, p c = .ok value next →
      ∃ text, c.Reads text next ∧ P value := fun _ _ _ hok => by
    obtain ⟨text, hreads⟩ := Forward.reads hok
    exact ⟨text, hreads, hp hok⟩
  obtain ⟨texts, hall, -⟩ := many_reads hstep h
  clear h
  intro value hvalue
  induction hall with
  | nil => cases hvalue
  | cons hfirst _ ih =>
    rcases List.mem_cons.1 hvalue with rfl | hvalue
    · exact hfirst
    · exact ih hvalue

end Parser

namespace SwiftType.Grammar

open TypeScribe.Parser

theorem consumes_of_name {c next : Cursor} {value : String} (h : name c = .ok value next) :
    identifier.consumes value = true :=
  consumes_identifier_iff.2 (name_reads h)

/-- Where no modifier can be read, the next word is not a specifier. -/
theorem notMem_specifiers_of_modifier_failed {c next : Cursor} {word : String}
    (hname : name c = .ok word next) (hfailed : ∃ failure, modifier c = .failed failure) :
    word ∉ specifiers := by
  intro hmem
  obtain ⟨failure, hfailed⟩ := hfailed
  have hword : oneOf specifiers "specifier" c = .ok word next := by
    rw [oneOf, hname]
    simp [hmem]
  have hok : ∃ value last, modifier c = .ok value last := by
    cases hattribute : typeAttribute c with
    | ok value last => exact ⟨value, last, choice_of_firstOk (.head hattribute)⟩
    | failed failure => exact ⟨word, next, choice_of_firstOk (.tail hattribute (.head hword))⟩
    | stopped stop => exact absurd hattribute (Unstopped.ne_stopped c stop)
  obtain ⟨value, last, hok⟩ := hok
  rw [hok] at hfailed
  cases hfailed

/-- Modifiers are read until there is no more. -/
theorem modifiers_eq_ok {c next : Cursor} {values : List String}
    (h : modifiers c = .ok values next) :
    (∀ value ∈ values, IsModifier value) ∧ ∃ failure, modifier next = .failed failure :=
  ⟨many_forall (p := modifier) (fun _ _ _ => modifier_reads) h,
    (steps_of_many (p := modifier) (fun _ _ _ hok => Advances.reads hok) h).failed⟩

/-- The parts of the primary are well formed, whatever it turns out to be. -/
def Primary.WellFormed : Primary → Prop
  | .parens elements =>
    ∀ item ∈ elements, LabelWellFormed item ∧ Everywhere SwiftType.WellFormed item.type
  | .plain type => Everywhere SwiftType.WellFormed type

/-- As a type, a well-formed primary is well-formed. -/
theorem Primary.WellFormed.toType {base : Primary} (h : base.WellFormed) :
    Everywhere SwiftType.WellFormed base.toType := by
  unfold Primary.toType
  split
  · exact (h _ List.mem_cons_self).2
  · next elements hne =>
    refine .intro ⟨fun type heq => hne type heq, fun item hitem => (h item hitem).1⟩ ?_
    intro part hpart
    obtain ⟨item, hitem, rfl⟩ := List.mem_map.1 hpart
    exact (h item hitem).2
  · exact h

/-- As parameters too. -/
theorem Primary.WellFormed.toParameters {base : Primary} (h : base.WellFormed) :
    ∀ item ∈ base.toParameters,
      LabelWellFormed item ∧ Everywhere SwiftType.WellFormed item.type := by
  cases base with
  | parens elements => exact h
  | plain type =>
    simp only [Primary.toParameters, List.forall_mem_singleton]
    exact ⟨fun label hlabel => (by cases hlabel), h⟩

/-- A postfix keeps a type well-formed. -/
theorem applyPostfix_wellFormed {base : SwiftType} (h : Everywhere SwiftType.WellFormed base)
    (mark : String) : Everywhere SwiftType.WellFormed (applyPostfix base mark) := by
  have hpart : ∀ part ∈ [base], Everywhere SwiftType.WellFormed part := by simpa using h
  unfold applyPostfix
  split
  · exact .intro trivial hpart
  · exact .intro trivial hpart
  · exact .intro (.inr rfl) hpart
  · exact .intro (.inl rfl) hpart

/-- So do several of them. -/
theorem Primary.WellFormed.applyPostfixes {base : Primary} (h : base.WellFormed)
    (marks : List String) : (applyPostfixes base marks).WellFormed := by
  induction marks generalizing base with
  | nil => exact h
  | cons mark later ih =>
    have hmarked : Primary.WellFormed (.plain (applyPostfix base.toType mark)) :=
      applyPostfix_wellFormed h.toType mark
    exact ih hmarked

/-- What holds of each item that is read holds of all items of a list. -/
theorem separated_forall {α : Type} {item : Parser α} [Forward item] {P : α → Prop}
    (hitem : ∀ ⦃c next : Cursor⦄ ⦃value : α⦄, item c = .ok value next → P value)
    {c next : Cursor} {values : List α} (h : separated item c = .ok values next) :
    ∀ value ∈ values, P value := by
  obtain ⟨first, c₁, hfirst, h⟩ := bind_eq_ok h
  obtain ⟨later, c₂, hlater, h⟩ := bind_eq_ok h
  obtain ⟨rfl, rfl⟩ := pure_eq_ok h
  refine List.forall_mem_cons.2 ⟨hitem hfirst, many_forall (fun _ _ _ hok => ?_) hlater⟩
  obtain ⟨comma, c₃, -, hok⟩ := bind_eq_ok hok
  exact hitem hok

section
variable {type : Parser SwiftType}
  (htype : ∀ ⦃c next : Cursor⦄ ⦃value : SwiftType⦄, type c = .ok value next →
    Everywhere SwiftType.WellFormed value)
include htype

/-- What is read as an element has a label that may be one and a well-formed type. -/
theorem element_wellFormed {c next : Cursor} {item : TypeElement SwiftType}
    (h : element type c = .ok item next) :
    LabelWellFormed item ∧ Everywhere SwiftType.WellFormed item.type := by
  obtain ⟨label, c₁, hlabel, h⟩ := bind_eq_ok h
  obtain ⟨found, c₂, hfound, h⟩ := bind_eq_ok h
  obtain ⟨dots, c₃, -, h⟩ := bind_eq_ok h
  obtain ⟨rfl, rfl⟩ := pure_eq_ok h
  refine ⟨fun word hword => ?_, htype hfound⟩
  obtain rfl : label = some word := hword
  rcases option?_eq_ok hlabel with ⟨value, heq, hlabel⟩ | ⟨heq, -, -⟩
  · obtain rfl := Option.some.inj heq
    obtain ⟨value, c₄, hname, hlabel⟩ := bind_eq_ok hlabel
    obtain ⟨colon, c₅, -, hlabel⟩ := bind_eq_ok hlabel
    obtain ⟨rfl, rfl⟩ := pure_eq_ok hlabel
    exact consumes_of_name hname
  · cases heq

/-- What is read between brackets is well-formed. -/
theorem collection_wellFormed {c next : Cursor} {value : SwiftType}
    (h : collection type c = .ok value next) : Everywhere SwiftType.WellFormed value := by
  obtain ⟨opening, c₁, -, h⟩ := bind_eq_ok h
  obtain ⟨first, c₂, hfirst, h⟩ := bind_eq_ok h
  obtain ⟨second, c₃, hsecond, h⟩ := bind_eq_ok h
  obtain ⟨closing, c₄, -, h⟩ := bind_eq_ok h
  obtain ⟨rfl, rfl⟩ := pure_eq_ok h
  rcases option?_eq_ok hsecond with ⟨found, rfl, hvalue⟩ | ⟨rfl, -, -⟩
  · obtain ⟨colon, c₅, -, hvalue⟩ := bind_eq_ok hvalue
    refine .intro trivial ?_
    simpa [parts] using ⟨htype hfirst, htype hvalue⟩
  · refine .intro trivial ?_
    simpa [parts] using htype hfirst

variable [Forward type]

/-- What is read between parentheses is well-formed. -/
theorem parenList_wellFormed {c next : Cursor} {base : Primary}
    (h : parenList type c = .ok base next) : base.WellFormed := by
  obtain ⟨opening, c₁, -, h⟩ := bind_eq_ok h
  obtain ⟨elements, c₂, helements, h⟩ := bind_eq_ok h
  obtain ⟨closing, c₃, -, h⟩ := bind_eq_ok h
  obtain ⟨rfl, rfl⟩ := pure_eq_ok h
  rcases option_eq_ok helements with helements | ⟨rfl, -⟩
  · exact separated_forall (fun _ _ _ hok => element_wellFormed htype hok) helements
  · exact List.forall_mem_nil _

/-- What is read as a part of a name has a name and well-formed arguments. -/
theorem segment_wellFormed {c next : Cursor} {part : TypeSegment SwiftType}
    (h : segment type c = .ok part next) :
    (∃ mid, name c = .ok part.name mid) ∧
      ∀ argument ∈ part.arguments, Everywhere SwiftType.WellFormed argument := by
  obtain ⟨title, c₁, htitle, h⟩ := bind_eq_ok h
  obtain ⟨arguments, c₂, harguments, h⟩ := bind_eq_ok h
  obtain ⟨rfl, rfl⟩ := pure_eq_ok h
  refine ⟨⟨c₁, htitle⟩, ?_⟩
  rcases option_eq_ok harguments with harguments | ⟨rfl, -⟩
  · obtain ⟨opening, c₃, -, harguments⟩ := bind_eq_ok harguments
    obtain ⟨found, c₄, hfound, harguments⟩ := bind_eq_ok harguments
    obtain ⟨closing, c₅, -, harguments⟩ := bind_eq_ok harguments
    obtain ⟨rfl, rfl⟩ := pure_eq_ok harguments
    exact separated_forall htype hfound
  · exact List.forall_mem_nil _

/-- What is read as a nominal type is well-formed where no modifier stands, for its first name is
then no specifier. -/
theorem nominal_wellFormed {c next : Cursor} {value : SwiftType}
    (hstart : ∃ failure, modifier c = .failed failure) (h : nominal type c = .ok value next) :
    Everywhere SwiftType.WellFormed value := by
  obtain ⟨first, c₁, hfirst, h⟩ := bind_eq_ok h
  obtain ⟨later, c₂, hlater, h⟩ := bind_eq_ok h
  obtain ⟨rfl, rfl⟩ := pure_eq_ok h
  obtain ⟨⟨mid, hname⟩, harguments⟩ := segment_wellFormed htype hfirst
  have hsegments : ∀ part ∈ first :: later, identifier.consumes part.name = true ∧
      ∀ argument ∈ part.arguments, Everywhere SwiftType.WellFormed argument := by
    refine List.forall_mem_cons.2 ⟨⟨consumes_of_name hname, harguments⟩, ?_⟩
    refine many_forall (fun _ _ _ hok => ?_) hlater
    obtain ⟨dot, c₃, -, hok⟩ := bind_eq_ok hok
    obtain ⟨⟨mid, hname⟩, harguments⟩ := segment_wellFormed htype hok
    exact ⟨consumes_of_name hname, harguments⟩
  refine .intro ⟨List.cons_ne_nil _ _, fun part hpart => (hsegments part hpart).1, ?_⟩ ?_
  · intro part hpart
    obtain rfl := Option.some.inj hpart
    exact notMem_specifiers_of_modifier_failed hname hstart
  · intro argument hargument
    obtain ⟨part, hpart, hmem⟩ := List.mem_flatMap.1 hargument
    exact (hsegments part hpart).2 argument hmem

/-- What is read as a primary is well-formed where no modifier stands. -/
theorem primary_wellFormed {c next : Cursor} {base : Primary}
    (hstart : ∃ failure, modifier c = .failed failure) (h : primary type c = .ok base next) :
    base.WellFormed := by
  refine choice_eq_ok_of_forall h ?_
  simp only [List.forall_mem_cons, List.not_mem_nil, false_imp_iff, implies_true, and_true]
  refine ⟨parenList_wellFormed htype, fun hok => ?_, fun hok => ?_⟩
  · obtain ⟨found, hfound, rfl⟩ := map_eq_ok hok
    exact collection_wellFormed htype hfound
  · obtain ⟨found, hfound, rfl⟩ := map_eq_ok hok
    exact nominal_wellFormed htype hstart hfound

/-- A function type or a type with postfixes is well-formed if the types nested in it are. -/
theorem functionOrPrimary_wellFormed {c next : Cursor} {value : SwiftType}
    (hstart : ∃ failure, modifier c = .failed failure)
    (h : functionOrPrimary type c = .ok value next) : Everywhere SwiftType.WellFormed value := by
  obtain ⟨base, c₁, hbase, h⟩ := bind_eq_ok h
  obtain ⟨marks, c₂, -, h⟩ := bind_eq_ok h
  obtain ⟨tail, c₃, htail, h⟩ := bind_eq_ok h
  obtain ⟨rfl, rfl⟩ := pure_eq_ok h
  have hbase := (primary_wellFormed htype hstart hbase).applyPostfixes marks
  rcases option?_eq_ok htail with ⟨⟨effects, result⟩, rfl, harrow⟩ | ⟨rfl, -, -⟩
  · obtain ⟨found, c₄, heffects, harrow⟩ := bind_eq_ok harrow
    obtain ⟨arrow, c₅, -, harrow⟩ := bind_eq_ok harrow
    obtain ⟨target, c₆, hresult, harrow⟩ := bind_eq_ok harrow
    obtain ⟨heq, rfl⟩ := pure_eq_ok harrow
    cases heq
    refine .intro ⟨fun item hitem => (hbase.toParameters item hitem).1, ?_⟩ fun part hpart => ?_
    · exact many_forall (p := oneOf Grammar.effects "effect")
        (fun _ _ _ hok => (oneOf_eq_ok hok).2) heffects
    · rcases List.mem_append.1 hpart with hpart | hpart
      · obtain ⟨item, hitem, rfl⟩ := List.mem_map.1 hpart
        exact (hbase.toParameters item hitem).2
      · rw [List.mem_singleton.1 hpart]
        exact htype hresult
  · exact hbase.toType

/-- What is read as a member is well-formed: its modifiers are read before its base. -/
theorem member_wellFormed {c next : Cursor} {value : SwiftType}
    (h : member type c = .ok value next) : Everywhere SwiftType.WellFormed value := by
  obtain ⟨attributes, c₁, hattributes, h⟩ := bind_eq_ok h
  obtain ⟨base, c₂, hbase, h⟩ := bind_eq_ok h
  obtain ⟨rfl, rfl⟩ := pure_eq_ok h
  obtain ⟨hmodifiers, hstart⟩ := modifiers_eq_ok hattributes
  have hbase := functionOrPrimary_wellFormed htype hstart hbase
  split
  · exact hbase
  · next hne =>
    exact .intro ⟨by simpa using hne, hmodifiers⟩ (by simpa [parts] using hbase)

/-- What is read as a type is well-formed. -/
theorem typeOf_wellFormed {c next : Cursor} {value : SwiftType}
    (h : typeOf type c = .ok value next) : Everywhere SwiftType.WellFormed value := by
  obtain ⟨first, c₁, hfirst, h⟩ := bind_eq_ok h
  obtain ⟨later, c₂, hlater, h⟩ := bind_eq_ok h
  obtain ⟨rfl, rfl⟩ := pure_eq_ok h
  have hfirst := member_wellFormed htype hfirst
  have hlater : ∀ part ∈ later, Everywhere SwiftType.WellFormed part := by
    refine many_forall (fun _ _ _ hok => ?_) hlater
    obtain ⟨mark, c₃, -, hok⟩ := bind_eq_ok hok
    exact member_wellFormed htype hok
  split
  · exact hfirst
  · next hne =>
    refine .intro ?_ (List.forall_mem_cons.2 ⟨hfirst, hlater⟩)
    obtain ⟨second, later, rfl⟩ := List.exists_cons_of_ne_nil (by simpa using hne : later ≠ [])
    exact Nat.le_add_left 2 later.length

end

/-- It is so however deep types are followed. -/
theorem typeWithin_wellFormed {depth : Nat} {c next : Cursor} {value : SwiftType}
    (h : typeWithin depth c = .ok value next) : Everywhere SwiftType.WellFormed value := by
  induction depth generalizing c next value with
  | zero => cases h
  | succ depth ih => exact typeOf_wellFormed (fun _ _ _ hok => ih hok) h

end SwiftType.Grammar

open TypeScribe.SwiftType.Grammar in
/-- A type that is read from a type name is well formed at every depth. -/
theorem SwiftType.everywhere_wellFormed_of_parse [CallStack] {text : String} {value : SwiftType}
    (h : SwiftType.parse text = .ok value) : SwiftType.Everywhere SwiftType.WellFormed value := by
  obtain ⟨next, hname⟩ := SwiftType.typeName_eq_ok_of_parse h
  obtain ⟨found, c₁, hfound, hname⟩ := Parser.bind_eq_ok hname
  obtain ⟨_, c₂, -, hname⟩ := Parser.bind_eq_ok hname
  obtain ⟨_, c₃, -, hname⟩ := Parser.bind_eq_ok hname
  obtain ⟨rfl, rfl⟩ := Parser.pure_eq_ok hname
  exact typeWithin_wellFormed hfound

namespace SwiftType

/-- What can be seen of the type that is read from a text is seen of one that was read from it. -/
theorem exists_of_map_parse [CallStack] {α : Type} {text : String} {f : SwiftType → α} {seen : α}
    (h : (parse text).toOption.map f = some seen) :
    ∃ found, parse text = .ok found ∧ f found = seen := by
  cases hparse : parse text with
  | error failure => rw [hparse] at h; cases h
  | ok found =>
    rw [hparse] at h
    exact ⟨found, rfl, Option.some.inj h⟩

/-- The generic arguments of a nominal type with a segment are those of its last segment. -/
theorem WellFormed.exists_genericArguments {segments : List (TypeSegment SwiftType)}
    (h : WellFormed (.nominal segments)) :
    ∃ last ∈ segments.getLast?, genericArguments (.nominal segments) = last.arguments := by
  have hlast := List.getLast?_eq_some_getLast h.1
  exact ⟨_, hlast, by rw [genericArguments, hlast]; rfl⟩

/-- Whatever occurs in a type that was read is well formed; a nominal type there has a last segment,
and its generic arguments are the arguments of that segment. -/
theorem wellFormed_of_occurs_in_parse [CallStack] {text : String} {type below : SwiftType}
    (h : parse text = .ok type) (hbelow : Occurs below type) :
    below.WellFormed ∧ ∀ segments, below = .nominal segments →
      ∃ last ∈ segments.getLast?, below.genericArguments = last.arguments := by
  have hwell := (everywhere_wellFormed_of_parse h).of_occurs hbelow
  refine ⟨hwell, ?_⟩
  rintro segments rfl
  exact hwell.exists_genericArguments

/-- In a function type whose result is read as a list in parentheses before it becomes a metatype:
the nominal type behind the specifier of its parameter. -/
theorem wellFormed_in_parameter :
    letI := CallStack.uniform 5
    ∃ type segments, parse "(inout A.B<C>) throws -> (P & Q).Type" = .ok type ∧
      Occurs (.nominal segments) type ∧ render (.nominal segments) = "A.B<C>" ∧
      WellFormed (.nominal segments) ∧
      ∃ last ∈ segments.getLast?, genericArguments (.nominal segments) = last.arguments := by
  let _ := CallStack.uniform 5
  have hseen : (parse "(inout A.B<C>) throws -> (P & Q).Type").toOption.map (fun type =>
      (type.parts.flatMap parts).any fun below => below.isNominal && below.render == "A.B<C>") =
        some true := by decide +kernel
  obtain ⟨type, hparse, hany⟩ := exists_of_map_parse hseen
  obtain ⟨below, hmem, hbelow⟩ := List.any_eq_true.1 hany
  obtain ⟨part, hpart, hinside⟩ := List.mem_flatMap.1 hmem
  have hoccurs : Occurs below type := .inside hpart (.inside hinside .here)
  obtain ⟨hnominal, hrender⟩ := Bool.and_eq_true_iff.1 hbelow
  obtain ⟨hwell, hlast⟩ := wellFormed_of_occurs_in_parse hparse hoccurs
  cases below with
  | nominal segments =>
    exact ⟨type, segments, hparse, hoccurs, beq_iff_eq.1 hrender, hwell, hlast segments rfl⟩
  | _ => cases hnominal

end SwiftType

end TypeScribe
