import TypeScribe.SwiftType.Grammar
import TypeScribe.Proofs.Parser.Levels

/-!
# The nesting of types

A type nested in another one starts after it (`typeOf_agree`), so on a text of `n` characters types
nest at most `n + 1` deep, and there is one parser `type` that reads what is nested in a type by
itself (`type_eq`). The call stack can only cut it short: a text with fewer characters than there is
room for types is never too deep, and any other is either too deep or read as `typeName` reads it
(`parse_cases`).
-/

namespace TypeScribe.SwiftType.Grammar

open TypeScribe.Parser

/-! ## Parts without nesting -/

section
variable {stops : Stop → Prop}

instance : Avoids stops name := by
  unfold name
  infer_instance

instance (words : List String) (expected : String) : Avoids stops (oneOf words expected) where
  ne_stopped c stop hstop := by
    unfold oneOf
    split
    · split <;> simp
    · exact Avoids.ne_stopped c stop hstop

instance : Avoids stops attributeArguments := by
  unfold attributeArguments
  infer_instance

instance : Avoids stops typeAttribute := by
  unfold typeAttribute
  infer_instance

end

instance : Advances name := Advances.after fun _ => inferInstance

/-- One of several words is a name that is among them. -/
theorem oneOf_eq_ok {words : List String} {expected value : String} {c next : Cursor}
    (h : oneOf words expected c = .ok value next) : name c = .ok value next ∧ value ∈ words := by
  unfold oneOf at h
  split at h
  · next word mid hname =>
    split at h
    · next hmem =>
      cases h
      exact ⟨hname, by simpa using hmem⟩
    · cases h
  · next hname => exact absurd h (hname value next)

instance (words : List String) (expected : String) : Advances (oneOf words expected) where
  reads _ _ _ h := Advances.reads (oneOf_eq_ok h).1

instance : Forward attributeArguments := by
  unfold attributeArguments
  infer_instance

instance : Advances typeAttribute := by
  have := advances_token "@" (by decide)
  exact Advances.after fun _ => Advances.bind

/-- What stands before a type is a run of these. -/
def modifier : Parser String := choice [typeAttribute, oneOf specifiers "specifier"]

instance : Advances modifier := advances_choice (by
  simp only [List.forall_mem_cons, List.not_mem_nil, false_imp_iff, implies_true, and_true]
  exact ⟨inferInstance, inferInstance⟩)

instance : Forward modifiers := inferInstanceAs (Forward (many modifier))

theorem forall_mem_postfixMarks {P : Parser String → Prop} :
    (∀ p ∈ [token "?", token "!", token ".Type", token ".Protocol"], P p) ↔
      P (token "?") ∧ P (token "!") ∧ P (token ".Type") ∧ P (token ".Protocol") := by
  simp only [List.forall_mem_cons, List.not_mem_nil, false_imp_iff, implies_true, and_true]

instance : Advances postfixMark := advances_choice (forall_mem_postfixMarks.2
  ⟨advances_token "?" (by decide), advances_token "!" (by decide),
    advances_token ".Type" (by decide), advances_token ".Protocol" (by decide)⟩)

instance : Forward elementLabel := by
  unfold elementLabel
  infer_instance

section
variable {stops : Stop → Prop}

instance : Avoids stops modifier := avoids_choice (by
  simp only [List.forall_mem_cons, List.not_mem_nil, false_imp_iff, implies_true, and_true]
  exact ⟨inferInstance, inferInstance⟩)

instance : Avoids stops modifiers := inferInstanceAs (Avoids stops (many modifier))

instance : Avoids stops postfixMark := avoids_choice (forall_mem_postfixMarks.2
  ⟨inferInstance, inferInstance, inferInstance, inferInstance⟩)

instance : Avoids stops elementLabel := by
  unfold elementLabel
  infer_instance

end

/-! ## Rules go forward -/

section
variable {α : Type} (item : Parser α) [Forward item] (type : Parser SwiftType) [Forward type]

instance : Forward (separated item) := by
  unfold separated
  infer_instance

instance : Forward (element type) := by
  unfold element
  infer_instance

instance : Forward (parenList type) := by
  unfold parenList
  infer_instance

instance : Forward (collection type) := by
  unfold collection
  infer_instance

instance : Forward (genericArguments type) := by
  unfold genericArguments
  infer_instance

instance : Forward (segment type) := by
  unfold segment
  infer_instance

instance : Forward (nominal type) := by
  unfold nominal
  infer_instance

instance : Forward (primary type) := forward_choice (by
  simp only [List.forall_mem_cons, List.not_mem_nil, false_imp_iff, implies_true, and_true]
  exact ⟨inferInstance, inferInstance, inferInstance⟩)

instance : Forward (arrow type) := by
  unfold arrow
  infer_instance

instance : Forward (functionOrPrimary type) := by
  unfold functionOrPrimary
  infer_instance

instance : Forward (member type) := by
  unfold member
  infer_instance

instance : Forward (typeOf type) := by
  unfold typeOf
  infer_instance

end

/-! ## Rules are stopped only as what is nested is -/

section
variable {stops : Stop → Prop} {α : Type} (item : Parser α) [Avoids stops item]
  (type : Parser SwiftType) [Avoids stops type]

instance : Avoids stops (separated item) := by
  unfold separated
  infer_instance

instance : Avoids stops (element type) := by
  unfold element
  infer_instance

instance : Avoids stops (parenList type) := by
  unfold parenList
  infer_instance

instance : Avoids stops (collection type) := by
  unfold collection
  infer_instance

instance : Avoids stops (genericArguments type) := by
  unfold genericArguments
  infer_instance

instance : Avoids stops (segment type) := by
  unfold segment
  infer_instance

instance : Avoids stops (nominal type) := by
  unfold nominal
  infer_instance

instance : Avoids stops (primary type) := avoids_choice (by
  simp only [List.forall_mem_cons, List.not_mem_nil, false_imp_iff, implies_true, and_true]
  exact ⟨inferInstance, inferInstance, inferInstance⟩)

instance : Avoids stops (arrow type) := by
  unfold arrow
  infer_instance

instance : Avoids stops (functionOrPrimary type) := by
  unfold functionOrPrimary
  infer_instance

instance : Avoids stops (member type) := by
  unfold member
  infer_instance

instance : Avoids stops (typeOf type) := by
  unfold typeOf
  infer_instance

end

/-- A type is read from a stretch of the text, however deep types are followed. -/
theorem forward_typeWithin (depth : Nat) : Forward (typeWithin depth) := by
  induction depth with
  | zero => exact ⟨fun c next value h => by cases h⟩
  | succ depth ih => exact inferInstanceAs (Forward (typeOf (typeWithin depth)))

instance (depth : Nat) : Forward (typeWithin depth) := forward_typeWithin depth

/-- A type is stopped only where it nests too deep. -/
theorem typeWithin_avoids (depth : Nat) : Avoids (· ≠ .tooDeep) (typeWithin depth) := by
  induction depth with
  | zero =>
    refine ⟨fun c stop hstop h => hstop ?_⟩
    cases h
    rfl
  | succ depth ih => exact inferInstanceAs (Avoids _ (typeOf (typeWithin depth)))

/-! ## Rules agree when what is nested agrees -/

section
variable {places : Cursor → Prop} {p q : Parser SwiftType} [Forward p]

/-- Items agree in a list if they agree alone. -/
theorem separated_agree [Onward places] {α : Type} {item item' : Parser α} [Forward item]
    (h : AgreeOn places item item') : AgreeOn places (separated item) (separated item') := by
  refine .bind h fun _ => .bind (.many ?_) fun _ => .refl _
  exact .bind (.refl _) fun _ => h

theorem element_agree [Onward places] (h : AgreeOn places p q) :
    AgreeOn places (element p) (element q) := by
  refine .bind (.refl _) fun _ => .bind h fun _ => .refl _

/-- Behind its parenthesis a list agrees where the types nested in it do. -/
theorem parenList_agree (h : AgreeOn (Beyond places) p q) :
    AgreeOn places (parenList p) (parenList q) := by
  have := advances_symbol "(" (by decide)
  refine .bind_of_advances fun _ => ?_
  exact .bind ((separated_agree (element_agree h)).option []) fun _ => .refl _

/-- Behind its bracket so does a collection. -/
theorem collection_agree (h : AgreeOn (Beyond places) p q) :
    AgreeOn places (collection p) (collection q) := by
  have := advances_symbol "[" (by decide)
  refine .bind_of_advances fun _ => .bind h fun _ => .bind ?_ fun _ => .refl _
  exact (AgreeOn.bind (.refl _) fun _ => h).option?

/-- And so do generic arguments. -/
theorem genericArguments_agree (h : AgreeOn (Beyond places) p q) :
    AgreeOn places (genericArguments p) (genericArguments q) := by
  have := advances_symbol "<" (by decide)
  exact .bind_of_advances fun _ => .bind (separated_agree h) fun _ => .refl _

variable [Onward places]

theorem segment_agree (h : AgreeOn (Beyond places) p q) :
    AgreeOn places (segment p) (segment q) :=
  .bind (.refl _) fun _ => .bind ((genericArguments_agree h).option []) fun _ => .refl _

/-- A nominal type agrees where its arguments do, which stand behind its first name. -/
theorem nominal_agree (h : AgreeOn (Beyond places) p q) :
    AgreeOn places (nominal p) (nominal q) := by
  refine .bind (segment_agree h) fun _ => .bind (.many ?_) fun _ => .refl _
  exact .bind (.refl _) fun _ => segment_agree h

theorem primary_agree (h : AgreeOn (Beyond places) p q) : AgreeOn places (primary p) (primary q) :=
  .choice (.cons (parenList_agree h) (.cons ((collection_agree h).map _)
    (.cons ((nominal_agree h).map _) .nil)))

/-- What follows an arrow stands behind it. -/
theorem arrow_agree (h : AgreeOn (Beyond places) p q) : AgreeOn places (arrow p) (arrow q) := by
  have := advances_symbol "->" (by decide)
  refine .bind (.refl _) fun _ => ?_
  exact .bind_of_advances fun _ => .bind h fun _ => .refl _

/-- A function type or one with postfixes agrees where what is nested in it does. -/
theorem functionOrPrimary_agree (h : AgreeOn (Beyond places) p q) :
    AgreeOn places (functionOrPrimary p) (functionOrPrimary q) := by
  refine .bind (primary_agree h) fun _ => .bind (.refl _) fun _ => ?_
  exact .bind (arrow_agree h).option? fun _ => .refl _

theorem member_agree (h : AgreeOn (Beyond places) p q) : AgreeOn places (member p) (member q) :=
  .bind (.refl _) fun _ => .bind (functionOrPrimary_agree h) fun _ => .refl _

/-- Where a type starts, the parser of nested types is only used further on. -/
theorem typeOf_agree (h : AgreeOn (Beyond places) p q) : AgreeOn places (typeOf p) (typeOf q) := by
  refine .bind (member_agree h) fun _ => .bind (.many ?_) fun _ => .refl _
  exact .bind (.refl _) fun _ => member_agree h

end

/-! ## Rules follow what is nested -/

section
variable {p q : Parser SwiftType}

/-- A list is read the same way with fewer levels, or it is too deep. -/
theorem separated_refines {α : Type} {item item' : Parser α} (h : Refines item item') :
    Refines (separated item) (separated item') := by
  refine .bind h fun _ => .bind (.many ?_) fun _ => .refl _
  exact .bind (.refl _) fun _ => h

theorem element_refines (h : Refines p q) : Refines (element p) (element q) :=
  .bind (.refl _) fun _ => .bind h fun _ => .refl _

theorem parenList_refines (h : Refines p q) : Refines (parenList p) (parenList q) :=
  .bind (.refl _) fun _ => .bind ((separated_refines (element_refines h)).option []) fun _ =>
    .refl _

theorem collection_refines (h : Refines p q) : Refines (collection p) (collection q) := by
  refine .bind (.refl _) fun _ => .bind h fun _ => .bind ?_ fun _ => .refl _
  exact (Refines.bind (.refl _) fun _ => h).option?

theorem genericArguments_refines (h : Refines p q) :
    Refines (genericArguments p) (genericArguments q) :=
  .bind (.refl _) fun _ => .bind (separated_refines h) fun _ => .refl _

theorem segment_refines (h : Refines p q) : Refines (segment p) (segment q) :=
  .bind (.refl _) fun _ => .bind ((genericArguments_refines h).option []) fun _ => .refl _

theorem nominal_refines (h : Refines p q) : Refines (nominal p) (nominal q) := by
  refine .bind (segment_refines h) fun _ => .bind (.many ?_) fun _ => .refl _
  exact .bind (.refl _) fun _ => segment_refines h

theorem primary_refines (h : Refines p q) : Refines (primary p) (primary q) :=
  .choice (.cons (parenList_refines h) (.cons ((collection_refines h).map _)
    (.cons ((nominal_refines h).map _) .nil)))

theorem arrow_refines (h : Refines p q) : Refines (arrow p) (arrow q) :=
  .bind (.refl _) fun _ => .bind (.refl _) fun _ => .bind h fun _ => .refl _

/-- So is a function type or one with postfixes. -/
theorem functionOrPrimary_refines (h : Refines p q) :
    Refines (functionOrPrimary p) (functionOrPrimary q) := by
  refine .bind (primary_refines h) fun _ => .bind (.refl _) fun _ => ?_
  exact .bind (arrow_refines h).option? fun _ => .refl _

theorem member_refines (h : Refines p q) : Refines (member p) (member q) :=
  .bind (.refl _) fun _ => .bind (functionOrPrimary_refines h) fun _ => .refl _

/-- Where the types nested in a type are followed less deep, so is the type. -/
theorem typeOf_refines (h : Refines p q) : Refines (typeOf p) (typeOf q) := by
  refine .bind (member_refines h) fun _ => .bind (.many ?_) fun _ => .refl _
  exact .bind (.refl _) fun _ => member_refines h

end

/-- A type nests only types that start after it. -/
theorem unrolls_typeWithin : Unrolls typeOf typeWithin where
  contracts _ _ _ _ _ := typeOf_agree
  forward := forward_typeWithin
  succ _ := rfl

/-! ## One parser for all levels -/

/-- A type, nested to any depth. -/
def type : Parser SwiftType := atAnyDepth typeWithin

/-- More levels than characters are as good as any number of them. -/
theorem typeWithin_agree_type {n depth : Nat} (h : n < depth) :
    AgreeOn (AtMost n) (typeWithin depth) type :=
  unrolls_typeWithin.agree_atAnyDepth h

/-- The types nested in a type are read by the parser itself. -/
theorem type_eq : type = typeOf type := unrolls_typeWithin.atAnyDepth_eq

theorem typeWithin_refines_type (depth : Nat) : Refines (typeWithin depth) type :=
  unrolls_typeWithin.refines_atAnyDepth (fun _ => rfl) (fun _ _ => typeOf_refines) depth

/-- Nested to any depth, a type is never stopped. -/
instance {stops : Stop → Prop} : Avoids stops type where
  ne_stopped c stop _ := by
    by_cases hstop : stop = .tooDeep
    · exact unrolls_typeWithin.shallow_atAnyDepth.ne_stopped c stop hstop
    · exact (typeWithin_avoids _).ne_stopped c stop hstop

/-- A whole type name, nested to any depth. -/
def typeName : Parser SwiftType := do
  let found ← type
  skipSpaces
  endOfInput
  return found

instance {stops : Stop → Prop} : Avoids stops typeName := by
  unfold typeName
  infer_instance

theorem document_refines [CallStack] : Refines document typeName :=
  .bind (typeWithin_refines_type CallStack.types) fun _ => .refl _

theorem document_agree [CallStack] {n : Nat} (h : n < CallStack.types) :
    AgreeOn (AtMost n) document typeName :=
  .bind (typeWithin_agree_type h) fun _ => .refl _

end Grammar

open TypeScribe.SwiftType.Grammar

/-- A type name is read or refused as the unlimited rule does it; or it is too deep, which takes at
least as many characters as there is room for types. -/
theorem parse_cases [CallStack] (text : String) :
    (∃ type next, typeName (.start text.toList) = .ok type next ∧ parse text = .ok type) ∨
    (∃ failure, typeName (.start text.toList) = .failed failure ∧
      parse text = .error (.unexpected failure)) ∨
    CallStack.types ≤ text.length ∧ parse text = .error (.stopped .tooDeep) := by
  unfold parse
  rcases document_refines (.start text.toList) with hdeep | heq
  · refine .inr (.inr ⟨?_, by rw [hdeep]⟩)
    by_contra! hshort
    refine (document_agree hshort (.start text.toList) ?_).2 hdeep
    exact String.length_toList.le
  · rw [heq]
    cases hreply : typeName (.start text.toList) with
    | ok type next => exact .inl ⟨type, next, rfl, rfl⟩
    | failed failure => exact .inr (.inl ⟨failure, rfl, rfl⟩)
    | stopped stop => exact absurd hreply (Parser.Unstopped.ne_stopped _ stop)

/-- A text that is read is a type name at any depth. -/
theorem typeName_eq_ok_of_parse [CallStack] {text : String} {value : SwiftType}
    (h : parse text = .ok value) : ∃ next, typeName (.start text.toList) = .ok value next := by
  rcases parse_cases text with ⟨type, next, hname, hparse⟩ | ⟨_, -, hparse⟩ | ⟨-, hparse⟩ <;>
    cases hparse.symm.trans h
  exact ⟨next, hname⟩

/-- A type name that the unlimited rule reads is read, or it is too deep. -/
theorem parse_of_typeName_eq_ok [CallStack] {text : String} {value : SwiftType} {next : Cursor}
    (h : typeName (.start text.toList) = .ok value next) :
    parse text = .ok value ∨ parse text = .error (.stopped .tooDeep) := by
  rcases parse_cases text with ⟨type, next, hname, hparse⟩ | ⟨_, hname, -⟩ | ⟨-, hparse⟩
  · cases hname.symm.trans h
    exact .inl hparse
  · cases hname.symm.trans h
  · exact .inr hparse

end TypeScribe.SwiftType
