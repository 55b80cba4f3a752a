import TypeScribe.Proofs.Annotate.Idempotence
import TypeScribe.Proofs.SwiftType.Parts

/-!
# The signature that is written into a closure

A closure gets up to two edits, one for its parameter clause and one for what follows its effects,
and the two may meet at one place. `closureEdits_write_signature` says how the file reads
afterwards: outside the signature it is as it was, the clause is the one that was written or holds
one piece for each parameter (`ClosureSite.ClauseReads`), and behind the effects stand the recorded
effects and the result (`ClosureSite.arrowText`). Where nothing but names was written, clause and
arrow together are the spelling of the recorded function type with these names as its labels.
-/

namespace TypeScribe

open Dump Logged Plan SwiftType

/-! ## Edits that are listed in order -/

namespace Edit

/-- Edits that fit a file one after another are in order. -/
theorem Fits.sort_eq {size : Nat} {edits : List Edit} (h : Fits size edits) :
    sort edits = edits := by
  rw [sort_eq_insertionSort]
  refine List.Pairwise.insertionSort_eq (List.Pairwise.imp_of_mem ?_ h.apart)
  intro a b ha hb hbefore
  obtain ⟨-, hle, -⟩ := h.inRange a ha
  obtain ⟨-, hle', -⟩ := h.inRange b hb
  have hbefore : a.stop ≤ b.start := hbefore
  rw [le_iff]
  omega

/-- Edits that fit into the text are applied by one splice from the left. -/
theorem Fits.applyAll_eq {bytes : List UInt8} {edits : List Edit} (h : Fits bytes.length edits) :
    applyAll edits bytes = .ok (spliceFrom 0 bytes edits) := by
  rw [applyAll_eq_ok_iff, h.sort_eq]
  exact ⟨h, rfl⟩

end Edit

/-- A stretch, and what follows it. -/
theorem Text.byteSlice_append_drop (bytes : List UInt8) {a b : Nat} (h : a ≤ b) :
    Text.byteSlice bytes a b ++ bytes.drop b = bytes.drop a := by
  have hdrop : bytes.drop b = (bytes.drop a).drop (b - a) := by
    rw [List.drop_drop, Nat.add_sub_cancel' h]
  rw [Text.byteSlice, hdrop, List.take_append_drop]

/-! ## What is recorded -/

/-- The type is recorded for the closure at the point. -/
def ClosureRecorded [CallStack] (root : Node) (point : Point) (type : SwiftType) : Prop :=
  ∃ node text, closureNode? root point = some node ∧ node.type = some text ∧
    SwiftType.parse text = .ok type

/-- The elements that so many parameters of a closure stand for: the parameters of the recorded
function, or the elements of the one tuple that it takes. -/
inductive StandFor (count : Nat) :
    List (TypeElement SwiftType) → List (TypeElement SwiftType) → Prop
  | each {elements : List (TypeElement SwiftType)} :
      elements.length = count → StandFor count elements elements
  | spread {label : Option String} {inner : List (TypeElement SwiftType)} {variadic : Bool} :
      1 < count → inner.length = count →
      StandFor count [⟨label, .tuple inner, variadic⟩]
        (inner.map fun element => { element with label := none })

/-- As many elements stand for the parameters as there are parameters. -/
theorem StandFor.length_eq {count : Nat} {recorded elements : List (TypeElement SwiftType)}
    (h : StandFor count recorded elements) : elements.length = count := by
  cases h with
  | each hlength => exact hlength
  | spread _ hlength => rw [List.length_map, hlength]

/-- Elements that are matched with the parameters stand for them. -/
theorem standFor_of_matchParameters? {parameters : List ClosureParameter}
    {recorded elements : List (TypeElement SwiftType)}
    (h : matchParameters? parameters recorded = some elements) :
    StandFor parameters.length recorded elements := by
  unfold matchParameters? at h
  split at h
  · next hlength =>
    cases h
    exact .each hlength.symm
  · split at h
    · split at h
      · next hspread =>
        cases h
        rw [Bool.and_eq_true, decide_eq_true_eq, beq_iff_eq] at hspread
        exact .spread hspread.1 hspread.2
      · cases h
    · cases h

/-! ## What is written -/

/-- A parameter that stays as it is written: it has a type, or it goes without a name. -/
def ClosureParameter.IsKept (parameter : ClosureParameter) : Prop :=
  parameter.hasType = true ∨ parameter.name = anonymous

instance (parameter : ClosureParameter) : Decidable parameter.IsKept :=
  inferInstanceAs (Decidable (_ ∨ _))

theorem isUntyped_eq_true_iff {parameter : ClosureParameter} :
    isUntyped parameter = true ↔ ¬parameter.IsKept := by
  simp [isUntyped, ClosureParameter.IsKept]

/-- The piece of a clause for a parameter that stands for the element. -/
structure IsPiece (parameter : ClosureParameter) (element : TypeElement SwiftType)
    (piece : String) : Prop where
  kept : parameter.IsKept → piece = parameter.text
  typed : ¬parameter.IsKept →
    piece = elementSpelling { element with label := some parameter.name }

/-- What is written for a parameter is a piece of the clause. -/
theorem isPiece_parameterText (parameter : ClosureParameter) (element : TypeElement SwiftType) :
    IsPiece parameter element (parameterText parameter element) := by
  constructor
  · intro hkept
    have huntyped : ¬isUntyped parameter = true := fun h => isUntyped_eq_true_iff.1 h hkept
    rw [parameterText, if_neg huntyped]
  · intro hkept
    rw [parameterText, if_pos (isUntyped_eq_true_iff.2 hkept)]
    rfl

namespace ClosureSite

variable (site : ClosureSite)

/-- The clause stays as it is written: it has its parentheses, and each of its parameters stays. -/
def KeepsClause : Prop :=
  site.parenthesized = true ∧ ∀ parameter ∈ site.parameters, parameter.IsKept

instance : Decidable site.KeepsClause := inferInstanceAs (Decidable (_ ∧ ∀ _ ∈ _, _))

/-- How the clause of a closure reads after an edit, whose parameters stand for the elements: as it
was written, or with one piece for each parameter. -/
inductive ClauseReads (elements : List (TypeElement SwiftType)) (written : List UInt8) :
    List UInt8 → Prop
  | kept : site.KeepsClause → ClauseReads elements written written
  | pieces {pieces : List String} :
      ¬site.KeepsClause → pieces.length = site.parameters.length →
      (∀ (i : Nat) (parameter : ClosureParameter) (element : TypeElement SwiftType)
        (piece : String), site.parameters[i]? = some parameter → elements[i]? = some element →
        pieces[i]? = some piece → IsPiece parameter element piece) →
      ClauseReads elements written
        (Text.encode ("(" ++ String.intercalate ", " pieces ++ ")"))

/-- What is added behind the effects of a closure: unless a result is written, the recorded effects,
if none are written, and the recorded result. -/
def arrowText (effects : List String) (result : SwiftType) : String :=
  if site.hasReturnType then ""
  else (if site.hasEffects then "" else effectsText effects) ++ " -> " ++ result.renderResult

/-- Nothing but the names of parameters is written. -/
structure IsBare : Prop where
  nonempty : site.parameters ≠ []
  untyped : ∀ parameter ∈ site.parameters, ¬parameter.IsKept
  hasEffects : site.hasEffects = false
  hasReturnType : site.hasReturnType = false

/-- The clause in which every parameter is spelled out. -/
def clauseText (elements : List (TypeElement SwiftType)) : String :=
  "(" ++ String.intercalate ", " (List.zipWith parameterText site.parameters elements) ++ ")"

/-- The clause after the edit, where `written` is what was written. -/
def clauseAfter (elements : List (TypeElement SwiftType)) (written : List UInt8) : List UInt8 :=
  if site.KeepsClause then written else Text.encode (site.clauseText elements)

end ClosureSite

open ClosureSite

section Signature

variable {site : ClosureSite} {elements : List (TypeElement SwiftType)} {result : SwiftType}
  {effects : List String}

/-- The test for a new clause decides whether the written one is kept. -/
theorem keepsClause_iff :
    (site.parameters.any isUntyped || !site.parenthesized) = true ↔ ¬site.KeepsClause := by
  rw [Bool.or_eq_true, List.any_eq_true, Bool.not_eq_true', KeepsClause, not_and_or]
  simp only [isUntyped_eq_true_iff, not_forall, Bool.not_eq_true, exists_prop]
  exact or_comm

/-- The clause reads as the elements, kept or written anew. -/
theorem clauseReads_clauseAfter (h : elements.length = site.parameters.length)
    (written : List UInt8) :
    site.ClauseReads elements written (site.clauseAfter elements written) := by
  rw [clauseAfter]
  split
  · next hkeeps => exact .kept hkeeps
  · next hkeeps =>
    refine .pieces hkeeps ?_ fun i parameter element piece hparameter helement hpiece => ?_
    · rw [List.length_zipWith, h, Nat.min_self]
    · rw [List.getElem?_zipWith, hparameter, helement] at hpiece
      cases hpiece
      exact isPiece_parameterText parameter element

/-- The edits of a signature in the order in which they are listed. -/
theorem signatureEdits_eq (site : ClosureSite) (start stop : Int)
    (elements : List (TypeElement SwiftType)) (result : SwiftType) (effects : List String) :
    signatureEdits site start stop elements result effects =
      (if site.KeepsClause then [] else [⟨start, stop, site.clauseText elements⟩]) ++
        if site.hasReturnType then []
        else [⟨site.effectsEnd.getD stop, site.effectsEnd.getD stop,
          site.arrowText effects result⟩] := by
  rw [signatureEdits]
  congr 1
  · by_cases hkeeps : site.KeepsClause
    · rw [if_pos hkeeps, if_neg fun h => keepsClause_iff.1 h hkeeps]
    · rw [if_neg hkeeps, if_pos (keepsClause_iff.2 hkeeps)]
      rfl
  · split
    · rfl
    · next hresult => rw [arrowText, if_neg hresult]

/-- The edits of a signature fit the file. -/
theorem fits_signatureEdits {size start stop place : Nat}
    (hplace : site.effectsEnd.getD stop = place) (hclause : start ≤ stop) (heffects : stop ≤ place)
    (hfile : place ≤ size) :
    Edit.Fits size (signatureEdits site start stop elements result effects) := by
  have hsub := signatureEdits_sublist site start stop elements result effects
  rw [hplace] at hsub
  have hpair : [((start : Int), (stop : Int)), (place, place)].Pairwise fun s t => s.2 ≤ t.1 := by
    simpa using heffects
  have hapart := List.pairwise_map.1 (hpair.sublist hsub)
  refine ⟨fun edit hedit => ?_, hapart⟩
  have hstretch := hsub.subset (List.mem_map_of_mem hedit)
  simp only [List.mem_cons, List.not_mem_nil, or_false, Edit.stretch, Prod.mk.injEq] at hstretch
  simp only [Edit.InRange]
  omega

/-- The edits of a signature replace the clause and add the arrow; also where the clause ends at the
place of the arrow, and where it is empty besides. -/
theorem applyAll_signatureEdits {bytes : List UInt8} {start stop place : Nat}
    (hplace : site.effectsEnd.getD stop = place) (hclause : start ≤ stop) (heffects : stop ≤ place)
    (hfile : place ≤ bytes.length) :
    Edit.applyAll (signatureEdits site start stop elements result effects) bytes =
      .ok (bytes.take start ++ site.clauseAfter elements (Text.byteSlice bytes start stop) ++
        Text.byteSlice bytes stop place ++ Text.encode (site.arrowText effects result) ++
        bytes.drop place) := by
  rw [(fits_signatureEdits hplace hclause heffects hfile).applyAll_eq, signatureEdits_eq, hplace,
    clauseAfter]
  congr 1
  by_cases hkeeps : site.KeepsClause
  · rw [if_pos hkeeps, if_pos hkeeps, Edit.take_append_byteSlice bytes hclause,
      Edit.take_append_byteSlice bytes heffects, List.nil_append]
    by_cases hresult : site.hasReturnType = true
    · rw [if_pos hresult, arrowText, if_pos hresult, Edit.spliceFrom, Text.encode_empty,
        List.append_nil, List.take_append_drop, List.drop_zero]
    · rw [if_neg hresult]
      rfl
  · rw [if_neg hkeeps, if_neg hkeeps]
    by_cases hresult : site.hasReturnType = true
    · rw [if_pos hresult, arrowText, if_pos hresult, Text.encode_empty]
      simp only [List.append_nil, Edit.spliceFrom, Int.toNat_natCast, List.append_assoc,
        Text.byteSlice_append_drop bytes heffects]
      rfl
    · rw [if_neg hresult]
      simp only [List.cons_append, List.nil_append, Edit.spliceFrom, Int.toNat_natCast,
        List.append_assoc]
      rfl

/-- The elements with the names of the parameters as their labels. -/
def labelled (parameters : List ClosureParameter) (elements : List (TypeElement SwiftType)) :
    List (TypeElement SwiftType) :=
  List.zipWith (fun parameter element => { element with label := some parameter.name }) parameters
    elements

/-- The pieces of parameters without types are the spellings of labelled elements. -/
theorem zipWith_parameterText {parameters : List ClosureParameter}
    (h : ∀ parameter ∈ parameters, ¬parameter.IsKept) (elements : List (TypeElement SwiftType)) :
    List.zipWith parameterText parameters elements =
      renderElements (labelled parameters elements) := by
  induction parameters generalizing elements with
  | nil => rfl
  | cons parameter rest ih =>
    obtain ⟨huntyped, hrest⟩ := List.forall_mem_cons.1 h
    cases elements with
    | nil => rfl
    | cons element elements =>
      rw [List.zipWith_cons_cons, (isPiece_parameterText parameter element).typed huntyped,
        ih hrest]
      rfl

/-- Where nothing but names is written, the clause and the arrow spell a function type. -/
theorem clauseText_append_arrowText (h : site.IsBare) :
    site.clauseText elements ++ site.arrowText effects result =
      (SwiftType.function (labelled site.parameters elements) result effects).render := by
  rw [clauseText, arrowText, zipWith_parameterText h.untyped, h.hasReturnType, h.hasEffects,
    SwiftType.render]
  simp only [Bool.false_eq_true, if_false, String.append_assoc]
  rfl

/-- A bare closure gets a new clause. -/
theorem not_keepsClause_of_isBare (h : site.IsBare) : ¬site.KeepsClause := by
  rintro ⟨-, hkept⟩
  obtain ⟨parameter, hparameter⟩ := List.exists_mem_of_ne_nil _ h.nonempty
  exact h.untyped parameter hparameter (hkept parameter hparameter)

end Signature

/-- What the edits of a closure write. The rest of the file stays as it is. The clause stays too if
it has its parentheses and no parameter needs a type; otherwise it holds one piece for each
parameter, in order, and those with a type and those without a name stay as written. Behind the
effects stands nothing new if a result is written, and otherwise the recorded effects, if none are
written, and the recorded result. If nothing but names is written, the clause and the arrow spell
the recorded function type, with the names as labels, and with the elements of a tuple that they
take apart as parameters. -/
theorem closureEdits_write_signature [CallStack] (root : Node) (fileName : String)
    (site : ClosureSite) (bytes : List UInt8) (start stop place : Nat) {edits : List Edit}
    (hgives : (closureEdits root fileName site).Gives edits) (hedits : edits ≠ [])
    (hstart : site.signatureStart = some start) (hstop : site.signatureEnd = some stop)
    (hplace : site.effectsEnd.getD stop = place) (hclause : start ≤ stop)
    (heffects : stop ≤ place) (hfile : place ≤ bytes.length) :
    ∃ parameters result effects elements clause,
      ClosureRecorded root ⟨fileName, site.line, site.column⟩
        (.function parameters result effects) ∧
      StandFor site.parameters.length parameters elements ∧
      Edit.applyAll edits bytes =
        .ok (bytes.take start ++ clause ++ Text.byteSlice bytes stop place ++
          Text.encode (site.arrowText effects result) ++ bytes.drop place) ∧
      site.ClauseReads elements (Text.byteSlice bytes start stop) clause ∧
      (site.IsBare → place = stop →
        clause ++ Text.encode (site.arrowText effects result) =
          Text.encode (SwiftType.function (labelled site.parameters elements) result
            effects).render) := by
  obtain ⟨edit, hedit⟩ := List.exists_mem_of_ne_nil _ hedits
  obtain ⟨node, text, parameters, result, effects, elements, start', stop', hnode, htype, hparse,
    hmatch, hstart', hstop', rfl⟩ := exists_of_closureEdits_gives root fileName hgives hedit
  obtain rfl : start' = start := Option.some.inj (hstart'.symm.trans hstart)
  obtain rfl : stop' = stop := Option.some.inj (hstop'.symm.trans hstop)
  have hstand := standFor_of_matchParameters? hmatch
  refine ⟨parameters, result, effects, elements,
    site.clauseAfter elements (Text.byteSlice bytes start stop), ⟨node, text, hnode, htype, hparse⟩,
    hstand, applyAll_signatureEdits hplace hclause heffects hfile,
    clauseReads_clauseAfter hstand.length_eq _, fun hbare _ => ?_⟩
  rw [clauseAfter, if_neg (not_keepsClause_of_isBare hbare), ← Text.encode_append,
    clauseText_append_arrowText hbare]

/-- What is recorded of `let f = { a, b in }`: a function of one pair. -/
def pairTree : Node :=
  ⟨"source_file", [], [], [nodeAt closureNode "((Int, String...)) async throws -> ()" 9 []]⟩

/-- The closure of `let f = { a, b in }`. -/
def pairSite : ClosureSite :=
  ⟨1, 9, [⟨"a", "a", false⟩, ⟨"b", "b", false⟩], some 10, some 14, none, false, false, false⟩

/-- Two bare names that take apart a pair get the spelling of a function of two parameters. -/
theorem closureEdits_write_signature_pairSite :
    letI := CallStack.uniform 4
    (closureEdits pairTree "main.swift" pairSite).Gives
      [⟨10, 14, "(a: Int, b: String...)"⟩, ⟨14, 14, " async throws -> Void"⟩] ∧
    pairSite.IsBare ∧
    ∃ parameters result effects elements, StandFor 2 parameters elements ∧
      Edit.applyAll [⟨10, 14, "(a: Int, b: String...)"⟩, ⟨14, 14, " async throws -> Void"⟩]
        (Text.encode "let f = { a, b in }") =
      .ok ((Text.encode "let f = { a, b in }").take 10 ++
        Text.encode (SwiftType.function (labelled pairSite.parameters elements) result
          effects).render ++ (Text.encode "let f = { a, b in }").drop 14) := by
  let _ := CallStack.uniform 4
  have hgives : (closureEdits pairTree "main.swift" pairSite).Gives
      [⟨10, 14, "(a: Int, b: String...)"⟩, ⟨14, 14, " async throws -> Void"⟩] :=
    value?_eq_some_iff.1 (by decide +kernel)
  have hbare : pairSite.IsBare := ⟨by decide, by decide, rfl, rfl⟩
  obtain ⟨parameters, result, effects, elements, clause, -, hstand, happly, -, hspelled⟩ :=
    closureEdits_write_signature pairTree "main.swift" pairSite
      (Text.encode "let f = { a, b in }") 10 14 14 hgives (List.cons_ne_nil _ _) rfl rfl rfl
      (by decide) (by decide) (by decide +kernel)
  have hbetween : Text.byteSlice (Text.encode "let f = { a, b in }") 14 14 = [] := rfl
  refine ⟨hgives, hbare, parameters, result, effects, elements, hstand, ?_⟩
  rw [happly, hbetween, List.append_nil, List.append_assoc _ clause, hspelled hbare rfl]

end TypeScribe
