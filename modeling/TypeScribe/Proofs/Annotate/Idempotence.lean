import TypeScribe.Proofs.Annotate.Places
import TypeScribe.Proofs.Source.Splice

/-!
# Planning twice

What a plan writes is there when the file is looked at again: the sites that were edited are marked
as written out (`SiteLists.annotated`). A second plan then leaves every call and every closure
alone, and every binding that the first plan annotated. It does not leave alone the bindings that
the first plan passed over because their initializer was edited: the second time the initializer
needs no edit, so nothing holds these bindings back (`plan_again_gives`). A second plan is empty if
and only if none of these bindings has an edit of its own. It looks up the types recorded for them,
which the first plan did not, and there may be no room on the call stack for one of these.
-/

namespace TypeScribe

open Dump

/-! ## Values of computations -/

namespace Logged

variable {α : Type}

/-- The value that a computation ends with, if it does not fail. -/
def value? (x : Logged α) : Option α := x.outcome.toOption

theorem value?_eq_some_iff {x : Logged α} {value : α} : x.value? = some value ↔ x.Gives value := by
  rw [value?, Gives]
  cases x.outcome <;> simp [Except.toOption]

end Logged

open Logged Plan

/-! ## Sites after a plan -/

/-- Sites that could all be listed. -/
structure SiteLists where
  fileName : String
  calls : List CallSite
  bindings : List BindingSite
  closures : List ClosureSite

/-- The sites as a plan takes them. -/
def SiteLists.listing (sites : SiteLists) : SiteListing where
  fileName := sites.fileName
  calls := .ok sites.calls
  bindings := .ok sites.bindings
  closures := .ok sites.closures

section
variable [CallStack]

namespace Plan

variable (root : Node) (fileName : String)

/-- The call with the generic arguments that were written. -/
def markCall (site : CallSite) : CallSite :=
  if (callEdit root fileName site).value?.join.isSome then
    { site with hasGenericArguments := true }
  else site

/-- The binding with the type that was written, where the calls at `edited` were edited. -/
def markBinding (edited : List (Int × Int)) (site : BindingSite) : BindingSite :=
  if !isSpelledByCall edited site && (bindingEdit root fileName site).value?.join.isSome then
    { site with isTyped := true }
  else site

/-- The parameter of a clause that was written. -/
def markParameter (parameter : ClosureParameter) : ClosureParameter :=
  if parameter.name = anonymous then parameter else { parameter with hasType := true }

/-- The closure with the parts of its signature that were written: edits of a closure replace the
clause if it is incomplete or bare, and add a result if there is none. -/
def markClosure (site : ClosureSite) : ClosureSite :=
  if ((closureEdits root fileName site).value?.getD []).isEmpty then site
  else
    let replaced := site.parameters.any isUntyped || !site.parenthesized
    { site with
      parameters := if replaced then site.parameters.map markParameter else site.parameters
      parenthesized := site.parenthesized || replaced
      hasReturnType := true }

end Plan

namespace SiteLists

variable (root : Node) (settings : Settings) (sites : SiteLists)

/-- The positions of the calls that a plan edits. -/
def editedCalls : List (Int × Int) :=
  if settings.annotateCalls then
    ((callEdits root (recordedFileName root sites.fileName) sites.calls).value?.getD []).map (·.1)
  else []

/-- The sites when what a plan wrote is there. -/
def annotated : SiteLists :=
  let fileName := recordedFileName root sites.fileName
  { sites with
    calls :=
      if settings.annotateCalls then sites.calls.map (markCall root fileName) else sites.calls
    bindings :=
      if settings.annotateBindings then
        sites.bindings.map (markBinding root fileName (sites.editedCalls root settings))
      else sites.bindings
    closures :=
      if settings.annotateClosures then sites.closures.map (markClosure root fileName)
      else sites.closures }

/-- The bindings that a plan leaves to the calls that it edits. -/
def leftToCalls : List BindingSite :=
  if settings.annotateBindings then
    sites.bindings.filter (isSpelledByCall (sites.editedCalls root settings))
  else []

end SiteLists

/-! ## One site -/

namespace Plan

variable (root : Node) (fileName : String)

/-- A call with generic arguments is not edited. -/
theorem callEdit_of_hasGenericArguments {site : CallSite}
    (h : site.hasGenericArguments = true) : (callEdit root fileName site).Gives none := by
  rw [callEdit, h, Bool.true_or, if_pos rfl]
  exact gives_pure _

/-- A binding with a type is not edited. -/
theorem bindingEdit_of_isTyped {site : BindingSite} (h : site.isTyped = true) :
    (bindingEdit root fileName site).Gives none := by
  rw [bindingEdit, h, Bool.true_or, if_pos rfl]
  exact gives_pure _

/-- A closure is not edited if its parameters and its result have types. -/
theorem closureEdits_of_complete {site : ClosureSite}
    (huntyped : site.parameters.any isUntyped = false) (hreturn : site.hasReturnType = true) :
    (closureEdits root fileName site).Gives [] := by
  rw [closureEdits]
  split
  · exact gives_pure _
  · rw [huntyped, hreturn, Bool.not_false, Bool.true_and, if_pos rfl]
    exact gives_pure _

/-- A call gets no second edit. -/
theorem callEdit_markCall {site : CallSite} {edit : Option Edit}
    (h : (callEdit root fileName site).Gives edit) :
    (callEdit root fileName (markCall root fileName site)).Gives none := by
  rw [markCall, value?_eq_some_iff.2 h]
  cases edit with
  | none => exact h
  | some edit => exact callEdit_of_hasGenericArguments root fileName rfl

/-- A binding that was not left to a call gets no second edit. -/
theorem bindingEdit_markBinding {edited : List (Int × Int)} {site : BindingSite}
    {edit : Option Edit} (hspelled : isSpelledByCall edited site = false)
    (h : (bindingEdit root fileName site).Gives edit) :
    (bindingEdit root fileName (markBinding root fileName edited site)).Gives none := by
  rw [markBinding, value?_eq_some_iff.2 h, hspelled]
  cases edit with
  | none => exact h
  | some edit => exact bindingEdit_of_isTyped root fileName rfl

/-- A binding that is left to a call stays as it is. -/
theorem markBinding_of_spelled {edited : List (Int × Int)} {site : BindingSite}
    (hspelled : isSpelledByCall edited site = true) :
    markBinding root fileName edited site = site := by
  rw [markBinding, hspelled]
  rfl

omit [CallStack] in
/-- A marked parameter has a type. -/
theorem isUntyped_markParameter (parameter : ClosureParameter) :
    isUntyped (markParameter parameter) = false := by
  rw [markParameter]
  split
  · next hname => simp [isUntyped, hname]
  · rfl

/-- A closure gets no second edits: one that was edited has its whole signature. -/
theorem closureEdits_markClosure {site : ClosureSite} {edits : List Edit}
    (h : (closureEdits root fileName site).Gives edits) :
    (closureEdits root fileName (markClosure root fileName site)).Gives [] := by
  rw [markClosure, value?_eq_some_iff.2 h]
  cases edits with
  | nil => exact h
  | cons edit later =>
    refine closureEdits_of_complete root fileName ?_ rfl
    show (if _ then site.parameters.map markParameter else site.parameters).any isUntyped = false
    split
    · simp [isUntyped_markParameter]
    · next hkept =>
      rw [Bool.or_eq_true, not_or] at hkept
      exact Bool.eq_false_iff.2 hkept.1

/-! ## Lists of sites -/

/-- The marked calls are not edited. -/
theorem callEdits_map_markCall {sites : List CallSite} {made : List ((Int × Int) × Edit)}
    (h : (callEdits root fileName sites).Gives made) :
    (callEdits root fileName (sites.map (markCall root fileName))).Gives [] := by
  induction sites generalizing made with
  | nil => exact gives_pure _
  | cons site rest ih =>
    obtain ⟨edit, hedit, h⟩ := exists_of_bind_gives h
    obtain ⟨later, hlater, -⟩ := exists_of_bind_gives h
    exact (callEdit_markCall root fileName hedit).bind ((ih hlater).bind (gives_pure _))

omit [CallStack] in
theorem isSpelledByCall_nil (site : BindingSite) : isSpelledByCall [] site = false := by
  rw [isSpelledByCall]
  split <;> rfl

/-- What the second plan does with a binding that the first one dealt with: nothing, or, where it
was left to a call, what it would have done. -/
theorem bindingEdit_markBinding_cases {edited : List (Int × Int)} {site : BindingSite}
    {edit : Option Edit}
    (h : isSpelledByCall edited site = true ∧ edit = none ∨
      isSpelledByCall edited site = false ∧ (bindingEdit root fileName site).Gives edit) :
    isSpelledByCall edited site = false ∧
        (bindingEdit root fileName (markBinding root fileName edited site)).Gives none ∨
      isSpelledByCall edited site = true ∧ markBinding root fileName edited site = site := by
  rcases h with ⟨hspelled, -⟩ | ⟨hspelled, hedit⟩
  · exact .inr ⟨hspelled, markBinding_of_spelled root fileName hspelled⟩
  · exact .inl ⟨hspelled, bindingEdit_markBinding root fileName hspelled hedit⟩

/-- The second time no call is edited, so the bindings that were left to calls are looked up. -/
theorem bindingEdits_map_markBinding_failsBy {edited : List (Int × Int)}
    {sites : List BindingSite} {made : List Edit}
    (h : (bindingEdits root fileName edited sites).Gives made) :
    (bindingEdits root fileName [] (sites.map (markBinding root fileName edited))).FailsBy
      fun fault => ∃ site ∈ sites.filter (isSpelledByCall edited),
        (bindingEdit root fileName site).outcome = .error fault := by
  induction sites generalizing made with
  | nil => exact (gives_pure _).failsBy
  | cons site rest ih =>
    obtain ⟨_, later, -, hlater, hsite⟩ := exists_of_bindingEdits_cons_gives root fileName h
    rw [List.map_cons, bindingEdits, isSpelledByCall_nil, if_neg Bool.false_ne_true]
    refine FailsBy.bind ?_ fun _ _ => FailsBy.bind ?_ fun _ _ => (gives_pure _).failsBy
    · rcases bindingEdit_markBinding_cases root fileName hsite with ⟨-, hnone⟩ | ⟨hspelled, hsame⟩
      · exact hnone.failsBy
      · rw [hsame]
        exact fun fault hfault =>
          ⟨site, List.mem_filter.2 ⟨List.mem_cons_self, hspelled⟩, hfault⟩
    · refine (ih hlater).mono fun fault hfault => ?_
      obtain ⟨other, hother, hfault⟩ := hfault
      exact ⟨other, ((List.sublist_cons_self site rest).filter _).subset hother, hfault⟩

/-- The second time the bindings that were left to calls get their edits. -/
theorem bindingEdits_map_markBinding {edited : List (Int × Int)} {sites : List BindingSite}
    {made again : List Edit} (h : (bindingEdits root fileName edited sites).Gives made)
    (hagain : (bindingEdits root fileName []
      (sites.map (markBinding root fileName edited))).Gives again) :
    again = (sites.filter (isSpelledByCall edited)).filterMap fun site =>
      (bindingEdit root fileName site).value?.join := by
  induction sites generalizing made again with
  | nil =>
    cases hagain
    rfl
  | cons site rest ih =>
    obtain ⟨_, later, -, hlater, hsite⟩ := exists_of_bindingEdits_cons_gives root fileName h
    rw [List.map_cons] at hagain
    obtain ⟨edit, laterAgain, rfl, hlaterAgain, hedit⟩ :=
      exists_of_bindingEdits_cons_gives root fileName hagain
    rw [isSpelledByCall_nil] at hedit
    have hedit := (hedit.resolve_left fun hspelled => by cases hspelled.1).2
    obtain rfl := ih hlater hlaterAgain
    rcases bindingEdit_markBinding_cases root fileName hsite with ⟨hspelled, hnone⟩ |
      ⟨hspelled, hsame⟩
    · obtain rfl := Except.ok.inj (hnone.symm.trans hedit)
      rw [List.filter_cons_of_neg (by rw [hspelled]; decide)]
      rfl
    · rw [hsame] at hedit
      rw [List.filter_cons_of_pos hspelled]
      cases edit <;> simp [value?_eq_some_iff.2 hedit]

/-- Nor are the marked closures. -/
theorem allClosureEdits_map_markClosure {sites : List ClosureSite} {edits : List Edit}
    (h : (allClosureEdits root fileName sites).Gives edits) :
    (allClosureEdits root fileName (sites.map (markClosure root fileName))).Gives [] := by
  induction sites generalizing edits with
  | nil => exact gives_pure _
  | cons site rest ih =>
    obtain ⟨first, hfirst, h⟩ := exists_of_bind_gives h
    obtain ⟨later, hlater, -⟩ := exists_of_bind_gives h
    exact (closureEdits_markClosure root fileName hfirst).bind ((ih hlater).bind (gives_pure _))

end Plan

end

/-! ## The whole plan -/

section
variable [CallStack] (root : Node) (settings : Settings) (sites : SiteLists)

/-- The calls that a plan goes on from are edited. -/
theorem SiteLists.editedCalls_eq {made : List ((Int × Int) × Edit)}
    (h : StepMakes settings.annotateCalls sites.listing.calls
      (callEdits root (recordedFileName root sites.fileName)) made) :
    sites.editedCalls root settings = made.map (·.1) := by
  rw [editedCalls]
  rcases h with ⟨hon, _, hlisted, hmade⟩ | ⟨hoff, rfl⟩
  · cases hlisted
    rw [if_pos hon, value?_eq_some_iff.2 hmade]
    rfl
  · rw [hoff]
    rfl

/-- A second plan has no calls to edit. -/
theorem SiteLists.callEdits_annotated {made : List ((Int × Int) × Edit)}
    (h : StepMakes settings.annotateCalls sites.listing.calls
      (callEdits root (recordedFileName root sites.fileName)) made)
    (hon : settings.annotateCalls = true) :
    (callEdits root (recordedFileName root sites.fileName)
      (sites.annotated root settings).calls).Gives [] := by
  simp only [SiteLists.annotated, if_pos hon]
  exact callEdits_map_markCall root _ (h.gives rfl hon)

/-- A second plan has no closures to edit. -/
theorem SiteLists.allClosureEdits_annotated {made : List Edit}
    (h : StepMakes settings.annotateClosures sites.listing.closures
      (allClosureEdits root (recordedFileName root sites.fileName)) made)
    (hon : settings.annotateClosures = true) :
    (allClosureEdits root (recordedFileName root sites.fileName)
      (sites.annotated root settings).closures).Gives [] := by
  simp only [SiteLists.annotated, if_pos hon]
  exact allClosureEdits_map_markClosure root _ (h.gives rfl hon)

/-- If a plan succeeds, a second one fails only as the edit of a binding does that the first one
left to a call. -/
theorem plan_again_failsBy {edits : List Edit}
    (h : (plan root settings sites.listing).Gives edits) :
    (plan root settings (sites.annotated root settings).listing).FailsBy fun fault =>
      ∃ site ∈ sites.leftToCalls root settings,
        (bindingEdit root (recordedFileName root sites.fileName) site).outcome = .error fault := by
  obtain ⟨callsMade, h, hcallsMade⟩ := step_gives_cases h
  obtain ⟨_, h, hbindingsMade⟩ := step_gives_cases h
  obtain ⟨_, -, hclosuresMade⟩ := step_gives_cases h
  have hcalls := sites.callEdits_annotated root settings hcallsMade
  have hclosures := sites.allClosureEdits_annotated root settings hclosuresMade
  refine failsBy_step rfl (fun hon => (hcalls hon).failsBy) fun made hmade => ?_
  obtain rfl := hmade.eq_nil rfl hcalls
  refine failsBy_step rfl (fun hon => ?_) fun _ _ =>
    failsBy_step rfl (fun hon => (hclosures hon).failsBy) fun _ _ => (gives_pure _).failsBy
  simp only [SiteLists.annotated, SiteLists.leftToCalls, if_pos hon]
  rw [sites.editedCalls_eq root settings hcallsMade]
  exact bindingEdits_map_markBinding_failsBy root _ (hbindingsMade.gives rfl hon)

/-- If two plans succeed, one after the other, the second makes the edits of the bindings that the
first one left to calls. -/
theorem mem_plan_again_iff {edits again : List Edit}
    (h : (plan root settings sites.listing).Gives edits)
    (hagain : (plan root settings (sites.annotated root settings).listing).Gives again)
    (edit : Edit) :
    edit ∈ again ↔ ∃ site ∈ sites.leftToCalls root settings,
      (bindingEdit root (recordedFileName root sites.fileName) site).Gives (some edit) := by
  obtain ⟨callsMade, h, hcallsMade⟩ := step_gives_cases h
  obtain ⟨_, h, hbindingsMade⟩ := step_gives_cases h
  obtain ⟨_, -, hclosuresMade⟩ := step_gives_cases h
  obtain ⟨callsAgain, h, hcallsAgain⟩ := step_gives_cases hagain
  obtain ⟨bindingsAgain, h, hbindingsAgain⟩ := step_gives_cases h
  obtain ⟨closuresAgain, h, hclosuresAgain⟩ := step_gives_cases h
  cases h
  obtain rfl := hcallsAgain.eq_nil rfl (sites.callEdits_annotated root settings hcallsMade)
  obtain rfl :=
    hclosuresAgain.eq_nil rfl (sites.allClosureEdits_annotated root settings hclosuresMade)
  have hbindings : bindingsAgain = (sites.leftToCalls root settings).filterMap fun site =>
      (bindingEdit root (recordedFileName root sites.fileName) site).value?.join := by
    rw [SiteLists.leftToCalls]
    rcases hbindingsAgain with ⟨hon, _, hlisted, hmade⟩ | ⟨hoff, rfl⟩
    · cases hlisted
      simp only [SiteLists.annotated, if_pos hon] at hmade ⊢
      rw [sites.editedCalls_eq root settings hcallsMade] at hmade ⊢
      exact bindingEdits_map_markBinding root _ (hbindingsMade.gives rfl hon) hmade
    · rw [hoff]
      rfl
  rw [hbindings, List.map_nil, List.nil_append, List.append_nil, Edit.mem_sort, List.mem_filterMap]
  simp only [Option.join_eq_some_iff, value?_eq_some_iff]

/-- If a plan succeeds, a second one makes the edits of the bindings that the first one left to the
calls that it edited, and no others, when what the first wrote is there; unless there is no room on
the call stack to make the edit of one of these bindings. -/
theorem plan_again_gives {edits : List Edit} (h : (plan root settings sites.listing).Gives edits) :
    (∃ again, (plan root settings (sites.annotated root settings).listing).Gives again ∧
      ∀ edit, edit ∈ again ↔ ∃ site ∈ sites.leftToCalls root settings,
        (bindingEdit root (recordedFileName root sites.fileName) site).Gives (some edit)) ∨
    (plan root settings (sites.annotated root settings).listing).outcome = .error .tooDeep ∧
      ∃ site ∈ sites.leftToCalls root settings,
        (bindingEdit root (recordedFileName root sites.fileName) site).outcome =
          .error .tooDeep := by
  rcases (plan root settings (sites.annotated root settings).listing).gives_or_error with
    ⟨again, hagain⟩ | ⟨fault, hfault⟩
  · exact .inl ⟨again, hagain, mem_plan_again_iff root settings sites h hagain⟩
  · obtain ⟨site, hsite, hsiteFault⟩ := plan_again_failsBy root settings sites h fault hfault
    obtain ⟨-, -, rfl, -⟩ := bindingEdit_failsBy root _ site fault hsiteFault
    exact .inr ⟨hfault, site, hsite, hsiteFault⟩

end

/-- A node recorded on the first line. -/
def nodeAt (name type : String) (column : Int) (children : List Node) : Node :=
  ⟨name, [.type type, .location ⟨"main.swift", 1, column⟩], [], children⟩

/-- What is recorded of a call of `Box` at the column. -/
def boxCall (column : Int) : Node :=
  nodeAt "call_expr" "Box<Int>" column [nodeAt constructorNode "(Int) -> Box<Int>" column []]

/-- What is recorded of `let make = { x in Box(x) }`. -/
def makeTree : Node :=
  ⟨"source_file", [], [], [nodeAt "var_decl" "(Int) -> Box<Int>" 5 [],
    nodeAt closureNode "(Int) -> Box<Int>" 12 [boxCall 19]]⟩

/-- The sites of `let make = { x in Box(x) }`. -/
def makeSites : SiteLists where
  fileName := "main.swift"
  calls := [⟨"Box", 1, 19, 18, 21, false⟩]
  bindings := [⟨"make", 1, 5, 8, false, true, false, none⟩]
  closures := [⟨1, 12, [⟨"x", "x", false⟩], some 13, some 14, none, false, false, false⟩]

/-- A binding, a closure and a call in it get four edits, and the second time none. -/
theorem plan_again_makeSites :
    letI := CallStack.uniform 4
    (plan makeTree .standard makeSites.listing).Gives
      [⟨8, 8, ": (Int) -> Box<Int>"⟩, ⟨13, 14, "(x: Int)"⟩, ⟨14, 14, " -> Box<Int>"⟩,
        ⟨18, 21, "Box<Int>"⟩] ∧
      (plan makeTree .standard (makeSites.annotated makeTree .standard).listing).Gives [] := by
  let _ := CallStack.uniform 4
  have hfirst : (plan makeTree .standard makeSites.listing).Gives
      [⟨8, 8, ": (Int) -> Box<Int>"⟩, ⟨13, 14, "(x: Int)"⟩, ⟨14, 14, " -> Box<Int>"⟩,
        ⟨18, 21, "Box<Int>"⟩] := value?_eq_some_iff.1 (by decide +kernel)
  have hleft : makeSites.leftToCalls makeTree .standard = [] := by decide +kernel
  obtain ⟨again, hagain, hmem⟩ | ⟨-, site, hsite, -⟩ :=
    plan_again_gives makeTree .standard makeSites hfirst
  case inr =>
    rw [hleft] at hsite
    cases hsite
  have hnil : again = [] := by
    refine List.eq_nil_iff_forall_not_mem.2 fun edit hedit => ?_
    obtain ⟨site, hsite, -⟩ := (hmem edit).1 hedit
    rw [hleft] at hsite
    cases hsite
  exact ⟨hfirst, hnil ▸ hagain⟩

/-- What is recorded of `let b = Box(1)`. -/
def boxTree : Node :=
  ⟨"source_file", [], [], [nodeAt "var_decl" "Box<Int>" 5 [], boxCall 9]⟩

/-- The sites of `let b = Box(1)`. -/
def boxSites : SiteLists where
  fileName := "main.swift"
  calls := [⟨"Box", 1, 9, 8, 11, false⟩]
  bindings := [⟨"b", 1, 5, 5, false, true, false, some (1, 9)⟩]
  closures := []

/-- The binding is left to its initializer, and annotated the second time. -/
theorem plan_again_boxSites :
    letI := CallStack.uniform 4
    (plan boxTree .standard boxSites.listing).Gives [⟨8, 11, "Box<Int>"⟩] ∧
      (plan boxTree .standard (boxSites.annotated boxTree .standard).listing).Gives
        [⟨5, 5, ": Box<Int>"⟩] ∧
      ¬(plan boxTree .standard (boxSites.annotated boxTree .standard).listing).Gives [] := by
  let _ := CallStack.uniform 4
  have hagain : (plan boxTree .standard (boxSites.annotated boxTree .standard).listing).Gives
      [⟨5, 5, ": Box<Int>"⟩] := value?_eq_some_iff.1 (by decide +kernel)
  refine ⟨value?_eq_some_iff.1 (by decide +kernel), hagain, fun hnil => ?_⟩
  cases hagain.symm.trans hnil

end TypeScribe
