import TypeScribe.Proofs.Annotate.Idempotence

/-!
# Where written types come from

Each edit of a plan writes a type that is recorded in the dump: that of a node for the point of the
edited site, or for a call that of the constructor below such a node (`Edit.WrittenFrom`). The
lookups are meant to come to nodes that are for the point (`Node.IsAt`).

There is one more way. The search for a point may answer with a node that merely surrounds it
(`Node.AnswersAround`), and the type of that node is written as well. `plan_writtenFrom` says that
this is the only exception, and `plan_writtenFrom_around` that it happens: a binding in a part of a
structure that is not compiled gets the type of the structure.
-/

namespace TypeScribe

open Dump Dump.Node Logged Plan

/-! ## Edits -/

section
variable [CallStack]

/-- The edit writes a recorded type at a listed site of a kind that is switched on, and the type is
that of a node that stands for the site's point. -/
inductive Edit.WrittenFrom (Stands : Node → Point → Prop) (root : Node) (settings : Settings)
    (sites : SiteListing) (edit : Edit) : Prop
  | binding {bindings : List BindingSite} {site : BindingSite} {node : Node}
      {text spelled : String} :
      settings.annotateBindings = true → sites.bindings = .ok bindings → site ∈ bindings →
      node ∈ root.nodes →
      Stands node ⟨recordedFileName root sites.fileName, site.line, site.column⟩ →
      node.type = some text → (spelling text).Gives spelled →
      edit = ⟨site.nameEnd, site.nameEnd, ": " ++ spelled⟩ →
      WrittenFrom Stands root settings sites edit
  | call {calls : List CallSite} {site : CallSite} {text : String} {type written : SwiftType} :
      settings.annotateCalls = true → sites.calls = .ok calls → site ∈ calls →
      ConstructedBy Stands root ⟨recordedFileName root sites.fileName, site.line, site.column⟩
        text →
      SwiftType.parse text = .ok type → calleeType? site.callee type = some written →
      edit = ⟨site.calleeStart, site.calleeEnd, written.render⟩ →
      WrittenFrom Stands root settings sites edit
  | closure {closures : List ClosureSite} {site : ClosureSite} {node : Node} {text : String}
      {parameters elements : List (TypeElement SwiftType)} {result : SwiftType}
      {effects : List String} {start stop : Int} :
      settings.annotateClosures = true → sites.closures = .ok closures → site ∈ closures →
      node ∈ root.nodes →
      Stands node ⟨recordedFileName root sites.fileName, site.line, site.column⟩ →
      node.name = closureNode → node.type = some text →
      SwiftType.parse text = .ok (.function parameters result effects) →
      matchParameters? site.parameters parameters = some elements →
      site.signatureStart = some start → site.signatureEnd = some stop →
      edit ∈ signatureEdits site start stop elements result effects →
      WrittenFrom Stands root settings sites edit

/-- Each edit of a plan is the edit of a listed site of a kind that is switched on. -/
theorem mem_plan_cases {root : Node} {settings : Settings} {sites : SiteListing}
    {edits : List Edit} {edit : Edit} (h : (plan root settings sites).Gives edits)
    (hedit : edit ∈ edits) :
    (settings.annotateCalls = true ∧ ∃ calls, sites.calls = .ok calls ∧ ∃ site ∈ calls,
        (callEdit root (recordedFileName root sites.fileName) site).Gives (some edit)) ∨
      (settings.annotateBindings = true ∧ ∃ bindings, sites.bindings = .ok bindings ∧
        ∃ site ∈ bindings,
          (bindingEdit root (recordedFileName root sites.fileName) site).Gives (some edit)) ∨
      (settings.annotateClosures = true ∧ ∃ closures, sites.closures = .ok closures ∧
        ∃ site ∈ closures, ∃ own,
          (closureEdits root (recordedFileName root sites.fileName) site).Gives own ∧
            edit ∈ own) := by
  obtain ⟨calls, h, hcalls⟩ := step_gives_cases h
  obtain ⟨bindings, h, hbindings⟩ := step_gives_cases h
  obtain ⟨closures, h, hclosures⟩ := step_gives_cases h
  cases h
  rw [Edit.mem_sort, List.mem_append, List.mem_append] at hedit
  rcases hedit with (hedit | hedit) | hedit
  · obtain ⟨pair, hpair, rfl⟩ := List.mem_map.1 hedit
    rcases hcalls with ⟨hon, listed, hlisted, hmade⟩ | ⟨-, rfl⟩
    · obtain ⟨site, hsite, -, hgives⟩ := exists_of_mem_callEdits root _ hmade hpair
      exact .inl ⟨hon, listed, hlisted, site, hsite, hgives⟩
    · cases hpair
  · rcases hbindings with ⟨hon, listed, hlisted, hmade⟩ | ⟨-, rfl⟩
    · obtain ⟨site, hsite, -, hgives⟩ := exists_of_mem_bindingEdits root _ hmade hedit
      exact .inr (.inl ⟨hon, listed, hlisted, site, hsite, hgives⟩)
    · cases hedit
  · rcases hclosures with ⟨hon, listed, hlisted, hmade⟩ | ⟨-, rfl⟩
    · obtain ⟨site, hsite, own, hgives, hown⟩ := exists_of_mem_allClosureEdits root _ hmade hedit
      exact .inr (.inr ⟨hon, listed, hlisted, site, hsite, own, hgives, hown⟩)
    · cases hedit

/-- Every type that a plan writes is recorded for the point of the site at which it is written,
unless the search for that point answers with a node that only surrounds it. -/
theorem plan_writtenFrom (root : Node) (settings : Settings) (sites : SiteListing)
    {edits : List Edit} (h : (plan root settings sites).Gives edits) :
    ∀ edit ∈ edits, edit.WrittenFrom (AnswersFor root) root settings sites := by
  intro edit hedit
  rcases mem_plan_cases h hedit with ⟨hon, calls, hlisted, site, hsite, hgives⟩ |
      ⟨hon, bindings, hlisted, site, hsite, hgives⟩ |
      ⟨hon, closures, hlisted, site, hsite, own, hgives, hown⟩
  · obtain ⟨-, -, hit, text, type, written, hhit, htext, hparse, hwritten, hedit⟩ :=
      exists_of_callEdit_gives root _ hgives
    exact .call hon hlisted hsite (constructedBy_of_constructedType? hhit htext) hparse hwritten
      hedit
  · obtain ⟨text, spelled, htext, hspelled, hedit⟩ := exists_of_bindingEdit_gives root _ hgives
    obtain ⟨node, hnode, hstands, htype⟩ := exists_of_bindingType? htext
    exact .binding hon hlisted hsite hnode hstands htype hspelled hedit
  · obtain ⟨node, text, parameters, result, effects, elements, start, stop, hclosure, htype,
      hparse, hmatch, hstart, hstop, rfl⟩ := exists_of_closureEdits_gives root _ hgives hown
    obtain ⟨hnode, hstands, hname⟩ := closureNode?_spec hclosure
    exact .closure hon hlisted hsite hnode hstands hname htype hparse hmatch hstart hstop hown

end

/-- The types written for a binding, a closure and a call in it are recorded in the dump. -/
theorem plan_writtenFrom_makeSites :
    letI := CallStack.uniform 4
    (plan makeTree .standard makeSites.listing).Gives
      [⟨8, 8, ": (Int) -> Box<Int>"⟩, ⟨13, 14, "(x: Int)"⟩, ⟨14, 14, " -> Box<Int>"⟩,
        ⟨18, 21, "Box<Int>"⟩] ∧
      ∀ edit ∈ ([⟨8, 8, ": (Int) -> Box<Int>"⟩, ⟨13, 14, "(x: Int)"⟩, ⟨14, 14, " -> Box<Int>"⟩,
        ⟨18, 21, "Box<Int>"⟩] : List Edit),
        edit.WrittenFrom (AnswersFor makeTree) makeTree .standard makeSites.listing := by
  let _ := CallStack.uniform 4
  have hplan : (plan makeTree .standard makeSites.listing).Gives
      [⟨8, 8, ": (Int) -> Box<Int>"⟩, ⟨13, 14, "(x: Int)"⟩, ⟨14, 14, " -> Box<Int>"⟩,
        ⟨18, 21, "Box<Int>"⟩] := value?_eq_some_iff.1 (by decide +kernel)
  exact ⟨hplan, plan_writtenFrom makeTree .standard makeSites.listing hplan⟩

/-- What is recorded of a structure with a binding that is not compiled: nothing of the binding.
```
struct S {
#if DEBUG
  let x = 1
#endif
}
```
-/
def inactiveTree : Node :=
  ⟨"source_file", [], [.doubleQuoted "main.swift"],
    [⟨"struct_decl", [.range ⟨⟨"main.swift", 1, 1⟩, ⟨"main.swift", 5, 1⟩⟩, .type "S.Type"],
      [.doubleQuoted "S"], []⟩]⟩

/-- The binding that is not compiled. -/
def inactiveSites : SiteLists where
  fileName := "main.swift"
  calls := []
  bindings := [⟨"x", 3, 7, 28, false, true, false, none⟩]
  closures := []

/-- The binding gets the type of the structure around it, which is not recorded for its point. -/
theorem plan_writtenFrom_around :
    letI := CallStack.uniform 4
    (plan inactiveTree .standard inactiveSites.listing).Gives [⟨28, 28, ": S.Type"⟩] ∧
      ¬(⟨28, 28, ": S.Type"⟩ : Edit).WrittenFrom IsAt inactiveTree .standard
        inactiveSites.listing := by
  let _ := CallStack.uniform 4
  refine ⟨value?_eq_some_iff.1 (by decide +kernel), fun hwritten => ?_⟩
  cases hwritten with
  | binding _ hlisted hsite hnode hat =>
    cases hlisted
    obtain rfl := List.mem_singleton.1 hsite
    have hnowhere : ∀ node ∈ inactiveTree.nodes, ¬node.IsAt ⟨"main.swift", 3, 7⟩ := by
      decide +kernel
    exact hnowhere _ hnode hat
  | call _ hlisted hsite =>
    cases hlisted
    cases hsite
  | closure _ hlisted hsite =>
    cases hlisted
    cases hsite

end TypeScribe
