import TypeScribe.Proofs.Annotate.SiteOrder
import TypeScribe.Proofs.Dump.FindWhere
import TypeScribe.Proofs.SwiftType.Respelling

/-!
# What a constructor call is spelled with

A call is found under its own position together with the nodes wrapped around it: injections into
optionals, upcasts, and whatever else the compiler adds there. The type that is written is not
theirs. It is that of the one node at the position right above a constructor
(`constructedType?_of_only_owner`), wherever it stands among the others, and there is none if no
node does (`constructedType?_of_no_owner`).

What is written in the place of the callee is an explicit generic type: reading it again gives a
nominal type of the same names with as many arguments (`SwiftType.exists_parse_render_nominal`).
That needs more than the round trip of normal types, for a recorded type need not be normal, and
the arguments may be read as other types with the same spelling. These may also nest deeper than the
recorded ones, so that there is no room to read them (`plan_wideArray`).
-/

namespace TypeScribe

open Dump Dump.Node Logged Plan

/-! ## Looking through wrappers -/

namespace Plan

variable {hit owner : Node} {point : Point}

/-- The type of what a node constructs: its own, or else that of the first constructor right below
it. -/
structure Constructs (owner : Node) (type : Option String) : Prop where
  own : ∀ text, owner.type = some text → type = some text
  first : owner.type = none → ∀ before child after, owner.children = before ++ child :: after →
    child.name = constructorNode → (∀ other ∈ before, other.name ≠ constructorNode) →
    type = child.type

/-- The first owner below the hit tells the constructed type. -/
theorem constructedType?_of_findWhere (hname : hit.name ≠ constructorNode)
    (howner : hit.findWhere (ownsConstruction point) = some owner) :
    Constructs owner (constructedType? hit point) := by
  rw [constructedType?, if_neg hname, howner]
  constructor
  · intro text htext
    simp only [htext]
  · intro hnone before child after hchildren hchild hbefore
    have hfirst : owner.children.find? (·.name == constructorNode) = some child := by
      rw [hchildren, List.find?_append, List.find?_eq_none.2 (by simpa using hbefore),
        Option.none_or, List.find?_cons_of_pos (by simpa using hchild)]
    simp only [hnone, hfirst, Option.bind_some]

/-- If one node of the answer's tree alone is recorded at the point right above a constructor, the
type is the one that this node constructs. -/
theorem constructedType?_of_only_owner (hname : hit.name ≠ constructorNode)
    (howner : hit.nodes.filter (ownsConstruction point) = [owner]) :
    Constructs owner (constructedType? hit point) :=
  constructedType?_of_findWhere hname (findWhere_of_filter_eq_singleton howner)

/-- Without an owner below the hit, nothing is constructed. -/
theorem constructedType?_of_no_owner (hname : hit.name ≠ constructorNode)
    (hnone : hit.nodes.filter (ownsConstruction point) = []) :
    constructedType? hit point = none := by
  have hfind : hit.findWhere (ownsConstruction point) = none :=
    findWhere_eq_none_iff.2 fun below hbelow =>
      Bool.eq_false_iff.2 (List.filter_eq_nil_iff.1 hnone below hbelow)
  rw [constructedType?, if_neg hname, hfind]

end Plan

/-! ## Generic types read back -/

namespace SwiftType

open TypeScribe.Parser
open TypeScribe.SwiftType.Grammar

theorem mapParts_mapParts (f g : SwiftType → SwiftType) (found : SwiftType) :
    (found.mapParts f).mapParts g = found.mapParts (g ∘ f) := by
  cases found <;> simp [mapParts, TypeSegment.map, TypeElement.map, Function.comp_def]

/-- The arguments of a type whose parts are changed are the changed arguments. -/
theorem genericArguments_mapParts (f : SwiftType → SwiftType) (found : SwiftType) :
    (found.mapParts f).genericArguments = found.genericArguments.map f := by
  cases found with
  | nominal segments =>
    rw [mapParts, genericArguments, genericArguments, List.getLast?_map]
    cases segments.getLast? <;> rfl
  | _ => rfl

/-- The spelling of a well-formed nominal type is read as a nominal type of the same names, with
arguments that may be other types, or there is no room for these. -/
theorem exists_parse_render_nominal {segments : List (TypeSegment SwiftType)}
    (h : Everywhere WellFormed (.nominal segments)) :
    ∃ f, ∀ [CallStack],
      parse (render (.nominal segments)) = .ok (mapParts f (.nominal segments)) ∨
        CallStack.types ≤ (mapParts f (.nominal segments)).depth ∧
          parse (render (.nominal segments)) = .error (.stopped .tooDeep) := by
  have hnormal := fun part hpart => exists_normal_respells (h.inside part hpart)
  choose! f hf hrespells using hnormal
  have hparts : ∀ part ∈ (mapParts f (.nominal segments)).parts, part.Normal := by
    rw [parts_mapParts]
    exact List.forall_mem_map.2 hf
  have hwhole : (mapParts f (.nominal segments)).Normal :=
    normal_of_parts (wellFormed_mapParts h.here f) trivial hparts
  have hvoid : (mapParts f (.nominal segments)).voidResults =
      mapParts (voidResults ∘ f) (.nominal segments) := by
    rw [voidResults_eq, mapParts_mapParts]
    rfl
  refine ⟨voidResults ∘ f, fun {_} => ?_⟩
  rw [← hvoid, depth_voidResults]
  exact hwhole.parse_eq (respells_mapParts hrespells).chars.symm

/-- A nominal type of one name is well formed if its arguments are. -/
theorem everywhere_wellFormed_named {name : String} {arguments : List SwiftType}
    (hname : IsIdentifier name.toList) (hspecifier : name ∉ specifiers)
    (h : ∀ argument ∈ arguments, Everywhere WellFormed argument) :
    Everywhere WellFormed (named name arguments) := by
  refine .intro ⟨List.cons_ne_nil _ _, ?_, ?_⟩ (by simpa [named, parts] using h)
  · simpa using consumes_identifier_iff.2 hname
  · simpa using hspecifier

end SwiftType

namespace Plan

open TypeScribe.Parser
open TypeScribe.SwiftType TypeScribe.SwiftType.Grammar

/-- What is constructed is well-formed if the recorded type is. -/
theorem everywhere_wellFormed_constructed {type : SwiftType} (h : Everywhere WellFormed type) :
    Everywhere WellFormed (constructed type) := by
  cases type with
  | function parameters result effects => exact h.inside result (by simp [parts])
  | _ => exact h

/-- So is the type under the name that the call uses. -/
theorem everywhere_wellFormed_underName {type : SwiftType} (callee : String)
    (h : Everywhere WellFormed type) : Everywhere WellFormed (underName callee type) := by
  have hnamed {name : String} (hname : IsIdentifier name.toList) (hspecifier : name ∉ specifiers) :
      Everywhere WellFormed (named name type.parts) :=
    everywhere_wellFormed_named hname hspecifier h.inside
  unfold underName
  split
  · split
    · exact hnamed (.plain (by decide)) (by decide)
    · exact h
  · split
    · exact hnamed (.plain (by decide)) (by decide)
    · exact h
  · split
    · exact hnamed (.plain (by decide)) (by decide)
    · exact h
  · exact h

/-- What is written for a callee is the constructed type under the callee's name, a nominal type
with generic arguments. -/
theorem exists_of_calleeType? {callee : String} {type written : SwiftType}
    (h : calleeType? callee type = some written) :
    written = underName (withoutBackticks callee) (constructed type) ∧
      (∃ segments, written = .nominal segments) ∧ 0 < written.genericArguments.length := by
  rw [calleeType?] at h
  split at h
  · next segments hsegments =>
    split at h
    · cases h
    · next hne =>
      cases h
      refine ⟨hsegments.symm, ⟨segments, rfl⟩, List.length_pos_iff.2 ?_⟩
      simpa using hne
  · cases h

/-- What is written for a callee is read as a nominal type with as many generic arguments, if there
is room for it. -/
theorem exists_parse_of_calleeType? [CallStack] {callee text : String} {type written : SwiftType}
    (hparse : SwiftType.parse text = .ok type) (h : calleeType? callee type = some written) :
    ∃ segments,
      (SwiftType.nominal segments).genericArguments.length = written.genericArguments.length ∧
      ∀ [CallStack], SwiftType.parse written.render = .ok (.nominal segments) ∨
        CallStack.types ≤ (SwiftType.nominal segments).depth ∧
          SwiftType.parse written.render = .error (.stopped .tooDeep) := by
  obtain ⟨hwritten, ⟨segments, rfl⟩, -⟩ := exists_of_calleeType? h
  have hwell : Everywhere WellFormed (.nominal segments) := by
    rw [hwritten]
    exact everywhere_wellFormed_underName _
      (everywhere_wellFormed_constructed (everywhere_wellFormed_of_parse hparse))
  obtain ⟨f, hread⟩ := exists_parse_render_nominal hwell
  refine ⟨segments.map (TypeSegment.map f), ?_, hread⟩
  have harguments := genericArguments_mapParts f (.nominal segments)
  rw [mapParts] at harguments
  rw [harguments, List.length_map]

end Plan

/-! ## Calls of a plan -/

section
variable [CallStack]

/-- A plan that succeeds has the edits of all calls, if calls are annotated. -/
theorem mem_of_callEdit_gives {root : Node} {settings : Settings} {sites : SiteListing}
    {edits : List Edit} {calls : List CallSite} {site : CallSite} {edit : Edit}
    (hplan : (plan root settings sites).Gives edits) (hon : settings.annotateCalls = true)
    (hcalls : sites.calls = .ok calls) (hsite : site ∈ calls)
    (hedit : (callEdit root (recordedFileName root sites.fileName) site).Gives (some edit)) :
    edit ∈ edits := by
  obtain ⟨made, h, hmade⟩ := step_gives_cases hplan
  obtain ⟨_, h, -⟩ := step_gives_cases h
  obtain ⟨_, h, -⟩ := step_gives_cases h
  cases h
  have hmade := hmade.gives hcalls hon
  rw [callEdits_eq_inTurn] at hmade
  obtain rfl := eq_flatMap_of_inTurn_gives hmade
  have hmem : ((site.line, site.column), edit) ∈ calls.flatMap
      (madeFor (callEdit root (recordedFileName root sites.fileName)) placeCall) := by
    refine List.mem_flatMap.2 ⟨site, hsite, ?_⟩
    rw [madeFor_of_gives hedit]
    exact List.mem_cons_self
  rw [Edit.mem_sort, List.append_assoc]
  exact List.mem_append_left _ (List.mem_map_of_mem hmem)

/-- A call of a bare type name is edited if a generic type is recorded for it and can be written. -/
theorem callEdit_gives {root : Node} {fileName text : String} {site : CallSite} {hit : Found}
    {type written : SwiftType}
    (hbare : (site.hasGenericArguments || !isTypeName site.callee) = false)
    (hhit : root.find ⟨fileName, site.line, site.column⟩ = some hit)
    (htext : constructedType? hit.node ⟨fileName, site.line, site.column⟩ = some text)
    (hparse : SwiftType.parse text = .ok type)
    (hwritten : calleeType? site.callee type = some written)
    (hroom : written.depth ≤ CallStack.spelled) :
    (callEdit root fileName site).Gives
      (some ⟨site.calleeStart, site.calleeEnd, written.render⟩) := by
  have hread : (readType text).Gives (some type) := by
    rw [readType, hparse]
    exact gives_pure _
  have hmade : (makeRoom [written]).Gives () := by
    rw [makeRoom, if_pos (by simpa using hroom)]
    exact gives_pure _
  rw [callEdit, hbare, if_neg Bool.false_ne_true]
  dsimp only
  rw [hhit]
  dsimp only
  rw [htext]
  refine hread.bind ?_
  rw [Option.bind_some, hwritten]
  exact hmade.bind (gives_pure _)

/-- Wrappers do not leak their types into constructor calls. Where the answer for a point is not
itself a constructor, and one node alone of its tree is recorded at the point right above one, the
type of the call is what this node constructs, and where there is no such node the call has no type.
And every edit of a call that a plan makes spells the constructed type under the callee's name, in a
text that belongs to one nominal type with as many generic arguments, which are not none: on any
call stack that type is read from it, if there is room for more levels than it has, or the text is
too deep. -/
theorem calls_spelled_by_owner (root : Node) (settings : Settings) (sites : SiteListing) :
    (∀ point hit, root.find point = some hit → hit.node.name ≠ constructorNode →
      (∀ owner, hit.node.nodes.filter (ownsConstruction point) = [owner] →
        Constructs owner (constructedType? hit.node point)) ∧
      (hit.node.nodes.filter (ownsConstruction point) = [] →
        constructedType? hit.node point = none)) ∧
    ∀ edits calls, (plan root settings sites).Gives edits → settings.annotateCalls = true →
      sites.calls = .ok calls → ∀ site ∈ calls, ∀ edit,
      (callEdit root (recordedFileName root sites.fileName) site).Gives (some edit) →
      edit ∈ edits ∧ ∃ hit text type written segments,
        root.find ⟨recordedFileName root sites.fileName, site.line, site.column⟩ = some hit ∧
        constructedType? hit.node ⟨recordedFileName root sites.fileName, site.line, site.column⟩ =
          some text ∧
        SwiftType.parse text = .ok type ∧
        written = underName (withoutBackticks site.callee) (constructed type) ∧
        edit = ⟨site.calleeStart, site.calleeEnd, written.render⟩ ∧
        (SwiftType.nominal segments).genericArguments.length = written.genericArguments.length ∧
        0 < written.genericArguments.length ∧
        ∀ [CallStack], SwiftType.parse edit.text = .ok (.nominal segments) ∨
          CallStack.types ≤ (SwiftType.nominal segments).depth ∧
            SwiftType.parse edit.text = .error (.stopped .tooDeep) := by
  refine ⟨fun point hit _ hname => ⟨fun owner => constructedType?_of_only_owner hname,
    constructedType?_of_no_owner hname⟩, ?_⟩
  intro edits calls hplan hon hcalls site hsite edit hedit
  obtain ⟨-, -, hit, text, type, written, hhit, htext, hparse, hwritten, rfl⟩ :=
    exists_of_callEdit_gives root _ hedit
  obtain ⟨hspelled, -, hpos⟩ := exists_of_calleeType? hwritten
  obtain ⟨segments, hcount, hread⟩ := exists_parse_of_calleeType? hparse hwritten
  exact ⟨mem_of_callEdit_gives hplan hon hcalls hsite hedit, hit, text, type, written, segments,
    hhit, htext, hparse, hspelled, rfl, hcount, hpos, hread⟩

end

/-- What is recorded of `Box(Box(1))` where an optional of a base class is expected: the call, and
around it an upcast and an injection. -/
def upcastCall : Node :=
  nodeAt "call_expr" "Box<Box<Int>>" 20
    [nodeAt constructorNode "(Box<Int>) -> Box<Box<Int>>" 20 [], boxCall 24]

/-- The nodes wrapped around the call. -/
def upcastWrapper : Node :=
  nodeAt "inject_into_optional_expr" "Base<Box<Int>>?" 20
    [nodeAt "derived_to_base_expr" "Base<Box<Int>>" 20 [upcastCall]]

/-- The whole dump. -/
def upcastTree : Node := ⟨"source_file", [], [], [upcastWrapper]⟩

/-- The two calls. -/
def upcastSites : SiteLists where
  fileName := "main.swift"
  calls := [⟨"Box", 1, 20, 19, 22, false⟩, ⟨"Box", 1, 24, 23, 26, false⟩]
  bindings := []
  closures := []

/-- Neither the wrappers nor the argument give their types to the outer call, whose text is read
again. -/
theorem calls_spelled_by_owner_upcast :
    letI := CallStack.uniform 4
    upcastTree.find ⟨"main.swift", 1, 20⟩ = some ⟨[0], upcastWrapper⟩ ∧
      upcastWrapper.nodes.filter (ownsConstruction ⟨"main.swift", 1, 20⟩) = [upcastCall] ∧
      constructedType? upcastWrapper ⟨"main.swift", 1, 20⟩ = some "Box<Box<Int>>" ∧
      (plan upcastTree .standard upcastSites.listing).Gives
        [⟨19, 22, "Box<Box<Int>>"⟩, ⟨23, 26, "Box<Int>"⟩] ∧
      ∃ segments, 0 < (SwiftType.nominal segments).genericArguments.length ∧
        ∀ [CallStack], SwiftType.parse "Box<Box<Int>>" = .ok (.nominal segments) ∨
          CallStack.types ≤ (SwiftType.nominal segments).depth ∧
            SwiftType.parse "Box<Box<Int>>" = .error (.stopped .tooDeep) := by
  let _ := CallStack.uniform 4
  have hfind : upcastTree.find ⟨"main.swift", 1, 20⟩ = some ⟨[0], upcastWrapper⟩ := by rfl
  have howner : upcastWrapper.nodes.filter (ownsConstruction ⟨"main.swift", 1, 20⟩) =
      [upcastCall] := by rfl
  have hplan : (plan upcastTree .standard upcastSites.listing).Gives
      [⟨19, 22, "Box<Box<Int>>"⟩, ⟨23, 26, "Box<Int>"⟩] := value?_eq_some_iff.1 (by decide +kernel)
  have hcall : (callEdit upcastTree (recordedFileName upcastTree "main.swift")
      ⟨"Box", 1, 20, 19, 22, false⟩).Gives (some ⟨19, 22, "Box<Box<Int>>"⟩) :=
    value?_eq_some_iff.1 (by decide +kernel)
  obtain ⟨hwrapped, hcalls⟩ := calls_spelled_by_owner upcastTree .standard upcastSites.listing
  obtain ⟨hone, -⟩ := hwrapped _ _ hfind (by decide)
  obtain ⟨-, _, _, _, _, segments, -, -, -, -, -, hcount, hpos, hread⟩ :=
    hcalls _ _ hplan rfl rfl _ List.mem_cons_self _ hcall
  exact ⟨hfind, howner, (hone _ howner).own _ rfl, hplan, segments, hcount ▸ hpos, hread⟩

/-- What is recorded of a call of `Array` that makes an array of wide compositions. -/
def wideArrayCall (n : Nat) : Node :=
  nodeAt "call_expr" (SwiftType.wideArrayText n) 9 [nodeAt constructorNode "() -> Any" 9 []]

/-- The whole dump. -/
def wideArrayTree (n : Nat) : Node := ⟨"source_file", [], [], [wideArrayCall n]⟩

/-- The call. -/
def wideArraySites : SiteLists where
  fileName := "main.swift"
  calls := [⟨"Array", 1, 9, 8, 13, false⟩]
  bindings := []
  closures := []

open SwiftType in
/-- With room for a thousand levels, a call may be spelled with a type that is not read again. -/
theorem plan_wideArray :
    letI := CallStack.uniform 1000
    (plan (wideArrayTree 1000) .standard wideArraySites.listing).Gives
        [⟨8, 13, (named "Array" [wide 1000]).render⟩] ∧
      SwiftType.parse (named "Array" [wide 1000]).render = .error (.stopped .tooDeep) := by
  let _ := CallStack.uniform 1000
  refine ⟨?_, parse_render_arrayOf_wide (Nat.le_refl 1000)⟩
  have hhit : (wideArrayTree 1000).find ⟨"main.swift", 1, 9⟩ = some ⟨[0], wideArrayCall 1000⟩ := rfl
  have hparse : SwiftType.parse (wideArrayText 1000) = .ok (.array (wide 1000)) :=
    parse_wideArrayText (show 4 < 1000 by decide) (by decide)
  have hwritten : calleeType? "Array" (.array (wide 1000)) = some (named "Array" [wide 1000]) := rfl
  have hroom : (named "Array" [wide 1000]).depth ≤ 1000 := by
    rw [depth_eq, named, parts]
    simp [depthOfAll, depth_wide]
  have hcall : (callEdit (wideArrayTree 1000) "main.swift" ⟨"Array", 1, 9, 8, 13, false⟩).Gives
      (some ⟨8, 13, (named "Array" [wide 1000]).render⟩) :=
    callEdit_gives rfl hhit rfl hparse hwritten hroom
  have hcalls : (callEdits (wideArrayTree 1000) "main.swift" wideArraySites.calls).Gives
      [((1, 9), ⟨8, 13, (named "Array" [wide 1000]).render⟩)] := by
    have hnone : (callEdits (wideArrayTree 1000) "main.swift" []).Gives [] := gives_pure []
    exact hcall.bind (hnone.bind (gives_pure _))
  have hbindings : (bindingEdits (wideArrayTree 1000) "main.swift" [(1, 9)] []).Gives [] :=
    gives_pure []
  have hclosures : (allClosureEdits (wideArrayTree 1000) "main.swift" []).Gives [] := gives_pure []
  exact (gives_ofExcept rfl).bind (hcalls.bind ((gives_ofExcept rfl).bind (hbindings.bind
    ((gives_ofExcept rfl).bind (hclosures.bind (gives_pure _))))))

end TypeScribe
