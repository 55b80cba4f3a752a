import TypeScribe.Proofs.Annotate.Idempotence
import TypeScribe.Proofs.Annotate.Safety
import TypeScribe.Proofs.Source.Nested

/-!
# Bindings that are left to their initializers

A plan gives a binding no type when its initializer is a call and a call is edited at the same
position. The two are matched by their positions only, one that of the initializer and one that of
a callee. In the tree of a Swift file (`SyntaxNode.ReadsAsSwift`) this means that the initializer
starts with the edited call (`SourceFile.StartsWithEdit`), and where the initializer is the call of
a bare name, that it is the edited call (`exists_startsWithEdit_of_leftToCalls`).

It need not be the call of a bare name: `Box(1).get()` starts with the call of `Box`, and the
binding of its result is left without a type (`leftToCalls_of_chained`).
-/

namespace TypeScribe

open Dump Logged Plan SourceFile

/-! ## Calls in a tree -/

namespace SyntaxNode

/-- A tree as a Swift parser gives it for some text. -/
structure ReadsAsSwift (root : SyntaxNode) : Prop extends Nested root where
  /-- Line and column tell where a node starts. -/
  placed : ∀ a ∈ root.nodes, ∀ b ∈ root.nodes, a.position = b.position → a.start = b.start
  /-- A call is not empty. -/
  call_wide : ∀ call ∈ root.nodes, call.kind ∈ callKinds → call.start < call.stop
  /-- There is no call in a name. -/
  name_plain : ∀ name ∈ root.nodes,
    name.kind = "simple_identifier" ∨ name.kind = "type_identifier" →
      ∀ below ∈ name.nodes, below.kind ∉ callKinds

namespace ReadsAsSwift

variable {root call other callee : SyntaxNode} {generic : Bool}

/-- A call lies in every call that its callee lies in: between the call and its callee there is no
other call. -/
theorem call_mem_of_callee_mem (h : root.ReadsAsSwift) (hcall : call ∈ root.nodes)
    (hcallee : callee? call = some (callee, generic)) (hwide : callee.start < callee.stop)
    (hother : other ∈ root.nodes) (hkind : other.kind ∈ callKinds) (hin : callee ∈ other.nodes) :
    call ∈ other.nodes := by
  have hnested := h.toNested.of_mem hcall
  have hcallee' := callee_mem_nodes hcallee
  have hcallSpan := hnested.mem_inside hcallee'
  have hotherSpan := (h.toNested.of_mem hother).mem_inside hin
  obtain ⟨hname, hplace⟩ := mem_of_callee?_eq_some hcallee
  have hplain := h.name_plain callee (mem_nodes_trans hcall hcallee') hname
  rcases h.toNested.mem_or_mem_of_overlap hcall hother (by omega) (by omega) with hmem | hmem
  · exact hmem
  -- The other call lies in this one, so it is this one or lies in the child with the callee.
  rw [nodes_eq_cons] at hmem
  rcases List.mem_cons.1 hmem with rfl | hmem
  · exact mem_nodes_self other
  obtain ⟨child, hchild, hmem⟩ := List.mem_flatMap.1 hmem
  have hbelow := mem_nodes_trans hmem hin
  rcases hplace with hplace | ⟨type, htype, htypeKind, hplace⟩
  · obtain rfl := hnested.eq_of_common hchild hplace hbelow (mem_nodes_self callee) hwide
    exact absurd hkind (hplain other hmem)
  · obtain rfl := hnested.eq_of_common hchild htype hbelow
      (mem_nodes_of_mem_child hplace (mem_nodes_self callee)) hwide
    rw [nodes_eq_cons] at hmem
    rcases List.mem_cons.1 hmem with rfl | hmem
    · rw [htypeKind] at hkind
      exact absurd hkind (by decide)
    · obtain ⟨part, hpart, hmem⟩ := List.mem_flatMap.1 hmem
      obtain rfl := (hnested.of_child htype).eq_of_common hpart hplace (mem_nodes_trans hmem hin)
        (mem_nodes_self callee) hwide
      exact absurd hkind (hplain other hmem)

/-- A call whose callee stands at the start of another call lies in that call. -/
theorem call_mem_of_same_start (h : root.ReadsAsSwift) (hcall : call ∈ root.nodes)
    (hcallee : callee? call = some (callee, generic)) (hwide : callee.start < callee.stop)
    (hother : other ∈ root.nodes) (hkind : other.kind ∈ callKinds)
    (hstart : callee.start = other.start) : call ∈ other.nodes := by
  have hotherWide := h.call_wide other hother hkind
  have hmem := mem_nodes_trans hcall (callee_mem_nodes hcallee)
  rcases h.toNested.mem_or_mem_of_overlap hmem hother (by omega) (by omega) with hin | hin
  · exact h.call_mem_of_callee_mem hcall hcallee hwide hother hkind hin
  · have hname := (mem_of_callee?_eq_some hcallee).1
    exact absurd hkind (h.name_plain callee hmem hname other hin)

/-- Two calls of names that stand at one place are one call. -/
theorem call_eq_of_same_start (h : root.ReadsAsSwift) {own : SyntaxNode} {generic' : Bool}
    (hcall : call ∈ root.nodes) (hkind : call.kind ∈ callKinds)
    (hcallee : callee? call = some (callee, generic)) (hwide : callee.start < callee.stop)
    (hother : other ∈ root.nodes) (hotherKind : other.kind ∈ callKinds)
    (hown : callee? other = some (own, generic')) (hownWide : own.start < own.stop)
    (hownStart : own.start = other.start) (hstart : callee.start = other.start) :
    call = other := by
  have hin := h.call_mem_of_same_start hcall hcallee hwide hother hotherKind hstart
  have houter := (h.toNested.of_mem hother).mem_inside hin
  have hinner := (h.toNested.of_mem hcall).mem_inside (callee_mem_nodes hcallee)
  have hback := h.call_mem_of_same_start hother hown hownWide hcall hkind (by omega)
  exact eq_of_mem_of_mem hin hback

end ReadsAsSwift

end SyntaxNode

open SyntaxNode

/-! ## Sites and their nodes -/

namespace SourceFile

variable {file : SourceFile}

/-- The siblings of a pattern are children of its declaration. -/
theorem siblings_sub_of_mem_patternGroups {children : List SyntaxNode}
    {group : SyntaxNode × List SyntaxNode} (h : group ∈ patternGroups children) :
    ∀ sibling ∈ group.2, sibling ∈ children := by
  induction children with
  | nil => cases h
  | cons child rest ih =>
    intro sibling hsibling
    rw [patternGroups_cons] at h
    split at h
    · rcases List.mem_cons.1 h with rfl | h
      · exact List.mem_cons_of_mem _ ((List.takeWhile_sublist _).subset hsibling)
      · exact List.mem_cons_of_mem _ (ih h sibling hsibling)
    · exact List.mem_cons_of_mem _ (ih h sibling hsibling)

theorem mem_of_initializer?_eq_some {siblings : List SyntaxNode} {value : SyntaxNode}
    (h : initializer? siblings = some value) : value ∈ siblings :=
  (List.dropWhile_sublist _).subset (List.mem_of_mem_tail (List.mem_of_find?_eq_some h))

/-- A listed call belongs to a call of the tree. -/
theorem exists_of_mem_calls {calls : List CallSite} {site : CallSite}
    (h : file.calls = .ok calls) (hsite : site ∈ calls) :
    ∃ call ∈ file.root.nodes, call.kind ∈ callKinds ∧ ∃ callee generic,
      callee? call = some (callee, generic) ∧ file.callSite callee generic = .ok site := by
  obtain ⟨⟨callee, generic⟩, hfound, hok⟩ := exists_of_mem_mapM h hsite
  obtain ⟨call, hcall, hcallee⟩ := List.mem_filterMap.1 hfound
  rw [ofKinds_eq_filter, List.mem_filter, List.contains_iff_mem] at hcall
  exact ⟨call, hcall.1, hcall.2, callee, generic, hcallee, hok⟩

/-- A listed binding belongs to a pattern of a declaration. -/
theorem exists_of_mem_bindings {bindings : List BindingSite} {site : BindingSite}
    (h : file.bindings = .ok bindings) (hsite : site ∈ bindings) :
    ∃ declaration ∈ file.root.nodes, declaration.kind = "property_declaration" ∧
      ∃ group ∈ patternGroups declaration.children,
        file.bindingSite group.1 group.2 = .ok site := by
  obtain ⟨group, hgroup, hok⟩ := exists_of_mem_mapM h hsite
  obtain ⟨declaration, hdeclaration, hgroup⟩ := List.mem_flatMap.1 hgroup
  rw [ofKinds_eq_filter, List.mem_filter, List.contains_iff_mem, List.mem_singleton]
    at hdeclaration
  exact ⟨declaration, hdeclaration.1, hdeclaration.2, group, hgroup, hok⟩

/-- What a call site says is what stands at the callee. -/
theorem callSite_eq_ok {callee : SyntaxNode} {generic : Bool} {site : CallSite}
    (h : file.callSite callee generic = .ok site) :
    file.textOf callee = .ok site.callee ∧ (site.line, site.column) = callee.position ∧
      site.hasGenericArguments = generic := by
  rw [callSite] at h
  cases htext : file.textOf callee with
  | error fault =>
    rw [htext] at h
    cases h
  | ok name =>
    rw [htext] at h
    cases h
    exact ⟨rfl, rfl, rfl⟩

/-- The position that a binding site gives for its initializer is that of a call that is the
initializer. -/
theorem initializerCall_of_bindingSite_eq_ok {pattern : SyntaxNode} {siblings : List SyntaxNode}
    {site : BindingSite} {position : Int × Int} (h : file.bindingSite pattern siblings = .ok site)
    (hposition : site.initializerCall = some position) :
    ∃ value, initializer? siblings = some value ∧ value.kind ∈ callKinds ∧
      value.position = position := by
  rw [bindingSite] at h
  cases htext : file.textOf pattern with
  | error fault =>
    rw [htext] at h
    cases h
  | ok name =>
    rw [htext] at h
    cases h
    obtain ⟨value, hvalue, rfl⟩ := Option.map_eq_some_iff.1 hposition
    rw [Option.filter_eq_some_iff, List.contains_iff_mem] at hvalue
    exact ⟨value, hvalue.1, hvalue.2, rfl⟩

/-- A node with a text is not empty. -/
theorem start_lt_stop_of_textOf {node : SyntaxNode} {written : String}
    (h : file.textOf node = .ok written) (hne : written ≠ "") : node.start < node.stop := by
  by_contra hempty
  have hnil : Text.byteSlice file.bytes node.start node.stop = [] := by
    rw [Text.byteSlice, Nat.sub_eq_zero_of_le (Nat.not_lt.1 hempty), List.take_zero]
  have hdecode : Text.decode? [] = some "" := by decide +kernel
  rw [textOf, decode, hnil, hdecode] at h
  exact hne (Except.ok.inj h).symm

end SourceFile

section
variable [CallStack]

/-- A binding that a plan leaves to a call has its initializer at the position of an edited call. -/
theorem exists_of_mem_leftToCalls {root : Node} {settings : Settings} {sites : SiteLists}
    {site : BindingSite} (h : site ∈ sites.leftToCalls root settings) :
    site ∈ sites.bindings ∧ ∃ call ∈ sites.calls,
      site.initializerCall = some (call.line, call.column) ∧
      ∃ edit, (callEdit root (recordedFileName root sites.fileName) call).Gives (some edit) := by
  rw [SiteLists.leftToCalls] at h
  split at h
  case isFalse => cases h
  obtain ⟨hsite, hspelled⟩ := List.mem_filter.1 h
  rw [isSpelledByCall] at hspelled
  split at hspelled
  case h_2 => cases hspelled
  next position hposition =>
    rw [List.contains_iff_mem, SiteLists.editedCalls] at hspelled
    split at hspelled
    case isFalse => cases hspelled
    obtain ⟨pair, hpair, rfl⟩ := List.mem_map.1 hspelled
    -- There is an edited call, so the edits of the calls can be made.
    cases hmade : (callEdits root (recordedFileName root sites.fileName) sites.calls).value? with
    | none =>
      rw [hmade] at hpair
      cases hpair
    | some made =>
      rw [hmade] at hpair
      obtain ⟨call, hcall, hcallPosition, hedit⟩ :=
        exists_of_mem_callEdits root _ (value?_eq_some_iff.1 hmade) hpair
      exact ⟨hsite, call, hcall, hcallPosition ▸ hposition, pair.2, hedit⟩

/-! ## The edited call -/

/-- The binding's initializer starts with a call that is edited. -/
structure SourceFile.StartsWithEdit (file : SourceFile) (root : Node) (site : BindingSite)
    (value call : SyntaxNode) : Prop where
  /-- The binding belongs to a pattern with this initializer. -/
  binding : ∃ declaration ∈ file.root.nodes, declaration.kind = "property_declaration" ∧
    ∃ group ∈ patternGroups declaration.children,
      file.bindingSite group.1 group.2 = .ok site ∧ initializer? group.2 = some value
  value_kind : value.kind ∈ callKinds
  call_kind : call.kind ∈ callKinds
  /-- The call is the initializer or a part of it. -/
  call_mem : call ∈ value.nodes
  /-- The callee is replaced, and it stands where the initializer starts. -/
  edited : ∃ callee, callee? call = some (callee, false) ∧ callee.start = value.start ∧
    ∃ callSite edit, file.callSite callee false = .ok callSite ∧
      (callEdit root (recordedFileName root file.name) callSite).Gives (some edit)

/-- A binding that a plan leaves to a call has an initializer that starts with an edited call. If
the initializer is itself the call of a bare name, which stands at its start, it is the edited
call. -/
theorem exists_startsWithEdit_of_leftToCalls (file : SourceFile) (root : Node)
    (settings : Settings) (htree : file.root.ReadsAsSwift) {calls : List CallSite}
    {bindings : List BindingSite} {closures : List ClosureSite} (hcalls : file.calls = .ok calls)
    (hbindings : file.bindings = .ok bindings) {site : BindingSite}
    (hleft : site ∈ SiteLists.leftToCalls root settings ⟨file.name, calls, bindings, closures⟩) :
    ∃ value call, file.StartsWithEdit root site value call ∧
      ∀ own generic, callee? value = some (own, generic) → own.start = value.start →
        own.start < own.stop → call = value := by
  obtain ⟨hsite, callSite, hcallSite, hinitializer, edit, hedit⟩ := exists_of_mem_leftToCalls hleft
  obtain ⟨call, hcall, hkind, callee, generic, hcallee, hcallOk⟩ :=
    exists_of_mem_calls hcalls hcallSite
  obtain ⟨declaration, hdeclaration, hdeclared, group, hgroup, hbinding⟩ :=
    exists_of_mem_bindings hbindings hsite
  obtain ⟨value, hvalue, hvalueKind, hposition⟩ :=
    initializerCall_of_bindingSite_eq_ok hbinding hinitializer
  obtain ⟨htext, hcallPosition, hgeneric⟩ := callSite_eq_ok hcallOk
  obtain ⟨hbare, hname, -⟩ := exists_of_callEdit_gives root _ hedit
  obtain rfl : generic = false := hgeneric.symm.trans hbare
  have hvalueMem : value ∈ file.root.nodes := mem_nodes_of_child_mem hdeclaration
    (siblings_sub_of_mem_patternGroups hgroup value (mem_of_initializer?_eq_some hvalue))
  -- The positions agree, so the callee starts where the initializer does; and it is not empty.
  have hstart : callee.start = value.start :=
    htree.placed callee (mem_nodes_trans hcall (callee_mem_nodes hcallee)) value hvalueMem
      (hcallPosition.symm.trans hposition.symm)
  have hwide : callee.start < callee.stop :=
    start_lt_stop_of_textOf htext fun hempty => by
      rw [hempty] at hname
      exact absurd hname (by decide)
  refine ⟨value, call, ⟨⟨declaration, hdeclaration, hdeclared, group, hgroup, hbinding, hvalue⟩,
    hvalueKind, hkind,
    htree.call_mem_of_same_start hcall hcallee hwide hvalueMem hvalueKind hstart,
    ⟨callee, hcallee, hstart, callSite, edit, hcallOk, hedit⟩⟩, ?_⟩
  intro own generic' hown hownStart hownWide
  exact htree.call_eq_of_same_start hcall hkind hcallee hwide hvalueMem hvalueKind hown hownWide
    hownStart hstart

end

/-- The tree of `let n = value` on the first line. -/
def bindingTree (value : SyntaxNode) : SyntaxNode :=
  nodeOnFirstLine "source_file" 0 value.stop [
    nodeOnFirstLine "property_declaration" 0 value.stop [
      nodeOnFirstLine "value_binding_pattern" 0 3 [],
      nodeOnFirstLine "pattern" 4 5 [nodeOnFirstLine "simple_identifier" 4 5 []],
      nodeOnFirstLine "=" 6 7 [],
      value]]

/-- `Box(1)` as an initializer. -/
def boxNode : SyntaxNode :=
  nodeOnFirstLine "call_expression" 8 14 [
    nodeOnFirstLine "simple_identifier" 8 11 [], nodeOnFirstLine "call_suffix" 11 14 []]

/-- The file whose sites are `boxSites`. -/
def boxFile : SourceFile := ⟨"main.swift", Text.encode "let b = Box(1)", bindingTree boxNode⟩

/-- The initializer of `let b = Box(1)` is the edited call. -/
theorem exists_startsWithEdit_boxFile :
    letI := CallStack.uniform 4
    boxFile.root.ReadsAsSwift ∧ boxFile.calls = .ok boxSites.calls ∧
      boxFile.bindings = .ok boxSites.bindings ∧
      boxSites.leftToCalls boxTree .standard = boxSites.bindings ∧
      ∀ site ∈ boxSites.bindings, ∃ value call, boxFile.StartsWithEdit boxTree site value call ∧
        ∀ own generic, callee? value = some (own, generic) → own.start = value.start →
          own.start < own.stop → call = value := by
  let _ := CallStack.uniform 4
  have htree : boxFile.root.ReadsAsSwift :=
    { inside := by decide +kernel
      ordered := by decide +kernel
      placed := by decide +kernel
      call_wide := by decide +kernel
      name_plain := by decide +kernel }
  have hcalls : boxFile.calls = .ok boxSites.calls := by decide +kernel
  have hbindings : boxFile.bindings = .ok boxSites.bindings := by decide +kernel
  have hleft : boxSites.leftToCalls boxTree .standard = boxSites.bindings := by decide +kernel
  refine ⟨htree, hcalls, hbindings, hleft, fun site hsite => ?_⟩
  have hsite' : site ∈ boxSites.leftToCalls boxTree .standard := hleft ▸ hsite
  exact exists_startsWithEdit_of_leftToCalls boxFile boxTree .standard htree hcalls hbindings hsite'

/-- `Box(1).get()` as an initializer. -/
def chainedNode : SyntaxNode :=
  nodeOnFirstLine "call_expression" 8 20 [
    nodeOnFirstLine "navigation_expression" 8 18 [boxNode,
      nodeOnFirstLine "navigation_suffix" 14 18 [nodeOnFirstLine "simple_identifier" 15 18 []]],
    nodeOnFirstLine "call_suffix" 18 20 []]

/-- A file that binds the result of a method. -/
def chainedFile : SourceFile :=
  ⟨"main.swift", Text.encode "let n = Box(1).get()", bindingTree chainedNode⟩

/-- What is recorded of `let n = Box(1).get()`. -/
def chainedTree : Node :=
  ⟨"source_file", [], [], [
    ⟨"pattern_binding_decl", [.range ⟨⟨"main.swift", 1, 1⟩, ⟨"main.swift", 1, 20⟩⟩], [],
      [nodeAt "call_expr" "Int" 16 [boxCall 9]]⟩,
    ⟨"var_decl", [.range ⟨⟨"main.swift", 1, 5⟩, ⟨"main.swift", 1, 5⟩⟩, .type "Int"], [], []⟩]⟩

/-- The sites of `let n = Box(1).get()`. -/
def chainedSites : SiteLists where
  fileName := "main.swift"
  calls := [⟨"Box", 1, 9, 8, 11, false⟩]
  bindings := [⟨"n", 1, 5, 5, false, true, false, some (1, 9)⟩]
  closures := []

/-- The binding is left to the call of `Box`, though its initializer is the call of a method on the
result and has no bare name as its callee; it is left without the type that is recorded for it. -/
theorem leftToCalls_of_chained :
    letI := CallStack.uniform 4
    chainedFile.root.ReadsAsSwift ∧ chainedFile.calls = .ok chainedSites.calls ∧
      chainedFile.bindings = .ok chainedSites.bindings ∧
      (plan chainedTree .standard chainedFile.sites).Gives [⟨8, 11, "Box<Int>"⟩] ∧
      chainedSites.leftToCalls chainedTree .standard = chainedSites.bindings ∧
      (∀ declaration ∈ chainedFile.root.nodes, declaration.kind = "property_declaration" →
        ∀ group ∈ patternGroups declaration.children,
          (initializer? group.2).any fun value => (callee? value).isNone) ∧
      ∀ site ∈ chainedSites.bindings,
        (bindingEdit chainedTree "main.swift" site).Gives (some ⟨5, 5, ": Int"⟩) := by
  let _ := CallStack.uniform 4
  have htree : chainedFile.root.ReadsAsSwift :=
    { inside := by decide +kernel
      ordered := by decide +kernel
      placed := by decide +kernel
      call_wide := by decide +kernel
      name_plain := by decide +kernel }
  have hplan : (plan chainedTree .standard chainedFile.sites).Gives [⟨8, 11, "Box<Int>"⟩] :=
    value?_eq_some_iff.1 (by decide +kernel)
  refine ⟨htree, by decide +kernel, by decide +kernel, hplan, by decide +kernel,
    by decide +kernel, fun site hsite => ?_⟩
  obtain rfl := List.mem_singleton.1 hsite
  exact value?_eq_some_iff.1 (by decide +kernel)

end TypeScribe
