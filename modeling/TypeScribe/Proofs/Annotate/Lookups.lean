import TypeScribe.Annotate.Plan
import TypeScribe.Proofs.Dump.Search

/-!
# What the lookups of a plan find

A plan looks for the type of a site in the dump: for a binding that of a node at its point, for a
call that of what is constructed there, for a closure that of the closure's node. Whatever a lookup
comes to is recorded for a node of the dump (`IsRecorded`). The node is for the point when it is
recorded there or its range starts there (`Node.IsAt`), or it is the answer of the search for that
point although it merely surrounds it (`Node.AnswersAround`).
-/

namespace TypeScribe

open Dump Plan

/-! ## Nodes for a point -/

namespace Dump.Node

/-- The node is recorded at the point, or over a range that starts there. -/
def IsAt (node : Node) (point : Point) : Prop :=
  node.location = some point ∨ node.range.map Range.start = some point

instance (node : Node) (point : Point) : Decidable (node.IsAt point) :=
  inferInstanceAs (Decidable (_ ∨ _))

/-- The search for the point answers with the node, which surrounds the point and is not for it. -/
structure AnswersAround (root : Node) (point : Point) (node : Node) : Prop where
  answers : (root.find point).map Found.node = some node
  surrounds : node.Surrounds point
  not_isAt : ¬node.IsAt point

/-- The node is for the point, or the search for the point answers with it all the same. -/
def AnswersFor (root : Node) (node : Node) (point : Point) : Prop :=
  node.IsAt point ∨ AnswersAround root point node

/-- The answer of a search is for its point, or it surrounds it. -/
theorem answersFor_of_find {root : Node} {point : Point} {found : Found}
    (h : root.find point = some found) : AnswersFor root found.node point := by
  by_cases hat : found.node.IsAt point
  · exact .inl hat
  · have hsurrounds := (find_spec h).2.resolve_left fun hlocation => hat (.inl hlocation)
    exact .inr ⟨by rw [h]; rfl, hsurrounds, hat⟩

end Dump.Node

open Dump.Node

/-! ## The lookups -/

/-- A call's type is recorded for a node that stands for the point: a constructor, or a node right
above one, or, where this has no type, the constructor below it. -/
inductive ConstructedBy (Stands : Node → Point → Prop) (root : Node) (point : Point)
    (text : String) : Prop
  | constructor {node : Node} : node ∈ root.nodes → Stands node point →
      node.name = constructorNode → node.type = some text → ConstructedBy Stands root point text
  | owner {node child : Node} : node ∈ root.nodes → Stands node point → child ∈ node.children →
      child.name = constructorNode → node.type = some text → ConstructedBy Stands root point text
  | below {node child : Node} : node ∈ root.nodes → Stands node point → child ∈ node.children →
      child.name = constructorNode → node.type = none → child.type = some text →
      ConstructedBy Stands root point text

section Lookups

variable {root : Node} {point : Point} {text : String}

/-- The type of a binding is that of a node for its point. -/
theorem exists_of_bindingType? (h : bindingType? root point = some text) :
    ∃ node ∈ root.nodes, AnswersFor root node point ∧ node.type = some text := by
  rw [bindingType?] at h
  split at h
  · next type htype =>
    cases h
    obtain ⟨found, hfound, htype⟩ := Option.bind_eq_some_iff.1 htype
    exact ⟨found.node, (find_spec hfound).1, answersFor_of_find hfound, htype⟩
  · obtain ⟨declared, hdeclared, htype⟩ := Option.bind_eq_some_iff.1 h
    obtain ⟨hmem, htyped⟩ := findWhere_spec hdeclared
    rw [isTypedFrom, Bool.and_eq_true, beq_iff_eq] at htyped
    exact ⟨declared, hmem, .inl (.inr htyped.2), htype⟩

/-- The constructed type is recorded at a constructor below the node that is found for the call. -/
theorem constructedBy_of_constructedType? {hit : Found} (hhit : root.find point = some hit)
    (h : constructedType? hit.node point = some text) :
    ConstructedBy (AnswersFor root) root point text := by
  have hmem := (find_spec hhit).1
  rw [constructedType?] at h
  split at h
  · next hname => exact .constructor hmem (answersFor_of_find hhit) hname h
  · split at h
    · cases h
    · next owner howner =>
      obtain ⟨hbelow, howns⟩ := findWhere_spec howner
      rw [ownsConstruction, Bool.and_eq_true, beq_iff_eq, List.any_eq_true] at howns
      obtain ⟨hlocation, child, hchild, hname⟩ := howns
      have hat : AnswersFor root owner point := .inl (.inl hlocation)
      split at h
      · next type htype =>
        cases h
        exact .owner (mem_nodes_trans hmem hbelow) hat hchild (beq_iff_eq.1 hname) htype
      · next hnone =>
        obtain ⟨first, hfirst, htype⟩ := Option.bind_eq_some_iff.1 h
        have hname := List.find?_some hfirst
        exact .below (mem_nodes_trans hmem hbelow) hat (List.mem_of_find?_eq_some hfirst)
          (beq_iff_eq.1 hname) hnone htype

/-- The node of a closure is a closure's and for its point. -/
theorem closureNode?_spec {node : Node} (h : closureNode? root point = some node) :
    node ∈ root.nodes ∧ AnswersFor root node point ∧ node.name = closureNode := by
  rw [closureNode?] at h
  split at h
  · cases h
  · next hit hhit =>
    have hmem := (find_spec hhit).1
    split at h
    · next hname =>
      cases h
      exact ⟨hmem, answersFor_of_find hhit, hname⟩
    · obtain ⟨hbelow, hclosure⟩ := findWhere_spec h
      rw [isClosureAt, Bool.and_eq_true, beq_iff_eq, beq_iff_eq] at hclosure
      exact ⟨mem_nodes_trans hmem hbelow, .inl (.inl hclosure.2), hclosure.1⟩

end Lookups

/-! ## Recorded types -/

/-- The text is the type of a node of the dump. -/
def IsRecorded (root : Node) (text : String) : Prop := ∃ node ∈ root.nodes, node.type = some text

section Recorded

variable {root : Node} {point : Point} {text : String}

/-- The type of a binding is recorded. -/
theorem isRecorded_of_bindingType? (h : bindingType? root point = some text) :
    IsRecorded root text := by
  obtain ⟨node, hnode, -, htype⟩ := exists_of_bindingType? h
  exact ⟨node, hnode, htype⟩

/-- So is what a call constructs. -/
theorem isRecorded_of_constructedType? {hit : Found} (hhit : root.find point = some hit)
    (h : constructedType? hit.node point = some text) : IsRecorded root text := by
  cases constructedBy_of_constructedType? hhit h with
  | constructor hnode _ _ htype => exact ⟨_, hnode, htype⟩
  | owner hnode _ _ _ htype => exact ⟨_, hnode, htype⟩
  | below hnode _ hchild _ _ htype =>
    exact ⟨_, mem_nodes_trans hnode (mem_nodes_of_mem_child hchild (mem_nodes_self _)), htype⟩

/-- And so is the type of a closure. -/
theorem isRecorded_of_closureNode? (h : (closureNode? root point).bind Node.type = some text) :
    IsRecorded root text := by
  obtain ⟨node, hnode, htype⟩ := Option.bind_eq_some_iff.1 h
  exact ⟨node, (closureNode?_spec hnode).1, htype⟩

end Recorded

end TypeScribe
