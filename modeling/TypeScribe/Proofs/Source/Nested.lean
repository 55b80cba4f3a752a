import TypeScribe.Proofs.Source.Nodes

/-!
# Nested trees

In a tree whose children lie inside their node and stand in order (`SyntaxNode.Nested`), any two
nodes that overlap lie one in the other (`Nested.mem_or_mem_of_overlap`). In particular a stretch
that is not empty belongs to one child of a node at most (`Nested.eq_of_common`).
-/

namespace TypeScribe.SyntaxNode

/-! ## Trees as an order -/

/-- What is below a node is the node or smaller. -/
theorem eq_or_sizeOf_lt {node below : SyntaxNode} (h : below ∈ node.nodes) :
    below = node ∨ sizeOf below < sizeOf node := by
  induction node using induction_on_children with
  | step node ih =>
    rw [nodes_eq_cons] at h
    rcases List.mem_cons.1 h with rfl | h
    · exact .inl rfl
    · obtain ⟨child, hchild, hin⟩ := List.mem_flatMap.1 h
      have hlt := sizeOf_lt_of_mem_children hchild
      rcases ih child hchild hin with rfl | hbelow
      · exact .inr (by omega)
      · exact .inr (by omega)

/-- Two nodes that lie in each other are the same. -/
theorem eq_of_mem_of_mem {a b : SyntaxNode} (hab : a ∈ b.nodes) (hba : b ∈ a.nodes) : a = b := by
  rcases eq_or_sizeOf_lt hab with heq | hlt
  · exact heq
  · rcases eq_or_sizeOf_lt hba with heq | hgt
    · exact heq.symm
    · omega

/-! ## Spans -/

/-- Children lie inside their node, and stand in order without overlapping. -/
structure Nested (root : SyntaxNode) : Prop where
  inside : ∀ node ∈ root.nodes, ∀ child ∈ node.children,
    node.start ≤ child.start ∧ child.start ≤ child.stop ∧ child.stop ≤ node.stop
  ordered : ∀ node ∈ root.nodes, node.children.Pairwise fun a b => a.stop ≤ b.start

namespace Nested

variable {root node a b : SyntaxNode}

theorem of_mem (h : root.Nested) (hnode : node ∈ root.nodes) : node.Nested where
  inside below hbelow := h.inside below (mem_nodes_trans hnode hbelow)
  ordered below hbelow := h.ordered below (mem_nodes_trans hnode hbelow)

theorem of_child (h : node.Nested) {child : SyntaxNode} (hchild : child ∈ node.children) :
    child.Nested :=
  h.of_mem (mem_nodes_of_mem_child hchild (mem_nodes_self child))

/-- Everything in a tree lies inside its root. -/
theorem mem_inside (h : node.Nested) {below : SyntaxNode} (hbelow : below ∈ node.nodes) :
    node.start ≤ below.start ∧ below.stop ≤ node.stop := by
  induction node using induction_on_children with
  | step node ih =>
    have hinside := h.inside node (mem_nodes_self node)
    rw [nodes_eq_cons] at hbelow
    rcases List.mem_cons.1 hbelow with rfl | hbelow
    · exact ⟨Nat.le_refl _, Nat.le_refl _⟩
    · obtain ⟨child, hchild, hin⟩ := List.mem_flatMap.1 hbelow
      have hspan := hinside child hchild
      have hbelow := ih child hchild (h.of_child hchild) hin
      omega

/-- What overlaps lies in one child. -/
theorem eq_of_overlap (h : node.Nested) {child other : SyntaxNode} (hchild : child ∈ node.children)
    (hother : other ∈ node.children) (ha : a ∈ child.nodes) (hb : b ∈ other.nodes)
    (hab : a.start < b.stop) (hba : b.start < a.stop) : child = other := by
  have hchild' := (h.of_child hchild).mem_inside ha
  have hother' := (h.of_child hother).mem_inside hb
  rcases eq_or_apart_of_pairwise (h.ordered node (mem_nodes_self node)) hchild hother with
    heq | hbefore | hafter
  · exact heq
  · omega
  · omega

/-- A node that is not empty lies in one child at most. -/
theorem eq_of_common (h : node.Nested) {child other : SyntaxNode} (hchild : child ∈ node.children)
    (hother : other ∈ node.children) (ha : a ∈ child.nodes) (hb : a ∈ other.nodes)
    (hwide : a.start < a.stop) : child = other :=
  h.eq_of_overlap hchild hother ha hb hwide hwide

/-- Of two nodes that overlap, one lies in the other. -/
theorem mem_or_mem_of_overlap (h : root.Nested) (ha : a ∈ root.nodes) (hb : b ∈ root.nodes)
    (hab : a.start < b.stop) (hba : b.start < a.stop) : a ∈ b.nodes ∨ b ∈ a.nodes := by
  induction root using induction_on_children with
  | step root ih =>
    have ha' := ha
    have hb' := hb
    rw [nodes_eq_cons] at ha' hb'
    rcases List.mem_cons.1 ha' with rfl | ha'
    · exact .inr hb
    · rcases List.mem_cons.1 hb' with rfl | hb'
      · exact .inl ha
      · obtain ⟨child, hchild, hina⟩ := List.mem_flatMap.1 ha'
        obtain ⟨other, hother, hinb⟩ := List.mem_flatMap.1 hb'
        obtain rfl := h.eq_of_overlap hchild hother hina hinb hab hba
        exact ih child hchild (h.of_child hchild) hina hinb

end Nested

end TypeScribe.SyntaxNode
