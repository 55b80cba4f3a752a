import Mathlib.Data.List.Basic
import TypeScribe.Proofs.Text.Utf8
import TypeScribe.Source.File

/-!
# The nodes of a syntax tree

`SyntaxNode.nodes` lists a node and everything below it, parents before children. The two walks of
a source file visit nodes with a stack, but the trees on it one after another (`visit_eq_flatMap`).
So they are read off the list: `ofKinds` keeps the nodes of some kinds (`ofKinds_eq_filter`), and
what `descendants` finds is among the nodes of the children (`mem_nodes_of_mem_descendants`).

`SyntaxNode.FitsText` is what a Swift parser promises about the tree of a text: spans are nested,
ordered and cut the text between characters, names have no parts, a closure's signature holds no
construct that may be annotated, and a closure parameter with a colon has a name before it.
-/

namespace TypeScribe.SyntaxNode

/-! ## All nodes -/

mutual
/-- The node and everything below it, parents before children. -/
def nodes : SyntaxNode → List SyntaxNode
  | ⟨kind, start, stop, row, column, named, field, children⟩ =>
    ⟨kind, start, stop, row, column, named, field, children⟩ :: nodesAmong children

/-- The nodes of several trees. -/
def nodesAmong : List SyntaxNode → List SyntaxNode
  | [] => []
  | node :: rest => nodes node ++ nodesAmong rest
end

/-- `nodesAmong` in the form of a library function. -/
theorem nodesAmong_eq_flatMap (trees : List SyntaxNode) :
    nodesAmong trees = trees.flatMap nodes := by
  induction trees with
  | nil => rfl
  | cons node rest ih => rw [nodesAmong, ih, List.flatMap_cons]

/-- The nodes of a tree are the one at its top and those of its children. -/
theorem nodes_eq_cons (node : SyntaxNode) :
    node.nodes = node :: node.children.flatMap nodes := by
  obtain ⟨kind, start, stop, row, column, named, field, children⟩ := node
  rw [nodes, nodesAmong_eq_flatMap]

theorem mem_nodes_self (node : SyntaxNode) : node ∈ node.nodes := by
  rw [nodes_eq_cons]
  exact List.mem_cons_self

/-- What is below a child is below the node. -/
theorem mem_nodes_of_mem_child {node child below : SyntaxNode} (hchild : child ∈ node.children)
    (hbelow : below ∈ child.nodes) : below ∈ node.nodes := by
  rw [nodes_eq_cons]
  exact List.mem_cons_of_mem _ (List.mem_flatMap.2 ⟨child, hchild, hbelow⟩)

theorem sizeOf_lt_of_mem_children {node child : SyntaxNode} (h : child ∈ node.children) :
    sizeOf child < sizeOf node :=
  Nat.lt_trans (List.sizeOf_lt_of_mem h) (sizeOf_opened_lt (fun _ => true) node)

/-- Induction on a tree: a property of all children passes to the node. -/
theorem induction_on_children {P : SyntaxNode → Prop}
    (step : ∀ node : SyntaxNode, (∀ child ∈ node.children, P child) → P node)
    (node : SyntaxNode) : P node := by
  refine step node fun child hchild => induction_on_children step child
termination_by sizeOf node
decreasing_by exact sizeOf_lt_of_mem_children hchild

/-- What is below a node of the tree is in the tree. -/
theorem mem_nodes_trans {root node below : SyntaxNode} (hnode : node ∈ root.nodes)
    (hbelow : below ∈ node.nodes) : below ∈ root.nodes := by
  induction root using induction_on_children with
  | step root ih =>
    rw [nodes_eq_cons] at hnode
    rcases List.mem_cons.1 hnode with rfl | hmem
    · exact hbelow
    · obtain ⟨child, hchild, hin⟩ := List.mem_flatMap.1 hmem
      exact mem_nodes_of_mem_child hchild (ih child hchild hin)

theorem mem_nodes_of_child_mem {root node child : SyntaxNode} (hnode : node ∈ root.nodes)
    (hchild : child ∈ node.children) : child ∈ root.nodes :=
  mem_nodes_trans hnode (mem_nodes_of_mem_child hchild (mem_nodes_self child))

/-- Of two trees in a row of trees that do not overlap, one ends before the other starts, unless
they are the same. -/
theorem eq_or_apart_of_pairwise {trees : List SyntaxNode} {a b : SyntaxNode}
    (h : trees.Pairwise fun a b => a.stop ≤ b.start) (ha : a ∈ trees) (hb : b ∈ trees) :
    a = b ∨ a.stop ≤ b.start ∨ b.stop ≤ a.start := by
  have hforth : trees.Pairwise fun a b => a = b ∨ a.stop ≤ b.start ∨ b.stop ≤ a.start :=
    h.imp fun hab => .inr (.inl hab)
  have hback : trees.Pairwise (flip fun a b => a = b ∨ a.stop ≤ b.start ∨ b.stop ≤ a.start) :=
    h.imp fun hab => .inr (.inr hab)
  exact hforth.forall_of_forall_of_flip (fun x _ => .inl rfl) hback ha hb

/-! ## The walks -/

variable {keeps opens : SyntaxNode → Bool}

/-- A visit keeps the top of the stack or not, and opens it or not. -/
theorem visit_cons (node : SyntaxNode) (stack : List SyntaxNode) :
    visit keeps opens (node :: stack) =
      [node].filter keeps ++ visit keeps opens (node.opened opens ++ stack) := by
  rw [visit, List.filter_cons]
  split <;> rfl

/-- A visit of one stack on top of another is a visit of the first and then of the second. -/
theorem visit_append (upper lower : List SyntaxNode) :
    visit keeps opens (upper ++ lower) = visit keeps opens upper ++ visit keeps opens lower := by
  fun_induction visit keeps opens upper with
  | case1 => rfl
  | case2 node stack later hkeeps ih =>
    rw [List.cons_append, visit, if_pos hkeeps, ← List.append_assoc, ih, List.cons_append]
  | case3 node stack later hkeeps ih =>
    rw [List.cons_append, visit, if_neg hkeeps, ← List.append_assoc, ih]

/-- The trees on a stack are visited one after another. -/
theorem visit_eq_flatMap (trees : List SyntaxNode) :
    visit keeps opens trees = trees.flatMap fun tree => visit keeps opens [tree] := by
  induction trees with
  | nil => rw [visit, List.flatMap_nil]
  | cons tree rest ih =>
    rw [List.flatMap_cons, ← ih, ← visit_append, List.singleton_append]

/-- A visit of one tree lists the node, if it is kept, and then visits what is found in it. -/
theorem visit_singleton (node : SyntaxNode) :
    visit keeps opens [node] =
      [node].filter keeps ++
        (node.opened opens).flatMap fun child => visit keeps opens [child] := by
  rw [visit_cons, List.append_nil, visit_eq_flatMap (node.opened opens)]

/-- What is opened are children. -/
theorem mem_children_of_mem_opened {node child : SyntaxNode} (h : child ∈ node.opened opens) :
    child ∈ node.children := by
  rw [opened] at h
  split at h
  · exact h
  · cases h

/-- The walk for some kinds keeps the nodes of these kinds. -/
theorem ofKinds_eq_filter (kinds : List String) (node : SyntaxNode) :
    node.ofKinds kinds = node.nodes.filter (fun n => kinds.contains n.kind) := by
  rw [ofKinds]
  induction node using induction_on_children with
  | step node ih =>
    have hbelow : (node.children.flatMap fun child =>
        visit (fun n => kinds.contains n.kind) (fun _ => true) [child]) =
          (node.children.flatMap nodes).filter (fun n => kinds.contains n.kind) := by
      rw [List.filter_flatMap]
      exact List.flatMap_congr ih
    rw [visit_singleton, opened, if_pos rfl, hbelow, nodes_eq_cons, ← List.filter_append,
      List.singleton_append]

/-- What a visit lists is kept, and it is in one of the trees. -/
theorem mem_nodes_of_mem_visit {found : SyntaxNode} {trees : List SyntaxNode}
    (h : found ∈ visit keeps opens trees) :
    keeps found = true ∧ ∃ tree ∈ trees, found ∈ tree.nodes := by
  rw [visit_eq_flatMap] at h
  obtain ⟨tree, htree, hfound⟩ := List.mem_flatMap.1 h
  suffices hone : keeps found = true ∧ found ∈ tree.nodes from ⟨hone.1, tree, htree, hone.2⟩
  clear htree h
  induction tree using induction_on_children with
  | step tree ih =>
    rw [visit_singleton, List.mem_append] at hfound
    rcases hfound with hself | hbelow
    · obtain ⟨hself, hkeeps⟩ := List.mem_filter.1 hself
      obtain rfl := List.mem_singleton.1 hself
      exact ⟨hkeeps, mem_nodes_self _⟩
    · obtain ⟨child, hchild, hfound⟩ := List.mem_flatMap.1 hbelow
      have hchild := mem_children_of_mem_opened hchild
      obtain ⟨hkeeps, hmem⟩ := ih child hchild hfound
      exact ⟨hkeeps, mem_nodes_of_mem_child hchild hmem⟩

/-- A descendant that a walk finds is of the wanted kind, and below the node. -/
theorem mem_nodes_of_mem_descendants {node found : SyntaxNode} {wanted : String}
    {barriers : List String} (h : found ∈ node.descendants wanted barriers) :
    found.kind = wanted ∧ found ∈ node.nodes := by
  obtain ⟨hkind, child, hchild, hmem⟩ := mem_nodes_of_mem_visit h
  exact ⟨beq_iff_eq.1 hkind, mem_nodes_of_mem_child hchild hmem⟩

/-! ## What a parser promises -/

/-- The kinds of nodes in which an annotation may be written. -/
def annotatedKinds : List String :=
  ["property_declaration", "call_expression", "constructor_expression", "lambda_literal"]

/-- The tree of a text, as a Swift parser gives it. -/
structure FitsText (root : SyntaxNode) (text : String) : Prop where
  /-- The root lies in the text. -/
  root_in_text : root.start ≤ root.stop ∧ root.stop ≤ (Text.encode text).length
  /-- Children lie inside their node. -/
  inside : ∀ node ∈ root.nodes, ∀ child ∈ node.children,
    node.start ≤ child.start ∧ child.start ≤ child.stop ∧ child.stop ≤ node.stop
  /-- Children stand in order and do not overlap. -/
  ordered : ∀ node ∈ root.nodes, node.children.Pairwise fun a b => a.stop ≤ b.start
  /-- Spans start and end between characters. -/
  boundary : ∀ node ∈ root.nodes,
    Text.IsBoundary text node.start ∧ Text.IsBoundary text node.stop
  /-- Names have no parts. -/
  leaf : ∀ node ∈ root.nodes,
    node.kind = "simple_identifier" ∨ node.kind = "type_identifier" → node.children = []
  /-- Nothing in a closure's signature may be annotated. -/
  signature : ∀ node ∈ root.nodes, node.kind = "lambda_function_type" →
    ∀ child ∈ node.children, ∀ below ∈ child.nodes, below.kind ∉ annotatedKinds
  /-- A closure parameter with a colon has a name before it. -/
  parameter : ∀ node ∈ root.nodes, node.kind = "lambda_parameter" →
    ∀ written, Text.decode? (Text.byteSlice (Text.encode text) node.start node.stop) =
      some written → ':' ∈ written.toList →
      ∃ c ∈ written.toList.takeWhile (· != ':'), Text.isBlank c = false

/-- A node of the tree lies in the text. -/
theorem FitsText.node_in_text {root node : SyntaxNode} {text : String} (h : root.FitsText text)
    (hnode : node ∈ root.nodes) :
    node.start ≤ node.stop ∧ node.stop ≤ (Text.encode text).length := by
  suffices hsub : ∀ n ∈ root.nodes, n.start ≤ n.stop ∧ n.stop ≤ (Text.encode text).length →
      ∀ below ∈ n.nodes, below.start ≤ below.stop ∧ below.stop ≤ (Text.encode text).length from
    hsub root (mem_nodes_self root) h.root_in_text node hnode
  intro n
  induction n using induction_on_children with
  | step n ih =>
    intro hn hspan below hbelow
    rw [nodes_eq_cons] at hbelow
    rcases List.mem_cons.1 hbelow with rfl | hmem
    · exact hspan
    · obtain ⟨child, hchild, hin⟩ := List.mem_flatMap.1 hmem
      have hinside := h.inside n hn child hchild
      exact ih child hchild (mem_nodes_of_child_mem hn hchild) (by omega) below hin

end TypeScribe.SyntaxNode
