import Mathlib.Data.List.Basic
import TypeScribe.Dump.Node

/-!
# What the searches of a dump answer with

`Node.nodes` lists a node and everything below it. Both searches answer with a node of the tree.
`findWhere` stops at one that satisfies its predicate (`findWhere_spec`). `find` answers for a point
with a node recorded there, or else with a node that surrounds the point: it has a range around it
and no place of its own, and nothing below it answers (`find_spec`).
-/

namespace TypeScribe.Dump.Node

/-! ## All nodes -/

/-- The node and everything below it, parents before children. -/
def nodes (node : Node) : List Node := node.walk.map Prod.snd

/-- Induction on a tree: a property of all children passes to the node. -/
theorem induction_on_children {P : Node → Prop}
    (step : ∀ node : Node, (∀ child ∈ node.children, P child) → P node) (node : Node) : P node := by
  refine step node fun child hchild => induction_on_children step child
termination_by sizeOf node
decreasing_by
  have hlt := List.sizeOf_lt_of_mem hchild
  obtain ⟨name, attributes, tokens, children⟩ := node
  simp only [mk.sizeOf_spec] at hlt ⊢
  omega

/-- `walkAll` in the form of a library function. -/
theorem walkAll_eq_flatMap (depth : Nat) (trees : List Node) :
    walkAll depth trees = trees.flatMap (walkFrom depth) := by
  induction trees with
  | nil => rfl
  | cons node rest ih => rw [walkAll, ih, List.flatMap_cons]

/-- A walk goes from a node to its children, one tree after the other. -/
theorem walkFrom_eq_cons (depth : Nat) (node : Node) :
    node.walkFrom depth = (depth, node) :: node.children.flatMap (walkFrom (depth + 1)) := by
  obtain ⟨name, attributes, tokens, children⟩ := node
  rw [walkFrom, walkAll_eq_flatMap]

/-- A walk goes down from the depth it starts at. -/
theorem le_of_mem_walkFrom {depth : Nat} {node : Node} {entry : Nat × Node}
    (h : entry ∈ node.walkFrom depth) : depth ≤ entry.1 := by
  induction node using induction_on_children generalizing depth with
  | step node ih =>
    rw [walkFrom_eq_cons] at h
    rcases List.mem_cons.1 h with rfl | h
    · exact Nat.le_refl depth
    · obtain ⟨child, hchild, hentry⟩ := List.mem_flatMap.1 h
      exact Nat.le_of_succ_le (ih child hchild hentry)

/-- A walk meets the same nodes wherever its depths start. -/
theorem map_snd_walkFrom (depth : Nat) (node : Node) :
    (node.walkFrom depth).map Prod.snd = node.nodes := by
  induction node using induction_on_children generalizing depth with
  | step node ih =>
    rw [nodes, walk, walkFrom_eq_cons, walkFrom_eq_cons, List.map_cons, List.map_cons,
      List.map_flatMap, List.map_flatMap]
    congr 1
    refine List.flatMap_congr fun child hchild => ?_
    rw [ih child hchild, ih child hchild]

/-- The nodes of a tree are the one at its top and those of its children. -/
theorem nodes_eq_cons (node : Node) : node.nodes = node :: node.children.flatMap nodes := by
  rw [nodes, walk, walkFrom_eq_cons, List.map_cons, List.map_flatMap]
  congr 1
  exact List.flatMap_congr fun child _ => map_snd_walkFrom _ child

theorem mem_nodes_self (node : Node) : node ∈ node.nodes := by
  rw [nodes_eq_cons]
  exact List.mem_cons_self

/-- What is below a child is below the node. -/
theorem mem_nodes_of_mem_child {node child below : Node} (hchild : child ∈ node.children)
    (hbelow : below ∈ child.nodes) : below ∈ node.nodes := by
  rw [nodes_eq_cons]
  exact List.mem_cons_of_mem _ (List.mem_flatMap.2 ⟨child, hchild, hbelow⟩)

/-- What is below a node of the tree is in the tree. -/
theorem mem_nodes_trans {root node below : Node} (hnode : node ∈ root.nodes)
    (hbelow : below ∈ node.nodes) : below ∈ root.nodes := by
  induction root using induction_on_children with
  | step root ih =>
    rw [nodes_eq_cons] at hnode
    rcases List.mem_cons.1 hnode with rfl | hmem
    · exact hbelow
    · obtain ⟨child, hchild, hin⟩ := List.mem_flatMap.1 hmem
      exact mem_nodes_of_mem_child hchild (ih child hchild hin)

/-! ## The node at a point -/

/-- The node has no place of its own but a range around the point, and nothing below it answers for
the point. -/
structure Surrounds (node : Node) (point : Point) : Prop where
  unplaced : node.location = none
  contains : ∃ range, node.range = some range ∧ range.contains point = true
  unanswered : ∀ child ∈ node.children, child.find point = none

section Find

variable {point : Point} {found : Found}

/-- An answer of several trees is the answer of one of them. -/
theorem exists_of_findAmong {trees : List Node} {index : Nat}
    (h : findAmong point index trees = some found) :
    ∃ tree ∈ trees, ∃ below, tree.find point = some below ∧ below.node = found.node := by
  induction trees generalizing index with
  | nil => cases h
  | cons tree rest ih =>
    rw [findAmong] at h
    split at h
    · next below hbelow =>
      cases h
      exact ⟨tree, List.mem_cons_self, below, hbelow, rfl⟩
    · obtain ⟨other, hother, hfound⟩ := ih h
      exact ⟨other, List.mem_cons_of_mem _ hother, hfound⟩

/-- Where several trees have no answer, none of them has. -/
theorem find_eq_none_of_findAmong {trees : List Node} {index : Nat}
    (h : findAmong point index trees = none) : ∀ tree ∈ trees, tree.find point = none := by
  induction trees generalizing index with
  | nil => exact fun _ hmem => absurd hmem List.not_mem_nil
  | cons tree rest ih =>
    rw [findAmong] at h
    split at h
    · cases h
    · next hnone => exact List.forall_mem_cons.2 ⟨hnone, ih h⟩

/-- How a node comes to an answer: it is recorded at the point, or a child answers, or no child does
and it surrounds the point. -/
theorem find_cases {node : Node} (h : node.find point = some found) :
    (node.location = some point ∧ found.node = node) ∨
      (∃ child ∈ node.children, ∃ below, child.find point = some below ∧ below.node = found.node) ∨
      (node.Surrounds point ∧ found.node = node) := by
  obtain ⟨name, attributes, tokens, children⟩ := node
  rw [find] at h
  split at h
  · next hlocation =>
    split at h
    · next hamong =>
      cases h
      exact .inr (.inl (exists_of_findAmong hamong))
    · next hamong =>
      split at h
      · next range hrange =>
        split at h
        · next hcontains =>
          cases h
          exact .inr (.inr ⟨⟨hlocation, ⟨range, hrange, hcontains⟩,
            find_eq_none_of_findAmong hamong⟩, rfl⟩)
        · cases h
      · cases h
  · next location hlocation =>
    split at h
    · next hpoint =>
      cases h
      exact .inl ⟨hpoint ▸ hlocation, rfl⟩
    · split at h
      · cases h
      · exact .inr (.inl (exists_of_findAmong h))

/-- The answer for a point is a node of the tree that is recorded there or surrounds the point. -/
theorem find_spec {node : Node} (h : node.find point = some found) :
    found.node ∈ node.nodes ∧
      (found.node.location = some point ∨ found.node.Surrounds point) := by
  induction node using induction_on_children generalizing found with
  | step node ih =>
    rcases find_cases h with ⟨hlocation, hself⟩ | ⟨child, hchild, below, hbelow, heq⟩ |
        ⟨hsurrounds, hself⟩
    · rw [hself]
      exact ⟨mem_nodes_self node, .inl hlocation⟩
    · obtain ⟨hmem, hspec⟩ := ih child hchild hbelow
      rw [← heq]
      exact ⟨mem_nodes_of_mem_child hchild hmem, hspec⟩
    · rw [hself]
      exact ⟨mem_nodes_self node, .inr hsurrounds⟩

end Find

/-! ## A node that satisfies a predicate -/

section FindWhere

variable {predicate : Node → Bool} {found : Found}

/-- What one search after another finds, one of the two finds. -/
theorem Search.found_orElse {first : Search} {second : Unit → Search}
    (h : (first.orElse second).found = some found) :
    first.found = some found ∨ (second ()).found = some found := by
  rw [Search.orElse] at h
  split at h
  · exact .inl h
  · exact .inr h

/-- A node that is asked is found if it satisfies the predicate. -/
theorem found_ask {asked : Found} (h : (ask predicate asked).found = some found) :
    found = asked ∧ predicate asked.node = true := by
  simp only [ask] at h
  split at h
  · next hholds =>
    cases h
    exact ⟨rfl, hholds⟩
  · cases h

/-- Of several nodes that are asked, one that satisfies the predicate is found. -/
theorem found_askAmong {trees : List Node} {index : Nat}
    (h : (askAmong predicate index trees).found = some found) :
    found.node ∈ trees ∧ predicate found.node = true := by
  induction trees generalizing index with
  | nil => cases h
  | cons tree rest ih =>
    rw [askAmong] at h
    rcases Search.found_orElse h with h | h
    · obtain ⟨rfl, hholds⟩ := found_ask h
      exact ⟨List.mem_cons_self, hholds⟩
    · obtain ⟨hmem, hholds⟩ := ih h
      exact ⟨List.mem_cons_of_mem _ hmem, hholds⟩

/-- What is found in several trees is found in one of them. -/
theorem exists_of_searchAmong {trees : List Node} {index : Nat}
    (h : (searchAmong predicate index trees).found = some found) :
    ∃ tree ∈ trees, ∃ below, (tree.search predicate).found = some below ∧
      below.node = found.node := by
  induction trees generalizing index with
  | nil => cases h
  | cons tree rest ih =>
    rw [searchAmong] at h
    rcases Search.found_orElse h with h | h
    · obtain ⟨below, hbelow, rfl⟩ := Option.map_eq_some_iff.1 h
      exact ⟨tree, List.mem_cons_self, below, hbelow, rfl⟩
    · obtain ⟨other, hother, hfound⟩ := ih h
      exact ⟨other, List.mem_cons_of_mem _ hother, hfound⟩

/-- What a search finds is below the node and satisfies the predicate. -/
theorem search_spec {node : Node} (h : (node.search predicate).found = some found) :
    found.node ∈ node.nodes ∧ predicate found.node = true := by
  induction node using induction_on_children generalizing found with
  | step node ih =>
    obtain ⟨name, attributes, tokens, children⟩ := node
    rw [search] at h
    rcases Search.found_orElse h with h | h
    · obtain ⟨rfl, hholds⟩ := found_ask h
      exact ⟨mem_nodes_self _, hholds⟩
    · rcases Search.found_orElse h with h | h
      · obtain ⟨hmem, hholds⟩ := found_askAmong h
        exact ⟨mem_nodes_of_mem_child hmem (mem_nodes_self _), hholds⟩
      · obtain ⟨child, hchild, below, hbelow, heq⟩ := exists_of_searchAmong h
        obtain ⟨hmem, hholds⟩ := ih child hchild hbelow
        rw [← heq]
        exact ⟨mem_nodes_of_mem_child hchild hmem, hholds⟩

/-- A search for a predicate stops at a node of the tree that satisfies it. -/
theorem findWhere_spec {node hit : Node} (h : node.findWhere predicate = some hit) :
    hit ∈ node.nodes ∧ predicate hit = true := by
  obtain ⟨found, hfound, rfl⟩ := Option.map_eq_some_iff.1 h
  exact search_spec hfound

end FindWhere

end TypeScribe.Dump.Node
