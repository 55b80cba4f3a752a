import Mathlib.Data.List.Lex
import TypeScribe.Proofs.Source.Nodes

/-!
# What the walks of a syntax tree find

The place of a node is the path of child indices that leads to it. In the lexicographic order of
paths a node comes before what is below it, and what is below a child before the later children.

A walk keeps a stack of the nodes that are left to visit, and its list says nothing of places. They
are read off the recursive listing `places`, which a visit follows (`visit_eq_places`): a place is
listed if every node between the start of the walk and the place is opened
(`mem_placesAmong_children_iff`), and the paths are in order (`pairwise_paths_places`). Since the
order is strict, each place is listed once. So the walk for some kinds finds exactly the nodes of
these kinds, and the walk below a node exactly the topmost ones of a kind, none inside another
(`walks_in_preorder`).
-/

namespace TypeScribe.SyntaxNode

variable {keeps opens : SyntaxNode → Bool}

/-! ## Places -/

/-- The node at a path of child indices. -/
def get? (node : SyntaxNode) : List Nat → Option SyntaxNode
  | [] => some node
  | index :: path => node.children[index]?.bind fun child => child.get? path

/-- Every node between the root and the place is opened. -/
def OpenedBelow (opens : SyntaxNode → Bool) (root : SyntaxNode) (path : List Nat) : Prop :=
  ∀ above, above ≠ [] → above <+: path → above ≠ path →
    ∀ between, root.get? above = some between → opens between = true

theorem openedBelow_nil (root : SyntaxNode) : OpenedBelow opens root [] :=
  fun _ hne hprefix => absurd (List.prefix_nil.1 hprefix) hne

/-- Between the root and a place below a child are the child and what is between it and the
place. -/
theorem openedBelow_cons_iff {node child : SyntaxNode} {index : Nat}
    (hchild : node.children[index]? = some child) (path : List Nat) :
    OpenedBelow opens node (index :: path) ↔
      (path = [] ∨ opens child = true) ∧ OpenedBelow opens child path := by
  have hget : ∀ above, node.get? (index :: above) = child.get? above := by
    intro above
    rw [get?, hchild, Option.bind_some]
  constructor
  · intro h
    refine ⟨?_, fun above hne hprefix hproper between hbetween => ?_⟩
    · by_cases hpath : path = []
      · exact .inl hpath
      · refine .inr (h [index] (List.cons_ne_nil _ _) ?_ ?_ child (hget []))
        · exact List.cons_prefix_cons.2 ⟨rfl, List.nil_prefix⟩
        · simpa using Ne.symm hpath
    · refine h (index :: above) (List.cons_ne_nil _ _) ?_ ?_ between ((hget above).trans hbetween)
      · exact List.cons_prefix_cons.2 ⟨rfl, hprefix⟩
      · simpa using hproper
  · rintro ⟨hopens, hbelow⟩ above hne hprefix hproper between hbetween
    obtain ⟨first, above, rfl⟩ := List.exists_cons_of_ne_nil hne
    obtain ⟨rfl, hrest⟩ := List.cons_prefix_cons.1 hprefix
    rw [hget] at hbetween
    have hshort : above ≠ path := fun heq => hproper (congrArg _ heq)
    by_cases habove : above = []
    · subst habove
      cases hbetween
      exact hopens.resolve_left (Ne.symm hshort)
    · exact hbelow above habove hrest hshort between hbetween

/-! ## The listing of a tree -/

mutual
/-- The node and what is below it, each with its path, parents before children. Nothing is listed
below a node that is not opened. -/
def places (opens : SyntaxNode → Bool) : SyntaxNode → List (List Nat × SyntaxNode)
  | ⟨kind, start, stop, row, column, named, field, children⟩ =>
    let self : SyntaxNode := ⟨kind, start, stop, row, column, named, field, children⟩
    ([], self) :: if opens self then placesAmong opens 0 children else []

/-- The places in several trees, which are children from `index` on. -/
def placesAmong (opens : SyntaxNode → Bool) (index : Nat) :
    List SyntaxNode → List (List Nat × SyntaxNode)
  | [] => []
  | tree :: rest =>
    (places opens tree).map (fun place => (index :: place.1, place.2)) ++
      placesAmong opens (index + 1) rest
end

/-- The places in a tree are its top and, if it is opened, those in its children. -/
theorem places_eq_cons (node : SyntaxNode) :
    node.places opens =
      ([], node) :: if opens node then placesAmong opens 0 node.children else [] := by
  obtain ⟨kind, start, stop, row, column, named, field, children⟩ := node
  rw [places]

mutual
/-- A visit of a tree lists the nodes of its listing that are kept. -/
theorem visit_singleton_eq_places : ∀ node : SyntaxNode,
    visit keeps opens [node] =
      ((node.places opens).filter fun place => keeps place.2).map Prod.snd
  | ⟨kind, start, stop, row, column, named, field, children⟩ => by
    rw [visit_cons, List.append_nil, opened, places, List.filter_cons, List.filter_cons]
    dsimp only
    split <;> split
    · rw [visit_eq_placesAmong 0 children, List.filter_nil, List.singleton_append, List.map_cons]
    · rw [visit, List.append_nil]; rfl
    · rw [visit_eq_placesAmong 0 children]; rfl
    · rw [visit]; rfl

/-- So does a visit of several trees. -/
theorem visit_eq_placesAmong (index : Nat) : ∀ trees : List SyntaxNode,
    visit keeps opens trees =
      ((placesAmong opens index trees).filter fun place => keeps place.2).map Prod.snd
  | [] => by rw [visit, placesAmong]; rfl
  | tree :: rest => by
    rw [← List.singleton_append, visit_append, visit_singleton_eq_places tree,
      visit_eq_placesAmong (index + 1) rest, List.singleton_append, placesAmong,
      List.filter_append, List.map_append, List.filter_map, List.map_map]
    rfl
end

/-- A place in several trees is one in one of them, with its index in front. -/
theorem mem_placesAmong_iff {index : Nat} {trees : List SyntaxNode} {path : List Nat}
    {found : SyntaxNode} :
    (path, found) ∈ placesAmong opens index trees ↔
      ∃ k tree rest, trees[k]? = some tree ∧ (rest, found) ∈ tree.places opens ∧
        path = (index + k) :: rest := by
  induction trees generalizing index with
  | nil => simp [placesAmong]
  | cons first others ih =>
    rw [placesAmong, List.mem_append, ih, List.mem_map]
    constructor
    · rintro (⟨⟨rest, node⟩, hmem, heq⟩ | ⟨k, tree, rest, htree, hmem, rfl⟩)
      · cases heq
        exact ⟨0, first, rest, rfl, hmem, rfl⟩
      · exact ⟨k + 1, tree, rest, htree, hmem, by rw [Nat.add_right_comm, Nat.add_assoc]⟩
    · rintro ⟨k, tree, rest, htree, hmem, rfl⟩
      cases k with
      | zero =>
        cases htree
        exact .inl ⟨(rest, found), hmem, rfl⟩
      | succ k =>
        exact .inr ⟨k, tree, rest, htree, hmem, by rw [Nat.add_right_comm, Nat.add_assoc]⟩

/-- Below a node are listed the places to which opened nodes lead, if this is so of its children. -/
theorem mem_placesAmong_children_iff_of {node : SyntaxNode} {path : List Nat} {found : SyntaxNode}
    (h : ∀ child ∈ node.children, ∀ rest, (rest, found) ∈ child.places opens ↔
      child.get? rest = some found ∧ (rest = [] ∨ opens child = true) ∧
        OpenedBelow opens child rest) :
    (path, found) ∈ placesAmong opens 0 node.children ↔
      path ≠ [] ∧ node.get? path = some found ∧ OpenedBelow opens node path := by
  rw [mem_placesAmong_iff]
  constructor
  · rintro ⟨index, child, rest, hchild, hmem, rfl⟩
    obtain ⟨hget, hopened⟩ := (h child (List.mem_of_getElem? hchild) rest).1 hmem
    rw [Nat.zero_add]
    refine ⟨List.cons_ne_nil _ _, ?_, (openedBelow_cons_iff hchild rest).2 hopened⟩
    rw [get?, hchild, Option.bind_some, hget]
  · rintro ⟨hne, hget, hopened⟩
    obtain ⟨index, rest, rfl⟩ := List.exists_cons_of_ne_nil hne
    obtain ⟨child, hchild, hget⟩ := Option.bind_eq_some_iff.1 hget
    have hopened := (openedBelow_cons_iff hchild rest).1 hopened
    exact ⟨index, child, rest, hchild,
      (h child (List.mem_of_getElem? hchild) rest).2 ⟨hget, hopened⟩, by rw [Nat.zero_add]⟩

/-- In a tree are listed the places to which opened nodes lead. -/
theorem mem_places_iff {node : SyntaxNode} {path : List Nat} {found : SyntaxNode} :
    (path, found) ∈ node.places opens ↔
      node.get? path = some found ∧ (path = [] ∨ opens node = true) ∧
        OpenedBelow opens node path := by
  induction node using induction_on_children generalizing path with
  | step node ih =>
    have hbelow : (path, found) ∈ placesAmong opens 0 node.children ↔
        path ≠ [] ∧ node.get? path = some found ∧ OpenedBelow opens node path :=
      mem_placesAmong_children_iff_of fun child hchild rest => ih child hchild
    rw [places_eq_cons, List.mem_cons]
    by_cases hpath : path = []
    · subst hpath
      constructor
      · rintro (heq | hmem)
        · cases heq
          exact ⟨rfl, .inl rfl, openedBelow_nil _⟩
        · split at hmem
          · exact absurd rfl (hbelow.1 hmem).1
          · cases hmem
      · rintro ⟨hget, -⟩
        cases hget
        exact .inl rfl
    · by_cases hopens : opens node = true
      · simp [hpath, hopens, hbelow]
      · simp [hpath, hopens]

/-- Below a node are listed the places to which opened nodes lead. -/
theorem mem_placesAmong_children_iff {node : SyntaxNode} {path : List Nat} {found : SyntaxNode} :
    (path, found) ∈ placesAmong opens 0 node.children ↔
      path ≠ [] ∧ node.get? path = some found ∧ OpenedBelow opens node path :=
  mem_placesAmong_children_iff_of fun _ _ _ => mem_places_iff

/-! ## The order of a listing -/

/-- Places in several trees are in order if those in each are. -/
theorem pairwise_placesAmong {index : Nat} {trees : List SyntaxNode}
    (h : ∀ tree ∈ trees, ((tree.places opens).map Prod.fst).Pairwise (· < ·)) :
    ((placesAmong opens index trees).map Prod.fst).Pairwise (· < ·) := by
  induction trees generalizing index with
  | nil => exact .nil
  | cons first others ih =>
    obtain ⟨hfirst, hothers⟩ := List.forall_mem_cons.1 h
    rw [placesAmong, List.map_append, List.map_map, List.pairwise_append]
    refine ⟨?_, ih hothers, ?_⟩
    · rw [List.pairwise_map] at hfirst ⊢
      exact hfirst.imp fun hlt => List.cons_lt_cons_iff.2 (.inr ⟨rfl, hlt⟩)
    · intro a ha b hb
      obtain ⟨⟨rest, node⟩, -, rfl⟩ := List.mem_map.1 ha
      obtain ⟨⟨path, found⟩, hmem, rfl⟩ := List.mem_map.1 hb
      obtain ⟨k, tree, later, -, -, rfl⟩ := mem_placesAmong_iff.1 hmem
      exact List.cons_lt_cons_iff.2 (.inl (by omega))

/-- The places in a tree are in order. -/
theorem pairwise_places (node : SyntaxNode) :
    ((node.places opens).map Prod.fst).Pairwise (· < ·) := by
  induction node using induction_on_children with
  | step node ih =>
    rw [places_eq_cons, List.map_cons, List.pairwise_cons]
    split
    · refine ⟨fun path hpath => ?_, pairwise_placesAmong ih⟩
      obtain ⟨⟨path, found⟩, hmem, rfl⟩ := List.mem_map.1 hpath
      obtain ⟨k, tree, rest, -, -, rfl⟩ := mem_placesAmong_iff.1 hmem
      exact List.nil_lt_cons _ _
    · exact ⟨List.forall_mem_nil _, .nil⟩

/-! ## What a walk finds -/

/-- The nodes are those of the tree whose places satisfy the condition, each once, and in the order
of their paths: parents before children, and what is below a child before the later children. -/
structure ListsInOrder (root : SyntaxNode) (P : List Nat → SyntaxNode → Prop)
    (paths : List (List Nat)) (found : List SyntaxNode) : Prop where
  mem_iff : ∀ path, path ∈ paths ↔ ∃ node, root.get? path = some node ∧ P path node
  sorted : paths.Pairwise (· < ·)
  nodes_eq : found.map some = paths.map root.get?

/-- A listing in order may be described in any equivalent way. -/
theorem ListsInOrder.congr {root : SyntaxNode} {P Q : List Nat → SyntaxNode → Prop}
    {paths : List (List Nat)} {found : List SyntaxNode} (h : root.ListsInOrder P paths found)
    (hPQ : ∀ path node, P path node ↔ Q path node) : root.ListsInOrder Q paths found where
  mem_iff path := by
    rw [h.mem_iff]
    exact exists_congr fun node => and_congr_right fun _ => hPQ path node
  sorted := h.sorted
  nodes_eq := h.nodes_eq

/-- What is kept of a listing is listed in order, if the listing says where its nodes are. -/
theorem listsInOrder_filter {root : SyntaxNode} {P : List Nat → Prop}
    {listing : List (List Nat × SyntaxNode)}
    (hmem : ∀ path node, (path, node) ∈ listing ↔ root.get? path = some node ∧ P path)
    (hsorted : (listing.map Prod.fst).Pairwise (· < ·)) :
    root.ListsInOrder (fun path node => P path ∧ keeps node = true)
      ((listing.filter fun place => keeps place.2).map Prod.fst)
      ((listing.filter fun place => keeps place.2).map Prod.snd) where
  mem_iff path := by
    simp [hmem, and_assoc]
  sorted := hsorted.sublist (List.filter_sublist.map Prod.fst)
  nodes_eq := by
    rw [List.map_map, List.map_map]
    refine List.map_congr_left fun place hplace => ?_
    exact ((hmem place.1 place.2).1 (List.mem_of_mem_filter hplace)).1.symm

/-- A visit of a tree lists what is kept of the places to which opened nodes lead. -/
theorem exists_listsInOrder_visit (keeps opens : SyntaxNode → Bool) (root : SyntaxNode) :
    ∃ paths, root.ListsInOrder
      (fun path node => ((path = [] ∨ opens root = true) ∧ OpenedBelow opens root path) ∧
        keeps node = true) paths (visit keeps opens [root]) := by
  rw [visit_singleton_eq_places]
  exact ⟨_, listsInOrder_filter (fun _ _ => mem_places_iff) (pairwise_places root)⟩

/-- A visit of the children of a node does so of the places below the node. -/
theorem exists_listsInOrder_visit_children (keeps opens : SyntaxNode → Bool) (root : SyntaxNode) :
    ∃ paths, root.ListsInOrder
      (fun path node => (path ≠ [] ∧ OpenedBelow opens root path) ∧ keeps node = true) paths
      (visit keeps opens root.children) := by
  rw [visit_eq_placesAmong 0]
  refine ⟨_, listsInOrder_filter (fun path node => ?_)
    (pairwise_placesAmong fun tree _ => pairwise_places tree)⟩
  rw [mem_placesAmong_children_iff, and_left_comm]

/-! ## The two walks -/

mutual
/-- The nodes of a kind that are not inside another one, nor inside a node of a barrier kind. -/
def topmost (wanted : String) (barriers : List String) : SyntaxNode → List SyntaxNode
  | ⟨kind, start, stop, row, column, named, field, children⟩ =>
    if kind = wanted then [⟨kind, start, stop, row, column, named, field, children⟩]
    else if kind ∈ barriers then []
    else topmostAmong wanted barriers children

/-- The topmost nodes of a kind in several trees. -/
def topmostAmong (wanted : String) (barriers : List String) : List SyntaxNode → List SyntaxNode
  | [] => []
  | tree :: rest => topmost wanted barriers tree ++ topmostAmong wanted barriers rest
end

section Topmost

variable {wanted : String} {barriers : List String}

mutual
/-- A visit that opens neither the wanted nodes nor those of a barrier kind finds the topmost
nodes. -/
theorem visit_singleton_eq_topmost : ∀ node : SyntaxNode,
    visit (·.kind == wanted) (fun node => node.kind != wanted && !barriers.contains node.kind)
      [node] = topmost wanted barriers node
  | ⟨kind, start, stop, row, column, named, field, children⟩ => by
    rw [visit_cons, List.append_nil, opened, topmost]
    by_cases hkind : kind = wanted
    · simp [hkind, visit]
    · by_cases hbarrier : kind ∈ barriers
      · simp [hkind, hbarrier, visit]
      · rw [if_pos (by simp [hkind, hbarrier]), if_neg hkind, if_neg hbarrier,
          ← visit_eq_topmostAmong children]
        simp [hkind]

/-- The same of several trees. -/
theorem visit_eq_topmostAmong : ∀ trees : List SyntaxNode,
    visit (·.kind == wanted) (fun node => node.kind != wanted && !barriers.contains node.kind)
      trees = topmostAmong wanted barriers trees
  | [] => by rw [visit, topmostAmong]
  | tree :: rest => by
    rw [← List.singleton_append, visit_append, visit_singleton_eq_topmost tree,
      visit_eq_topmostAmong rest, List.singleton_append, topmostAmong]
end

end Topmost

/-- The place is below the root and its node is of the wanted kind, and no node between the two is
of that kind or of a barrier kind. -/
def IsTopmost (root : SyntaxNode) (wanted : String) (barriers : List String) (path : List Nat)
    (node : SyntaxNode) : Prop :=
  path ≠ [] ∧ node.kind = wanted ∧
    ∀ above, above ≠ [] → above <+: path → above ≠ path →
      ∀ between, root.get? above = some between → between.kind ≠ wanted ∧ between.kind ∉ barriers

/-- The walk for some kinds finds the nodes of these kinds, the root included, and the walk below a
node the topmost ones of a kind, up to the barriers. Each finds them as the recursion over the tree
does: each once, in pre-order. Of two nodes that the walk below a node finds, none is inside the
other. -/
theorem walks_in_preorder (root : SyntaxNode) :
    (∀ kinds : List String,
      root.ofKinds kinds = root.nodes.filter (fun node => kinds.contains node.kind) ∧
      ∃ paths, root.ListsInOrder (fun _ node => node.kind ∈ kinds) paths (root.ofKinds kinds)) ∧
    ∀ (wanted : String) (barriers : List String),
      root.descendants wanted barriers = topmostAmong wanted barriers root.children ∧
      ∃ paths,
        root.ListsInOrder (root.IsTopmost wanted barriers) paths
          (root.descendants wanted barriers) ∧
        ∀ outer ∈ paths, ∀ inner ∈ paths, outer <+: inner → outer = inner := by
  refine ⟨fun kinds => ⟨ofKinds_eq_filter kinds root, ?_⟩,
    fun wanted barriers => ⟨visit_eq_topmostAmong root.children, ?_⟩⟩
  · obtain ⟨paths, hlists⟩ := exists_listsInOrder_visit
      (fun node => kinds.contains node.kind) (fun _ => true) root
    refine ⟨paths, hlists.congr fun path node => ?_⟩
    simp [OpenedBelow]
  · obtain ⟨paths, hlists⟩ := exists_listsInOrder_visit_children
      (·.kind == wanted) (fun node => node.kind != wanted && !barriers.contains node.kind) root
    have htopmost : root.ListsInOrder (root.IsTopmost wanted barriers) paths
        (root.descendants wanted barriers) := by
      refine hlists.congr fun path node => ?_
      rw [IsTopmost, and_assoc, and_comm (a := OpenedBelow _ _ _)]
      simp [OpenedBelow]
    refine ⟨paths, htopmost, fun outer houter inner hinner hprefix => ?_⟩
    -- A node above another one that is found would have to be of a kind other than the wanted one.
    by_contra hne
    obtain ⟨node, hnode, hbelow, hkind, -⟩ := (htopmost.mem_iff outer).1 houter
    obtain ⟨found, -, -, -, hbetween⟩ := (htopmost.mem_iff inner).1 hinner
    exact (hbetween outer hbelow hprefix hne node hnode).1 hkind

/-- A parameter inside another one is not found, nor is one inside a closure. -/
example :
    let piece (kind : String) (start : Nat) (children : List SyntaxNode) : SyntaxNode :=
      ⟨kind, start, start + 1, 0, start, true, none, children⟩
    let signature := piece "lambda_function_type" 0 [
      piece "lambda_parameter" 1 [piece "lambda_parameter" 2 []],
      piece "lambda_literal" 3 [piece "lambda_parameter" 4 []],
      piece "lambda_parameter" 5 []]
    (signature.descendants "lambda_parameter" ["lambda_literal"]).map (·.start) = [1, 5] := by
  decide +kernel

end TypeScribe.SyntaxNode
