import TypeScribe.Proofs.Dump.Search

/-!
# Which node answers for a point

`Node.find` decides at every node whether to answer, to go down or to turn back. Here it is compared
with two searches that do not. The first one lists the whole tree in post-order and takes the first
node that is offered for the point (`find_eq_first_offered`): one that may answer
(`Node.answersAt`), to which no node on the way bars the search (`Node.admits`). The second one goes
down everywhere (`Node.findEverywhere`). On a tree in which nothing is recorded before the node
above it (`Node.Ordered`), turning back at a node that lies after the point loses nothing
(`find_eq_findEverywhere`).
-/

namespace TypeScribe.Dump.Node

/-! ## Post-order -/

mutual
/-- Every node of the tree with its path, children from left to right before their parent. -/
def postorder : Node → List Found
  | ⟨name, attributes, tokens, children⟩ =>
    postorderAmong 0 children ++ [⟨[], ⟨name, attributes, tokens, children⟩⟩]

/-- The listings of several trees one after another, which are children from `index` on. -/
def postorderAmong (index : Nat) : List Node → List Found
  | [] => []
  | child :: rest => child.postorder.map (Found.below index) ++ postorderAmong (index + 1) rest
end

/-- A node comes behind all that is below it. -/
theorem postorder_eq (node : Node) :
    node.postorder = postorderAmong 0 node.children ++ [⟨[], node⟩] := by
  obtain ⟨name, attributes, tokens, children⟩ := node
  rw [postorder]

/-- What comes in the trees of a list comes in one of them, with its place in front. -/
theorem mem_postorderAmong {trees : List Node} {index : Nat} {found : Found} :
    found ∈ postorderAmong index trees ↔
      ∃ (k : Nat) (tree : Node), trees[k]? = some tree ∧
        ∃ inner ∈ tree.postorder, found = inner.below (index + k) := by
  induction trees generalizing index with
  | nil => simp [postorderAmong]
  | cons tree rest ih =>
    rw [postorderAmong, List.mem_append, ih]
    constructor
    · rintro (hfirst | ⟨k, other, hother, inner, hinner, rfl⟩)
      · obtain ⟨inner, hinner, rfl⟩ := List.mem_map.1 hfirst
        exact ⟨0, tree, rfl, inner, hinner, rfl⟩
      · refine ⟨k + 1, other, by simpa using hother, inner, hinner, ?_⟩
        rw [Nat.add_assoc, Nat.add_comm 1]
    · rintro ⟨k, other, hother, inner, hinner, rfl⟩
      cases k with
      | zero =>
        obtain rfl : tree = other := by simpa using hother
        exact .inl (List.mem_map_of_mem hinner)
      | succ k =>
        refine .inr ⟨k, other, by simpa using hother, inner, hinner, ?_⟩
        rw [Nat.add_assoc, Nat.add_comm 1]

/-- The listing holds the node at each path of the tree, and nothing else. -/
theorem mem_postorder {node : Node} {found : Found} :
    found ∈ node.postorder ↔ node.get? found.path = some found.node := by
  induction node using induction_on_children generalizing found with
  | step node ih =>
    obtain ⟨path, hit⟩ := found
    rw [postorder_eq, List.mem_append, List.mem_singleton, mem_postorderAmong]
    constructor
    · rintro (⟨k, child, hchild, inner, hinner, heq⟩ | heq)
      · cases heq
        have hget := (ih child (List.mem_of_getElem? hchild)).1 hinner
        rw [get?, Nat.zero_add, hchild]
        exact hget
      · cases heq
        rfl
    · intro hget
      cases path with
      | nil =>
        cases hget
        exact .inr rfl
      | cons index path =>
        obtain ⟨child, hchild, hget⟩ := Option.bind_eq_some_iff.1 hget
        refine .inl ⟨index, child, hchild, ⟨path, hit⟩, ?_, ?_⟩
        · exact (ih child (List.mem_of_getElem? hchild)).2 hget
        · rw [Nat.zero_add]
          rfl

/-! ## What is offered for a point -/

/-- Is the node recorded after the point, by line and column? -/
def liesAfter (node : Node) (point : Point) : Bool := node.location.any (· > point)

/-- May the node answer for the point? It is recorded there, or it has no place of its own and a
range around the point. -/
def answersAt (node : Node) (point : Point) : Bool :=
  node.location == some point || node.location.isNone && node.range.any (·.contains point)

/-- The nodes above the one at the path, from the top. -/
def ancestors (node : Node) : List Nat → List Node
  | [] => []
  | index :: path => node :: (node.children[index]?.map fun child => child.ancestors path).getD []

/-- Does a node let the search for the point pass to what is below it? One that lies after the point
is cut off with everything below it, and one that is recorded at the point counts as a leaf. -/
def admits (point : Point) (node : Node) : Bool :=
  !node.liesAfter point && node.location != some point

/-- Is the node that was found in the tree offered for the point? All nodes above it let the search
pass, it is not cut off itself, and it may answer. -/
def offers (root : Node) (point : Point) (found : Found) : Bool :=
  (root.ancestors found.path).all (admits point) && !found.node.liesAfter point &&
    found.node.answersAt point

/-- A node offers what its child does if it lets the search in. -/
theorem offers_below {node child : Node} {index : Nat} (h : node.children[index]? = some child)
    (point : Point) (found : Found) :
    node.offers point (found.below index) = (node.admits point && child.offers point found) := by
  simp only [offers, Found.below, ancestors, h, Option.map_some, Option.getD_some, List.all_cons,
    Bool.and_assoc]

/-- A node that answers for a point does not lie after it. -/
theorem not_liesAfter_of_answersAt {node : Node} {point : Point}
    (h : node.answersAt point = true) : node.liesAfter point = false := by
  rw [liesAfter]
  cases hlocation : node.location with
  | none => rfl
  | some location =>
    have hat : location = point := by simpa [answersAt, hlocation] using h
    have hafter : ¬location > location := by
      rw [gt_iff_lt, Point.lt_iff]
      omega
    simpa [hat] using hat ▸ hafter

/-- A node is offered in its own tree when it may answer, for then it is not cut off. -/
theorem offers_self (node : Node) (point : Point) :
    node.offers point ⟨[], node⟩ = node.answersAt point := by
  cases hanswers : node.answersAt point with
  | false => simp [offers, hanswers]
  | true => simp [offers, ancestors, hanswers, not_liesAfter_of_answersAt hanswers]

/-! ## The first one offered -/

section FirstOffered

variable {point : Point}

/-- The answer of several trees is the first node that one of them offers. -/
theorem findAmong_eq_find? {trees : List Node} {index : Nat} {offered : Found → Bool}
    (hfind : ∀ tree ∈ trees, tree.find point = tree.postorder.find? (tree.offers point))
    (hoffered : ∀ (k : Nat) (tree : Node), trees[k]? = some tree → ∀ found : Found,
      offered (found.below (index + k)) = tree.offers point found) :
    findAmong point index trees = (postorderAmong index trees).find? offered := by
  induction trees generalizing index with
  | nil => rfl
  | cons tree rest ih =>
    obtain ⟨htree, hrest⟩ := List.forall_mem_cons.1 hfind
    have hhead : offered ∘ Found.below index = tree.offers point :=
      funext (hoffered 0 tree rfl)
    have hlater : ∀ (k : Nat) (other : Node), rest[k]? = some other → ∀ found : Found,
        offered (found.below (index + 1 + k)) = other.offers point found := by
      intro k other hother found
      rw [Nat.add_assoc, Nat.add_comm 1]
      exact hoffered (k + 1) other (by simpa using hother) found
    rw [findAmong, postorderAmong, List.find?_append, List.find?_map, hhead, ← htree,
      ← ih hrest hlater]
    cases tree.find point <;> rfl

/-- Where a node lets the search pass, its children answer as they do by themselves. -/
theorem findAmong_eq_of_admits {node : Node} (hadmits : node.admits point = true)
    (hfind : ∀ child ∈ node.children,
      child.find point = child.postorder.find? (child.offers point)) :
    findAmong point 0 node.children =
      (postorderAmong 0 node.children).find? (node.offers point) := by
  refine findAmong_eq_find? hfind fun k child hchild found => ?_
  rw [Nat.zero_add, offers_below hchild, hadmits, Bool.true_and]

/-- Where it does not, nothing below it is offered. -/
theorem find?_eq_none_of_not_admits {node : Node} (hadmits : node.admits point = false) :
    (postorderAmong 0 node.children).find? (node.offers point) = none := by
  rw [List.find?_eq_none]
  intro found hfound
  obtain ⟨k, child, hchild, inner, -, rfl⟩ := mem_postorderAmong.1 hfound
  rw [Nat.zero_add, offers_below hchild, hadmits, Bool.false_and]
  exact Bool.false_ne_true

/-- A node without a location answers after its children, with itself if it may. -/
theorem find_of_unplaced {node : Node} (h : node.location = none) :
    node.find point =
      (findAmong point 0 node.children).or
        (if node.answersAt point then some ⟨[], node⟩ else none) := by
  obtain ⟨name, attributes, tokens, children⟩ := node
  rw [find, answersAt]
  simp only [h]
  cases findAmong point 0 children with
  | some found => rfl
  | none =>
    cases range ⟨name, attributes, tokens, children⟩ with
    | none => rfl
    | some range => simp

/-- A node with a location answers for that point, turns back if it lies after the point sought,
and asks its children otherwise. -/
theorem find_of_placed {node : Node} {location : Point} (h : node.location = some location) :
    node.find point =
      if location = point then some ⟨[], node⟩
      else if location > point then none
      else findAmong point 0 node.children := by
  obtain ⟨name, attributes, tokens, children⟩ := node
  rw [find]
  simp only [h]

/-- A search for a point answers with the first node in post-order that the tree offers. -/
theorem find_eq_find?_postorder (node : Node) :
    node.find point = node.postorder.find? (node.offers point) := by
  induction node using induction_on_children with
  | step node ih =>
    have hsplit : node.postorder.find? (node.offers point) =
        ((postorderAmong 0 node.children).find? (node.offers point)).or
          (if node.answersAt point then some ⟨[], node⟩ else none) := by
      rw [postorder_eq, List.find?_append, List.find?_singleton, offers_self]
    rw [hsplit]
    cases hlocation : node.location with
    | none =>
      have hadmits : node.admits point = true := by simp [admits, liesAfter, hlocation]
      rw [find_of_unplaced hlocation, findAmong_eq_of_admits hadmits ih]
    | some location =>
      have hanswers : node.answersAt point = decide (location = point) := by
        simp [answersAt, hlocation, beq_eq_decide]
      rw [find_of_placed hlocation, hanswers]
      by_cases hat : location = point
      · have hbarred : node.admits point = false := by simp [admits, hlocation, hat]
        rw [find?_eq_none_of_not_admits hbarred]
        simp [hat]
      · by_cases hafter : location > point
        · have hbarred : node.admits point = false := by
            simp [admits, liesAfter, hlocation, hafter]
          rw [find?_eq_none_of_not_admits hbarred]
          simp [hat, hafter]
        · have hadmits : node.admits point = true := by
            simp [admits, liesAfter, hlocation, hat, hafter]
          rw [findAmong_eq_of_admits hadmits ih]
          simp [hat, hafter]

/-- The search for a point equals the declarative one. Cut off every subtree whose root lies after
the point, count a node that is recorded at the point as a leaf, and take the first node in
post-order that is recorded at the point, or that has no place of its own and a range around the
point. The search finds nothing exactly if no path of the tree leads to such a node. -/
theorem find_eq_first_offered (node : Node) (point : Point) :
    node.find point = node.postorder.find? (node.offers point) ∧
      (node.find point = none ↔
        ∀ path below, node.get? path = some below → node.offers point ⟨path, below⟩ = false) := by
  refine ⟨find_eq_find?_postorder node, ?_⟩
  rw [find_eq_find?_postorder, List.find?_eq_none]
  constructor
  · intro hnone path below hget
    exact Bool.eq_false_iff.2 (hnone ⟨path, below⟩ (mem_postorder.2 hget))
  · intro hnone found hfound
    exact Bool.eq_false_iff.1 (hnone found.path found.node (mem_postorder.1 hfound))

end FirstOffered

/-! ## Searching everywhere -/

mutual
/-- The search for a point that does not turn back at a node after the point. -/
def findEverywhere (point : Point) : Node → Option Found
  | ⟨name, attributes, tokens, children⟩ =>
    let self : Node := ⟨name, attributes, tokens, children⟩
    match self.location with
    | none =>
      match findEverywhereAmong point 0 children with
      | some found => some found
      | none =>
        match self.range with
        | some range => if range.contains point then some ⟨[], self⟩ else none
        | none => none
    | some location =>
      if location = point then some ⟨[], self⟩ else findEverywhereAmong point 0 children

/-- The first answer of the nodes, which are children from `index` on. -/
def findEverywhereAmong (point : Point) (index : Nat) : List Node → Option Found
  | [] => none
  | child :: rest =>
    match findEverywhere point child with
    | some found => some (found.below index)
    | none => findEverywhereAmong point (index + 1) rest
end

/-- The node is not recorded before the place: not there if it has a location, and otherwise not
from there on if it has a range. -/
def NotBefore (place : Point) (node : Node) : Prop :=
  (∀ location ∈ node.location, place ≤ location) ∧
    (node.location = none → ∀ range ∈ node.range, place ≤ range.start)

instance (place : Point) (node : Node) : Decidable (node.NotBefore place) :=
  inferInstanceAs (Decidable ((∀ location ∈ node.location, _) ∧ (_ → ∀ range ∈ node.range, _)))

/-- Nothing in the tree is recorded before the location of a node above it. -/
def Ordered (root : Node) : Prop :=
  ∀ node ∈ root.nodes, ∀ location ∈ node.location,
    ∀ below ∈ node.children.flatMap nodes, below.NotBefore location

instance (root : Node) : Decidable root.Ordered :=
  inferInstanceAs (Decidable (∀ node ∈ root.nodes, ∀ location ∈ node.location,
    ∀ below ∈ node.children.flatMap nodes, below.NotBefore location))

theorem Ordered.of_child {node child : Node} (h : node.Ordered) (hchild : child ∈ node.children) :
    child.Ordered :=
  fun inner hinner => h inner (mem_nodes_of_mem_child hchild hinner)

section Everywhere

variable {point : Point}

/-- Trees without an answer have none together. -/
theorem findEverywhereAmong_eq_none {trees : List Node} {index : Nat}
    (h : ∀ tree ∈ trees, tree.findEverywhere point = none) :
    findEverywhereAmong point index trees = none := by
  induction trees generalizing index with
  | nil => rfl
  | cons tree rest ih =>
    obtain ⟨htree, hrest⟩ := List.forall_mem_cons.1 h
    rw [findEverywhereAmong, htree]
    exact ih hrest

/-- A search of several trees finds what is everywhere if one of each does. -/
theorem findAmong_eq_findEverywhereAmong {trees : List Node} {index : Nat}
    (h : ∀ tree ∈ trees, tree.find point = tree.findEverywhere point) :
    findAmong point index trees = findEverywhereAmong point index trees := by
  induction trees generalizing index with
  | nil => rfl
  | cons tree rest ih =>
    obtain ⟨htree, hrest⟩ := List.forall_mem_cons.1 h
    rw [findAmong, findEverywhereAmong, htree]
    cases tree.findEverywhere point with
    | none => exact ih hrest
    | some found => rfl

/-- A node without a location answers behind its children, by its range. -/
theorem findEverywhere_of_unplaced {node : Node} (h : node.location = none) :
    node.findEverywhere point =
      (findEverywhereAmong point 0 node.children).or
        (if node.answersAt point then some ⟨[], node⟩ else none) := by
  obtain ⟨name, attributes, tokens, children⟩ := node
  rw [findEverywhere, answersAt]
  simp only [h]
  cases findEverywhereAmong point 0 children with
  | some found => rfl
  | none =>
    cases range ⟨name, attributes, tokens, children⟩ with
    | none => rfl
    | some range => simp

/-- A node at the point answers before its children. -/
theorem findEverywhere_of_placed {node : Node} {location : Point}
    (h : node.location = some location) :
    node.findEverywhere point =
      if location = point then some ⟨[], node⟩ else findEverywhereAmong point 0 node.children := by
  obtain ⟨name, attributes, tokens, children⟩ := node
  rw [findEverywhere]
  simp only [h]

/-- A node that is not recorded before a place does not answer for an earlier point. -/
theorem NotBefore.answersAt_eq_false {node : Node} {place : Point} (h : node.NotBefore place)
    (hpoint : point < place) : node.answersAt point = false := by
  obtain ⟨hplaced, hunplaced⟩ := h
  rw [answersAt]
  cases hlocation : node.location with
  | none =>
    cases hrange : node.range with
    | none => rfl
    | some range =>
      have hstart : place ≤ range.start := hunplaced hlocation range hrange
      have houtside : ¬range.start ≤ point := by
        rw [Point.lt_iff] at hpoint
        rw [Point.le_iff] at hstart ⊢
        omega
      simp [Range.contains, houtside]
  | some location =>
    have hle : place ≤ location := hplaced location hlocation
    have hne : location ≠ point := by
      rintro rfl
      exact Point.not_le.2 hpoint hle
    simp [hne]

/-- Where nothing is recorded before a place, a search for an earlier point finds nothing. -/
theorem findEverywhere_eq_none {node : Node} {place : Point}
    (h : ∀ inner ∈ node.nodes, inner.NotBefore place) (hpoint : point < place) :
    node.findEverywhere point = none := by
  induction node using induction_on_children with
  | step node ih =>
    have hchildren : findEverywhereAmong point 0 node.children = none :=
      findEverywhereAmong_eq_none fun child hchild =>
        ih child hchild fun inner hinner => h inner (mem_nodes_of_mem_child hchild hinner)
    have hself := (h node (mem_nodes_self node)).answersAt_eq_false hpoint
    cases hlocation : node.location with
    | none => rw [findEverywhere_of_unplaced hlocation, hchildren, hself]; rfl
    | some location =>
      have hne : location ≠ point := by
        rintro rfl
        simp [answersAt, hlocation] at hself
      rw [findEverywhere_of_placed hlocation, if_neg hne, hchildren]

/-- Turning back loses nothing on an ordered tree: below a node that lies after the point, nothing
is recorded at the point, and what has only a range starts after it. -/
theorem find_eq_findEverywhere {node : Node} (h : node.Ordered) (point : Point) :
    node.find point = node.findEverywhere point := by
  induction node using induction_on_children with
  | step node ih =>
    have hchildren : findAmong point 0 node.children = findEverywhereAmong point 0 node.children :=
      findAmong_eq_findEverywhereAmong fun child hchild => ih child hchild (h.of_child hchild)
    cases hlocation : node.location with
    | none => rw [find_of_unplaced hlocation, findEverywhere_of_unplaced hlocation, hchildren]
    | some location =>
      rw [find_of_placed hlocation, findEverywhere_of_placed hlocation, hchildren]
      by_cases hafter : location > point
      · have hnone : findEverywhereAmong point 0 node.children = none := by
          refine findEverywhereAmong_eq_none fun child hchild => ?_
          refine findEverywhere_eq_none (fun inner hinner => ?_) hafter
          exact h node (mem_nodes_self node) location hlocation inner
            (List.mem_flatMap.2 ⟨child, hchild, hinner⟩)
        rw [if_pos hafter, hnone]
      · rw [if_neg hafter]

/-- A closure that lies after the point `1:5`, with a name and a block in it, and a pattern that
starts at the point. -/
def orderedTree : Node :=
  ⟨"source_file", [], [],
    [⟨"closure_expr", [.location ⟨"a.swift", 1, 9⟩], [],
      [⟨"declref_expr", [.location ⟨"a.swift", 1, 11⟩], [], []⟩,
        ⟨"brace_stmt", [.range ⟨⟨"a.swift", 1, 9⟩, ⟨"a.swift", 2, 1⟩⟩], [], []⟩]⟩,
      ⟨"pattern_named", [.range ⟨⟨"a.swift", 1, 5⟩, ⟨"a.swift", 1, 5⟩⟩], [], []⟩]⟩

/-- The search turns back at the closure and finds the pattern, as it would without. -/
theorem find_eq_findEverywhere_orderedTree :
    orderedTree.Ordered ∧
      orderedTree.find ⟨"a.swift", 1, 5⟩ = orderedTree.findEverywhere ⟨"a.swift", 1, 5⟩ ∧
      (orderedTree.find ⟨"a.swift", 1, 5⟩).map Found.path = some [1] := by
  have hordered : orderedTree.Ordered := by decide
  exact ⟨hordered, find_eq_findEverywhere hordered _, by decide⟩

end Everywhere

end TypeScribe.Dump.Node
