import TypeScribe.Proofs.Dump.Search

/-!
# Which node a predicate is searched to

A search for a predicate asks about a node, then about all its children, and only then goes down
into the tree of each child, where it asks about the child once more. So it is neither a walk in
pre-order nor one level by level. This module says which of the nodes that satisfy the predicate it
stops at: the one whose path it reaches first (`Node.ReachedFirst`), where at every node on the way
to it everything that is looked at earlier has been rejected (`Node.Passes`). The condition tells
the answer, for what is found meets it (`reachedFirst_of_found`) and what meets it is found
(`found_of_reachedFirst`). Nothing is found exactly if no node of the tree satisfies the predicate
(`found_search_eq_none_iff`), and no node is asked about more than twice (`timesAsked_search_le`).

What is done with the children of a node, asking them or searching them, is done in turn
(`inTurn`), and what holds of searches in turn is proved once for both.
-/

namespace TypeScribe.Dump.Node

variable {predicate : Node → Bool}

/-! ## One search after another -/

/-- One search after another finds what the first finds, or what the second does. -/
theorem Search.found_orElse_eq_or (first : Search) (second : Unit → Search) :
    (first.orElse second).found = first.found.or (second ()).found := by
  rw [Search.orElse]
  cases hfound : first.found with
  | none => rfl
  | some found => exact hfound

/-- The second search asks only if the first one found nothing. -/
theorem Search.asked_orElse (first : Search) (second : Unit → Search) :
    (first.orElse second).asked =
      first.asked ++ if first.found.isSome then [] else (second ()).asked := by
  rw [Search.orElse]
  cases first.found <;> simp

/-- It asks only nodes that one of the two asks. -/
theorem Search.mem_asked_orElse {first : Search} {second : Unit → Search} {asked : Found}
    (h : asked ∈ (first.orElse second).asked) :
    asked ∈ first.asked ∨ asked ∈ (second ()).asked := by
  rw [asked_orElse, List.mem_append] at h
  refine h.imp_right fun h => ?_
  split at h
  · cases h
  · exact h

/-- How often the node at the path is asked about. -/
def Search.timesAsked (search : Search) (path : List Nat) : Nat :=
  search.asked.countP (·.path == path)

/-- It asks no node more often than the two together. -/
theorem Search.timesAsked_orElse_le (first : Search) (second : Unit → Search) (path : List Nat) :
    (first.orElse second).timesAsked path ≤
      first.timesAsked path + (second ()).timesAsked path := by
  rw [timesAsked, asked_orElse, List.countP_append]
  refine Nat.add_le_add_left ?_ _
  split
  · exact Nat.zero_le _
  · exact Nat.le_refl _

/-- A node that is not asked is asked no times. -/
theorem Search.timesAsked_eq_zero {search : Search} {path : List Nat}
    (h : ∀ asked ∈ search.asked, asked.path ≠ path) : search.timesAsked path = 0 := by
  rw [timesAsked, List.countP_eq_zero]
  simpa using h

theorem found_ask_eq_some_iff {asked found : Found} :
    (ask predicate asked).found = some found ↔ predicate asked.node = true ∧ found = asked := by
  cases hholds : predicate asked.node <;> simp [ask, hholds, eq_comm]

theorem found_ask_eq_none_iff {asked : Found} :
    (ask predicate asked).found = none ↔ predicate asked.node = false := by
  cases hholds : predicate asked.node <;> simp [ask, hholds]

/-! ## Trees in turn -/

/-- Takes one step for each of the trees in turn, which are children from `index` on, until one
finds something. -/
def inTurn (step : Nat → Node → Search) (index : Nat) : List Node → Search
  | [] => ⟨[], none⟩
  | tree :: rest => (step index tree).orElse fun _ => inTurn step (index + 1) rest

/-- Asking about the child at an index. -/
def askAt (predicate : Node → Bool) (index : Nat) (child : Node) : Search :=
  ask predicate ⟨[index], child⟩

/-- Searching the tree of the child at an index. -/
def searchAt (predicate : Node → Bool) (index : Nat) (child : Node) : Search :=
  (child.search predicate).below index

/-- Several nodes are asked one after the other. -/
theorem askAmong_eq_inTurn (index : Nat) (trees : List Node) :
    askAmong predicate index trees = inTurn (askAt predicate) index trees := by
  induction trees generalizing index with
  | nil => rfl
  | cons tree rest ih =>
    rw [askAmong, inTurn, ← ih]
    rfl

/-- Several trees are searched one after the other. -/
theorem searchAmong_eq_inTurn (index : Nat) (trees : List Node) :
    searchAmong predicate index trees = inTurn (searchAt predicate) index trees := by
  induction trees generalizing index with
  | nil => rfl
  | cons tree rest ih =>
    rw [searchAmong, inTurn, ← ih]
    rfl

/-- A search asks the node, then all of its children, and then searches each of them. -/
theorem search_eq (node : Node) :
    node.search predicate =
      (ask predicate ⟨[], node⟩).orElse fun _ =>
        (inTurn (askAt predicate) 0 node.children).orElse fun _ =>
          inTurn (searchAt predicate) 0 node.children := by
  obtain ⟨name, attributes, tokens, children⟩ := node
  rw [search, askAmong_eq_inTurn, searchAmong_eq_inTurn]

section InTurn

variable {step : Nat → Node → Search} {index : Nat} {trees : List Node}

/-- What holds of the first tree and of the later ones holds of each tree at its index. -/
theorem forall_getElem?_cons {P : Nat → Node → Prop} {tree : Node} {rest : List Node} :
    (∀ k other, (tree :: rest)[k]? = some other → P (index + k) other) ↔
      P index tree ∧ ∀ k other, rest[k]? = some other → P (index + 1 + k) other := by
  constructor
  · intro h
    refine ⟨h 0 tree rfl, fun k other hother => ?_⟩
    rw [Nat.add_assoc, Nat.add_comm 1]
    exact h (k + 1) other hother
  · rintro ⟨hfirst, hrest⟩ k other hother
    cases k with
    | zero =>
      cases hother
      exact hfirst
    | succ k =>
      rw [Nat.add_comm k, ← Nat.add_assoc]
      exact hrest k other hother

/-- What holds at every index of a list holds of all of its members. -/
theorem forall_getElem?_iff {P : Node → Prop} :
    (∀ (k : Nat) (tree : Node), trees[k]? = some tree → P tree) ↔ ∀ tree ∈ trees, P tree := by
  constructor
  · intro h tree htree
    obtain ⟨k, hk⟩ := List.mem_iff_getElem?.1 htree
    exact h k tree hk
  · exact fun h k tree hk => h tree (List.mem_of_getElem? hk)

/-- Searches in turn find nothing if none of them does. -/
theorem found_inTurn_eq_none_iff :
    (inTurn step index trees).found = none ↔
      ∀ k tree, trees[k]? = some tree → (step (index + k) tree).found = none := by
  induction trees generalizing index with
  | nil => simp [inTurn]
  | cons tree rest ih =>
    rw [inTurn, Search.found_orElse_eq_or, Option.or_eq_none_iff, ih,
      forall_getElem?_cons (P := fun k tree => (step k tree).found = none)]

/-- The trees in turn find what one of them finds, where no earlier one finds anything. -/
theorem found_inTurn_eq_some_iff {found : Found} :
    (inTurn step index trees).found = some found ↔
      ∃ k tree, trees[k]? = some tree ∧ (step (index + k) tree).found = some found ∧
        ∀ j < k, ∀ earlier, trees[j]? = some earlier → (step (index + j) earlier).found = none := by
  induction trees generalizing index with
  | nil => simp [inTurn]
  | cons tree rest ih =>
    rw [inTurn, Search.found_orElse_eq_or, Option.or_eq_some_iff, ih]
    constructor
    · rintro (hfirst | ⟨hnone, k, other, hother, hfound, hearlier⟩)
      · exact ⟨0, tree, rfl, hfirst, fun j hj => absurd hj (Nat.not_lt_zero j)⟩
      · refine ⟨k + 1, other, hother, by rwa [Nat.add_comm k, ← Nat.add_assoc], ?_⟩
        intro j hj earlier hget
        cases j with
        | zero =>
          cases hget
          exact hnone
        | succ j =>
          rw [Nat.add_comm j, ← Nat.add_assoc]
          exact hearlier j (by omega) earlier hget
    · rintro ⟨k, other, hother, hfound, hearlier⟩
      cases k with
      | zero =>
        cases hother
        exact .inl hfound
      | succ k =>
        refine .inr ⟨hearlier 0 (by omega) tree rfl, k, other, hother, ?_, ?_⟩
        · rwa [Nat.add_assoc, Nat.add_comm 1]
        · intro j hj earlier hget
          rw [Nat.add_assoc, Nat.add_comm 1]
          exact hearlier (j + 1) (by omega) earlier hget

/-- What searches in turn ask, one of them asks. -/
theorem exists_of_mem_asked_inTurn {asked : Found} (h : asked ∈ (inTurn step index trees).asked) :
    ∃ k tree, trees[k]? = some tree ∧ asked ∈ (step (index + k) tree).asked := by
  induction trees generalizing index with
  | nil => cases h
  | cons tree rest ih =>
    rcases Search.mem_asked_orElse h with h | h
    · exact ⟨0, tree, rfl, h⟩
    · obtain ⟨k, other, hother, hasked⟩ := ih h
      exact ⟨k + 1, other, hother, by rwa [Nat.add_comm k, ← Nat.add_assoc]⟩

/-- Where each tree is asked about under its own index only, the trees in turn ask no more often
about a path than the one tree that the path leads to. -/
theorem timesAsked_inTurn_le {path : List Nat} {bound : Nat}
    (hown : ∀ k tree, ∀ asked ∈ (step k tree).asked, asked.path.head? = some k)
    (hbound : ∀ k tree, trees[k]? = some tree → (step (index + k) tree).timesAsked path ≤ bound) :
    (inTurn step index trees).timesAsked path ≤ bound := by
  induction trees generalizing index with
  | nil => exact Nat.zero_le _
  | cons tree rest ih =>
    obtain ⟨hfirst, hrest⟩ :=
      (forall_getElem?_cons (P := fun k tree => (step k tree).timesAsked path ≤ bound)).1 hbound
    refine Nat.le_trans (Search.timesAsked_orElse_le _ _ path) ?_
    by_cases hhead : path.head? = some index
    · have hlater : (inTurn step (index + 1) rest).timesAsked path = 0 := by
        refine Search.timesAsked_eq_zero fun asked hasked heq => ?_
        obtain ⟨k, other, -, hother⟩ := exists_of_mem_asked_inTurn hasked
        have hindex : some (index + 1 + k) = some index := by
          rw [← hown _ other asked hother, heq, hhead]
        have := Option.some.inj hindex
        omega
      rw [hlater]
      exact hfirst
    · have hnow : (step index tree).timesAsked path = 0 :=
        Search.timesAsked_eq_zero fun asked hasked heq =>
          hhead (heq ▸ hown index tree asked hasked)
      rw [hnow, Nat.zero_add]
      exact ih hrest

end InTurn

/-! ## How a search comes to an answer -/

theorem found_askAt_eq_none_iff {index : Nat} {child : Node} :
    (askAt predicate index child).found = none ↔ predicate child = false :=
  found_ask_eq_none_iff

/-- A child that is asked is found at its index. -/
theorem found_askAt_eq_some_iff {index : Nat} {child : Node} {found : Found} :
    (askAt predicate index child).found = some found ↔
      predicate child = true ∧ found = ⟨[index], child⟩ :=
  found_ask_eq_some_iff

theorem found_searchAt_eq_none_iff {index : Nat} {child : Node} :
    (searchAt predicate index child).found = none ↔ (child.search predicate).found = none :=
  Option.map_eq_none_iff

/-- What is found in a child is found below its index. -/
theorem found_searchAt_eq_some_iff {index : Nat} {child : Node} {found : Found} :
    (searchAt predicate index child).found = some found ↔
      ∃ inner, (child.search predicate).found = some inner ∧ inner.below index = found :=
  Option.map_eq_some_iff

/-- Asking about trees in turn finds nothing if none of them satisfies the predicate. -/
theorem found_askAll_eq_none_iff {trees : List Node} :
    (inTurn (askAt predicate) 0 trees).found = none ↔ ∀ tree ∈ trees, predicate tree = false := by
  simp only [found_inTurn_eq_none_iff, found_askAt_eq_none_iff, forall_getElem?_iff]

/-- Searching trees in turn finds nothing if no search does. -/
theorem found_searchAll_eq_none_iff {trees : List Node} :
    (inTurn (searchAt predicate) 0 trees).found = none ↔
      ∀ tree ∈ trees, (tree.search predicate).found = none := by
  simp only [found_inTurn_eq_none_iff, found_searchAt_eq_none_iff, forall_getElem?_iff]

/-- A search finds nothing exactly if no node of the tree satisfies the predicate. -/
theorem found_search_eq_none_iff {node : Node} :
    (node.search predicate).found = none ↔ ∀ below ∈ node.nodes, predicate below = false := by
  induction node using induction_on_children with
  | step node ih =>
    have hsearches : (∀ child ∈ node.children, (child.search predicate).found = none) ↔
        ∀ below ∈ node.children.flatMap nodes, predicate below = false := by
      rw [List.forall_mem_flatMap]
      exact forall₂_congr fun child hchild => ih child hchild
    rw [search_eq, Search.found_orElse_eq_or, Search.found_orElse_eq_or, Option.or_eq_none_iff,
      Option.or_eq_none_iff, found_ask_eq_none_iff, found_askAll_eq_none_iff,
      found_searchAll_eq_none_iff, hsearches, nodes_eq_cons, List.forall_mem_cons]
    refine and_congr_right fun _ => and_iff_right_of_imp fun hall child hchild => ?_
    exact hall child (List.mem_flatMap.2 ⟨child, hchild, mem_nodes_self child⟩)

theorem findWhere_eq_none_iff {node : Node} :
    node.findWhere predicate = none ↔ ∀ below ∈ node.nodes, predicate below = false := by
  rw [findWhere, Option.map_eq_none_iff, found_search_eq_none_iff]

/-- A search finds a node exactly if one of the tree satisfies the predicate. -/
theorem exists_findWhere_iff {node : Node} :
    (∃ hit, node.findWhere predicate = some hit) ↔
      ∃ below ∈ node.nodes, predicate below = true := by
  rw [← Option.ne_none_iff_exists', Ne, findWhere_eq_none_iff]
  simp

/-- A search finds the only node that satisfies the predicate. -/
theorem findWhere_of_filter_eq_singleton {node only : Node}
    (h : node.nodes.filter predicate = [only]) : node.findWhere predicate = some only := by
  have honly : only ∈ node.nodes.filter predicate := by rw [h]; exact List.mem_cons_self
  obtain ⟨hmem, hholds⟩ := List.mem_filter.1 honly
  obtain ⟨hit, hhit⟩ := exists_findWhere_iff.2 ⟨only, hmem, hholds⟩
  have hfound : hit ∈ node.nodes.filter predicate := List.mem_filter.2 (findWhere_spec hhit)
  rw [h] at hfound
  rw [hhit, List.mem_singleton.1 hfound]

/-- How a search comes to an answer: with the node itself; or with a child, of which no earlier one
satisfies the predicate; or, if no child does, with what the search of a child finds, where nothing
in the trees before it satisfies the predicate. -/
theorem found_search_eq_some_iff {node : Node} {found : Found} :
    (node.search predicate).found = some found ↔
      (predicate node = true ∧ found = ⟨[], node⟩) ∨
      (predicate node = false ∧ ∃ (k : Nat) (child : Node), node.children[k]? = some child ∧
        (predicate child = true ∧ found = ⟨[k], child⟩) ∧
        ∀ j < k, ∀ earlier, node.children[j]? = some earlier → predicate earlier = false) ∨
      (predicate node = false ∧ (∀ child ∈ node.children, predicate child = false) ∧
        ∃ (k : Nat) (child : Node), node.children[k]? = some child ∧
          (∃ inner, (child.search predicate).found = some inner ∧ inner.below k = found) ∧
          ∀ j < k, ∀ earlier, node.children[j]? = some earlier →
            ∀ below ∈ earlier.nodes, predicate below = false) := by
  rw [search_eq, Search.found_orElse_eq_or, Search.found_orElse_eq_or, Option.or_eq_some_iff,
    Option.or_eq_some_iff, found_ask_eq_some_iff, found_ask_eq_none_iff, found_askAll_eq_none_iff,
    found_inTurn_eq_some_iff, found_inTurn_eq_some_iff, and_or_left]
  simp only [Nat.zero_add, found_askAt_eq_none_iff, found_askAt_eq_some_iff,
    found_searchAt_eq_none_iff, found_searchAt_eq_some_iff, found_search_eq_none_iff]

/-! ## The path that is reached first -/

/-- What a search has rejected when it stops at a node below `node`, where the way to it goes on to
the child at `index` and from there along `rest`: the node itself; the children before the one at
`index`; and if that child is not the one searched for, all children, and whatever is in the trees
of those before it. -/
structure Passes (predicate : Node → Bool) (node : Node) (index : Nat) (rest : List Nat) :
    Prop where
  self : predicate node = false
  earlier : ∀ k < index, ∀ child, node.children[k]? = some child → predicate child = false
  children : rest ≠ [] → ∀ child ∈ node.children, predicate child = false
  trees : rest ≠ [] → ∀ k < index, ∀ child, node.children[k]? = some child →
    ∀ below ∈ child.nodes, predicate below = false

/-- The path is reached before anything else that may satisfy the predicate: every node above its
end is passed. -/
def ReachedFirst (predicate : Node → Bool) (root : Node) (path : List Nat) : Prop :=
  ∀ above index rest, path = above ++ index :: rest → ∀ node, root.get? above = some node →
    node.Passes predicate index rest

theorem reachedFirst_nil (root : Node) : root.ReachedFirst predicate [] := by
  intro above index rest hpath
  cases above <;> cases hpath

/-- A path leads on from the child that it starts with. -/
theorem get?_cons_eq_some_iff {node below : Node} {index : Nat} {path : List Nat} :
    node.get? (index :: path) = some below ↔
      ∃ child, node.children[index]? = some child ∧ child.get? path = some below :=
  Option.bind_eq_some_iff

/-- The way to a path goes through the root, and from a child on it is the way in the child's
tree. -/
theorem reachedFirst_cons {root child : Node} {index : Nat} {path : List Nat}
    (hchild : root.children[index]? = some child) :
    root.ReachedFirst predicate (index :: path) ↔
      root.Passes predicate index path ∧ child.ReachedFirst predicate path := by
  constructor
  · intro h
    refine ⟨h [] index path rfl root rfl, fun above next rest hpath node hnode => ?_⟩
    refine h (index :: above) next rest (by rw [hpath, List.cons_append]) node ?_
    exact get?_cons_eq_some_iff.2 ⟨child, hchild, hnode⟩
  · rintro ⟨hroot, hbelow⟩ above next rest hpath node hnode
    cases above with
    | nil =>
      cases hpath
      cases hnode
      exact hroot
    | cons first above =>
      obtain ⟨rfl, hlater⟩ := List.cons.inj hpath
      obtain ⟨other, hother, hnode⟩ := get?_cons_eq_some_iff.1 hnode
      obtain rfl := Option.some.inj (hchild.symm.trans hother)
      exact hbelow above next rest hlater node hnode

/-- What a search stops at satisfies the predicate and is reached first. -/
theorem reachedFirst_of_found {root hit : Node} {path : List Nat}
    (h : (root.search predicate).found = some ⟨path, hit⟩) :
    root.get? path = some hit ∧ predicate hit = true ∧ root.ReachedFirst predicate path := by
  induction path generalizing root with
  | nil =>
    rcases found_search_eq_some_iff.1 h with ⟨hholds, heq⟩ | ⟨-, k, child, -, ⟨-, heq⟩, -⟩ |
      ⟨-, -, k, child, -, ⟨inner, -, heq⟩, -⟩
    · cases heq
      exact ⟨rfl, hholds, reachedFirst_nil _⟩
    · cases heq
    · cases heq
  | cons index path ih =>
    rcases found_search_eq_some_iff.1 h with ⟨-, heq⟩ |
      ⟨hroot, k, child, hchild, ⟨hholds, heq⟩, hearlier⟩ |
      ⟨hroot, hchildren, k, child, hchild, ⟨⟨inner, below⟩, hinner, heq⟩, htrees⟩
    · cases heq
    · cases heq
      -- The hit is a child: nothing is asked of the other children of the root.
      have hpasses : root.Passes predicate index [] :=
        ⟨hroot, hearlier, fun hne => absurd rfl hne, fun hne => absurd rfl hne⟩
      exact ⟨get?_cons_eq_some_iff.2 ⟨_, hchild, rfl⟩, hholds,
        (reachedFirst_cons hchild).2 ⟨hpasses, reachedFirst_nil _⟩⟩
    · cases heq
      obtain ⟨hget, hholds, hreached⟩ := ih hinner
      have hpasses : root.Passes predicate index inner :=
        ⟨hroot, fun _ _ earlier hget => hchildren earlier (List.mem_of_getElem? hget),
          fun _ => hchildren, fun _ => htrees⟩
      exact ⟨get?_cons_eq_some_iff.2 ⟨child, hchild, hget⟩, hholds,
        (reachedFirst_cons hchild).2 ⟨hpasses, hreached⟩⟩

/-- A search stops at the node that satisfies the predicate and is reached first. -/
theorem found_of_reachedFirst {root hit : Node} {path : List Nat}
    (hget : root.get? path = some hit) (hholds : predicate hit = true)
    (hreached : root.ReachedFirst predicate path) :
    (root.search predicate).found = some ⟨path, hit⟩ := by
  induction path generalizing root with
  | nil =>
    cases hget
    exact found_search_eq_some_iff.2 (.inl ⟨hholds, rfl⟩)
  | cons index path ih =>
    obtain ⟨child, hchild, hget⟩ := get?_cons_eq_some_iff.1 hget
    obtain ⟨hpasses, hbelow⟩ := (reachedFirst_cons hchild).1 hreached
    cases path with
    | nil =>
      cases hget
      exact found_search_eq_some_iff.2
        (.inr (.inl ⟨hpasses.self, index, _, hchild, ⟨hholds, rfl⟩, hpasses.earlier⟩))
    | cons next path =>
      have hne : next :: path ≠ [] := List.cons_ne_nil _ _
      have hinner := ih hget hbelow
      exact found_search_eq_some_iff.2
        (.inr (.inr ⟨hpasses.self, hpasses.children hne, index, child, hchild,
          ⟨_, hinner, rfl⟩, hpasses.trees hne⟩))

/-! ## What is asked -/

/-- What a search finds is the first node it asks about that satisfies the predicate. -/
def Search.StopsAtFirst (predicate : Node → Bool) (search : Search) : Prop :=
  search.found = search.asked.find? fun asked => predicate asked.node

theorem stopsAtFirst_ask (asked : Found) : (ask predicate asked).StopsAtFirst predicate := by
  rw [Search.StopsAtFirst, ask, List.find?_singleton]

/-- One search after another stops at the first find if both do. -/
theorem Search.StopsAtFirst.orElse {first : Search} {second : Unit → Search}
    (hfirst : first.StopsAtFirst predicate) (hsecond : (second ()).StopsAtFirst predicate) :
    (first.orElse second).StopsAtFirst predicate := by
  rw [StopsAtFirst, found_orElse_eq_or, asked_orElse, List.find?_append, ← hfirst]
  cases first.found with
  | none => rw [Option.none_or, Option.none_or, hsecond]; rfl
  | some found => rfl

/-- Seen from above, a search still stops at its first find. -/
theorem Search.StopsAtFirst.below {search : Search} (h : search.StopsAtFirst predicate)
    (index : Nat) : (search.below index).StopsAtFirst predicate := by
  rw [StopsAtFirst, Search.below, h, List.find?_map]
  rfl

/-- Searches in turn stop at the first find if each of them does. -/
theorem stopsAtFirst_inTurn {step : Nat → Node → Search} {index : Nat} {trees : List Node}
    (h : ∀ k, ∀ tree ∈ trees, (step k tree).StopsAtFirst predicate) :
    (inTurn step index trees).StopsAtFirst predicate := by
  induction trees generalizing index with
  | nil => rfl
  | cons tree rest ih =>
    refine (h index tree List.mem_cons_self).orElse (ih fun k other hother => ?_)
    exact h k other (List.mem_cons_of_mem _ hother)

/-- A search stops at its first find. -/
theorem stopsAtFirst_search (node : Node) :
    (node.search predicate).StopsAtFirst predicate := by
  induction node using induction_on_children with
  | step node ih =>
    rw [search_eq]
    refine (stopsAtFirst_ask _).orElse (.orElse ?_ ?_)
    · exact stopsAtFirst_inTurn fun k child _ => stopsAtFirst_ask _
    · exact stopsAtFirst_inTurn fun k child hchild => (ih child hchild).below k

/-- What a search asks about: the node, its children, and what the searches of these ask about. -/
theorem mem_asked_cases {node : Node} {asked : Found}
    (h : asked ∈ (node.search predicate).asked) :
    asked = ⟨[], node⟩ ∨ ∃ (k : Nat) (child : Node), node.children[k]? = some child ∧
      (asked = ⟨[k], child⟩ ∨ ∃ inner ∈ (child.search predicate).asked, inner.below k = asked) := by
  rw [search_eq] at h
  rcases Search.mem_asked_orElse h with h | h
  · exact .inl (List.mem_singleton.1 h)
  · rcases Search.mem_asked_orElse h with h | h
    · obtain ⟨k, child, hchild, hasked⟩ := exists_of_mem_asked_inTurn h
      rw [Nat.zero_add] at hasked
      exact .inr ⟨k, child, hchild, .inl (List.mem_singleton.1 hasked)⟩
    · obtain ⟨k, child, hchild, hasked⟩ := exists_of_mem_asked_inTurn h
      rw [Nat.zero_add] at hasked
      exact .inr ⟨k, child, hchild, .inr (List.mem_map.1 hasked)⟩

/-- A search asks about nodes of the tree, each at its path. -/
theorem get?_of_mem_asked {node : Node} {asked : Found}
    (h : asked ∈ (node.search predicate).asked) : node.get? asked.path = some asked.node := by
  induction node using induction_on_children generalizing asked with
  | step node ih =>
    rcases mem_asked_cases h with rfl | ⟨k, child, hchild, rfl | ⟨inner, hinner, rfl⟩⟩
    · rfl
    · exact get?_cons_eq_some_iff.2 ⟨child, hchild, rfl⟩
    · exact get?_cons_eq_some_iff.2 ⟨child, hchild, ih child (List.mem_of_getElem? hchild) hinner⟩

/-- Seen from above, a node is asked no more often. -/
theorem Search.timesAsked_below_le (search : Search) (index next : Nat) (path : List Nat) :
    (search.below index).timesAsked (next :: path) ≤ search.timesAsked path := by
  rw [timesAsked, Search.below, List.countP_map, timesAsked]
  refine List.countP_mono_left fun asked _ hasked => ?_
  simp only [Function.comp_apply, Found.below, beq_iff_eq] at hasked ⊢
  exact (List.cons.inj hasked).2

/-- Asking about the children asks once about each of them and about nothing below. -/
theorem timesAsked_askAll_le (trees : List Node) (index : Nat) (path : List Nat) :
    (inTurn (askAt predicate) 0 trees).timesAsked (index :: path) ≤ if path = [] then 1 else 0 := by
  refine timesAsked_inTurn_le (fun k tree asked hasked => ?_) fun k tree _ => ?_
  · rw [List.mem_singleton.1 hasked]
    rfl
  · rw [askAt, ask, Search.timesAsked, List.countP_singleton, Nat.zero_add]
    cases path with
    | nil => split <;> simp
    | cons next path => simp

/-- Searching the children asks about a path as often as the search of one of them does. -/
theorem timesAsked_searchAll_le {trees : List Node} {index bound : Nat} {path : List Nat}
    (h : ∀ tree ∈ trees, (tree.search predicate).timesAsked path ≤ bound) :
    (inTurn (searchAt predicate) 0 trees).timesAsked (index :: path) ≤ bound := by
  refine timesAsked_inTurn_le (fun k tree asked hasked => ?_) fun k tree htree => ?_
  · obtain ⟨inner, -, rfl⟩ := List.mem_map.1 hasked
    rfl
  · exact Nat.le_trans (Search.timesAsked_below_le _ _ _ _) (h tree (List.mem_of_getElem? htree))

/-- A search asks about its root once and about no other node more than twice: once with its
siblings, and once more when it goes down into its tree. -/
theorem timesAsked_search_le (node : Node) (path : List Nat) :
    (node.search predicate).timesAsked path ≤ if path = [] then 1 else 2 := by
  induction path generalizing node with
  | nil =>
    -- Below the root every path has an index.
    have hbelow : ∀ asked ∈ ((inTurn (askAt predicate) 0 node.children).orElse fun _ =>
        inTurn (searchAt predicate) 0 node.children).asked, asked.path ≠ [] := by
      intro asked hasked
      rcases Search.mem_asked_orElse hasked with h | h
      · obtain ⟨k, child, -, hown⟩ := exists_of_mem_asked_inTurn h
        rw [List.mem_singleton.1 hown]
        exact List.cons_ne_nil _ _
      · obtain ⟨k, child, -, hown⟩ := exists_of_mem_asked_inTurn h
        obtain ⟨inner, -, rfl⟩ := List.mem_map.1 hown
        exact List.cons_ne_nil _ _
    rw [search_eq]
    refine Nat.le_trans (Search.timesAsked_orElse_le _ _ _) ?_
    rw [Search.timesAsked_eq_zero hbelow]
    exact List.countP_le_length
  | cons index path ih =>
    have hself : (ask predicate ⟨[], node⟩).timesAsked (index :: path) = 0 := by
      refine Search.timesAsked_eq_zero fun asked hasked => ?_
      rw [List.mem_singleton.1 hasked]
      exact (List.cons_ne_nil _ _).symm
    have hchildren : (inTurn (askAt predicate) 0 node.children).timesAsked (index :: path) ≤
        if path = [] then 1 else 0 := timesAsked_askAll_le _ _ _
    have htrees : (inTurn (searchAt predicate) 0 node.children).timesAsked (index :: path) ≤
        if path = [] then 1 else 2 := timesAsked_searchAll_le fun tree _ => ih tree
    rw [search_eq, if_neg (List.cons_ne_nil _ _)]
    refine Nat.le_trans (Search.timesAsked_orElse_le _ _ _) ?_
    rw [hself, Nat.zero_add]
    refine Nat.le_trans (Search.timesAsked_orElse_le _ _ _) ?_
    refine Nat.le_trans (Nat.add_le_add hchildren htrees) ?_
    split <;> omega

/-! ## The whole search -/

/-- The search for a predicate finds a node exactly if the walk lists one that satisfies it. It
stops at the node whose path is reached first: every node above it is rejected, and so are all
children of the nodes that are two levels above it or more, its own siblings before it, and
everything in the trees of the siblings before a node on the way. It asks about nodes of the tree
only, stops at the first one that satisfies the predicate, and asks about none more than twice. -/
theorem findWhere_reaches_first (root : Node) (predicate : Node → Bool) :
    ((∃ hit, root.findWhere predicate = some hit) ↔
      ∃ entry ∈ root.walk, predicate entry.2 = true) ∧
    (∀ path hit, (root.search predicate).found = some ⟨path, hit⟩ ↔
      root.get? path = some hit ∧ predicate hit = true ∧ root.ReachedFirst predicate path) ∧
    (root.search predicate).StopsAtFirst predicate ∧
    (∀ asked ∈ (root.search predicate).asked, root.get? asked.path = some asked.node) ∧
    ∀ path, (root.search predicate).timesAsked path ≤ 2 := by
  refine ⟨?_, fun path hit => ⟨reachedFirst_of_found, fun h => ?_⟩, stopsAtFirst_search root,
    fun asked hasked => get?_of_mem_asked hasked, fun path => ?_⟩
  · rw [exists_findWhere_iff, nodes]
    constructor
    · rintro ⟨below, hbelow, hholds⟩
      obtain ⟨entry, hentry, rfl⟩ := List.mem_map.1 hbelow
      exact ⟨entry, hentry, hholds⟩
    · rintro ⟨entry, hentry, hholds⟩
      exact ⟨entry.2, List.mem_map_of_mem hentry, hholds⟩
  · exact found_of_reachedFirst h.1 h.2.1 h.2.2
  · refine Nat.le_trans (timesAsked_search_le root path) ?_
    split <;> omega

/-- A child that satisfies the predicate comes before one that is below an earlier child. -/
example :
    ((Node.mk "call_expr" [] []
      [⟨"paren_expr", [], [], [⟨"closure_expr", [], [], []⟩]⟩, ⟨"closure_expr", [], [], []⟩]).search
        (·.name == "closure_expr")).found.map Found.path = some [1] := by
  decide

end TypeScribe.Dump.Node
