import Mathlib.Data.List.Flatten
import Mathlib.Data.List.Nodup
import TypeScribe.Proofs.Dump.Layout
import TypeScribe.Proofs.Dump.Search

/-!
# The order of a dump

A tour of a tree keeps a stack of the nodes that are left to visit. What a tour does with two stacks
on top of each other it does with one after the other (`tourFrom_append`), so a node is followed by
the tours of its children, and the tour meets the nodes of the recursive walk
(`map_tour_eq_walk`), each at its own place (`mem_tour_iff`) and once (`nodup_paths_tour`).

A node of the dump has its entries mixed; as a node of the tree it has them by kind
(`Entry.Shuffle`). Its walk lists the tree in the order in which the dump opens its nodes
(`walk_ofRaw_opens_in_order`), whatever gaps the dump has.
-/

namespace TypeScribe.Dump

namespace Node

/-! ## Tours -/

/-- A tour of one stack on top of another is a tour of the first and then of the second. -/
theorem tourFrom_append (upper lower : List (Nat × Found)) :
    tourFrom (upper ++ lower) = tourFrom upper ++ tourFrom lower := by
  induction upper using tourFrom.induct with
  | case1 => rw [tourFrom, List.nil_append, List.nil_append]
  | case2 depth found stack ih =>
    rw [List.cons_append, tourFrom, tourFrom, ← List.append_assoc, ih, List.cons_append]

/-- A node is followed by the tours of its children. -/
theorem tourFrom_cons (depth : Nat) (found : Found) (stack : List (Nat × Found)) :
    tourFrom ((depth, found) :: stack) =
      (depth, found) ::
        (found.children.flatMap fun child => tourFrom [(depth + 1, child)]) ++ tourFrom stack := by
  have heach : ∀ children : List Found,
      tourFrom (children.map fun child => (depth + 1, child)) =
        children.flatMap fun child => tourFrom [(depth + 1, child)] := by
    intro children
    induction children with
    | nil => rw [List.map_nil, tourFrom, List.flatMap_nil]
    | cons child rest ih =>
      rw [List.map_cons, List.flatMap_cons, ← ih, ← tourFrom_append, List.singleton_append]
  rw [tourFrom, tourFrom_append, heach, List.cons_append]

/-- A tour goes from a node to its children, one tree after the other. -/
theorem tourFrom_singleton (depth : Nat) (found : Found) :
    tourFrom [(depth, found)] =
      (depth, found) :: found.children.flatMap fun child => tourFrom [(depth + 1, child)] := by
  rw [tourFrom_cons, tourFrom, List.append_nil]

/-- A child is at its parent's path and its own index. -/
theorem mem_children_iff {found child : Found} :
    child ∈ found.children ↔
      ∃ index, found.node.children[index]? = some child.node ∧
        child.path = found.path ++ [index] := by
  rw [Found.children, List.mem_map]
  constructor
  · rintro ⟨⟨node, index⟩, hmem, rfl⟩
    exact ⟨index, List.mem_zipIdx_iff_getElem?.1 hmem, rfl⟩
  · rintro ⟨index, hget, hpath⟩
    obtain ⟨path, node⟩ := child
    obtain rfl : path = found.path ++ [index] := hpath
    exact ⟨(node, index), List.mem_zipIdx_iff_getElem?.2 hget, rfl⟩

/-- The node of a child is a child of the node. -/
theorem node_mem_children {found child : Found} (h : child ∈ found.children) :
    child.node ∈ found.node.children := by
  obtain ⟨index, hget, -⟩ := mem_children_iff.1 h
  exact List.mem_of_getElem? hget

/-- Induction on the tree below a place: a property of all children passes to the node. -/
theorem induction_on_places {P : Found → Prop}
    (step : ∀ found : Found, (∀ child ∈ found.children, P child) → P found) (found : Found) :
    P found := by
  obtain ⟨path, node⟩ := found
  induction node using induction_on_children generalizing path with
  | step node ih =>
    refine step _ fun child hchild => ?_
    exact ih child.node (node_mem_children hchild) child.path

/-- A tour with a stack meets the nodes of the recursive walk, with the same depths. -/
theorem map_tourFrom_eq_walkFrom (depth : Nat) (found : Found) :
    (tourFrom [(depth, found)]).map (fun entry => (entry.1, entry.2.node)) =
      found.node.walkFrom depth := by
  induction found using induction_on_places generalizing depth with
  | step found ih =>
    have hchildren : (found.children.flatMap fun child => tourFrom [(depth + 1, child)]).map
        (fun entry => (entry.1, entry.2.node)) =
          (found.children.map Found.node).flatMap (walkFrom (depth + 1)) := by
      rw [List.map_flatMap, List.flatMap_map]
      exact List.flatMap_congr fun child hchild => ih child hchild (depth + 1)
    rw [tourFrom_singleton, List.map_cons, hchildren, found.map_node_children, walkFrom_eq_cons]

theorem map_tour_eq_walk (root : Node) :
    root.tour.map (fun entry => (entry.1, entry.2.node)) = root.walk :=
  map_tourFrom_eq_walkFrom 0 ⟨[], root⟩

/-! ## Places -/

/-- A tour of the tree below a place lists the places below it, with their depths. -/
theorem mem_tourFrom_iff {depth : Nat} {found : Found} {entry : Nat × Found} :
    entry ∈ tourFrom [(depth, found)] ↔
      ∃ rest, entry.2.path = found.path ++ rest ∧ entry.1 = depth + rest.length ∧
        found.node.get? rest = some entry.2.node := by
  induction found using induction_on_places generalizing depth with
  | step found ih =>
    rw [tourFrom_singleton, List.mem_cons, List.mem_flatMap]
    constructor
    · rintro (rfl | ⟨child, hchild, hentry⟩)
      · exact ⟨[], (List.append_nil _).symm, rfl, rfl⟩
      · obtain ⟨rest, hpath, hdepth, hget⟩ := (ih child hchild).1 hentry
        obtain ⟨index, hindex, hplace⟩ := mem_children_iff.1 hchild
        refine ⟨index :: rest, ?_, ?_, ?_⟩
        · rw [hpath, hplace, List.append_assoc, List.singleton_append]
        · rw [hdepth, List.length_cons]
          omega
        · rw [get?, hindex, Option.bind_some, hget]
    · rintro ⟨rest, hpath, hdepth, hget⟩
      cases rest with
      | nil =>
        refine .inl (Prod.ext hdepth ?_)
        obtain ⟨level, path, node⟩ := entry
        cases hget
        rw [List.append_nil] at hpath
        cases hpath
        rfl
      | cons index rest =>
        obtain ⟨child, hindex, hget⟩ := Option.bind_eq_some_iff.1 hget
        have hchild : ⟨found.path ++ [index], child⟩ ∈ found.children :=
          mem_children_iff.2 ⟨index, hindex, rfl⟩
        refine .inr ⟨_, hchild, (ih _ hchild).2 ⟨rest, ?_, ?_, hget⟩⟩
        · rw [hpath, List.append_assoc, List.singleton_append]
        · rw [hdepth, List.length_cons]
          omega

/-- A tour lists the places of the tree, each with the length of its path for its depth. -/
theorem mem_tour_iff {root : Node} {depth : Nat} {found : Found} :
    (depth, found) ∈ root.tour ↔
      depth = found.path.length ∧ root.get? found.path = some found.node := by
  rw [tour, mem_tourFrom_iff]
  constructor
  · rintro ⟨rest, hpath, hdepth, hget⟩
    obtain rfl : found.path = rest := hpath
    exact ⟨by simpa using hdepth, hget⟩
  · rintro ⟨hdepth, hget⟩
    exact ⟨found.path, rfl, by simpa using hdepth, hget⟩

/-- Children are at different paths. -/
theorem nodup_paths_children (found : Found) : (found.children.map Found.path).Nodup := by
  have hpaths : found.children.map Found.path =
      (List.range' 0 found.node.children.length).map fun index => found.path ++ [index] := by
    rw [Found.children, List.map_map, ← List.zipIdx_map_snd, List.map_map]
    rfl
  rw [hpaths]
  refine (List.nodup_range' ..).map fun a b hab => ?_
  exact List.singleton_injective (List.append_cancel_left hab)

/-- No place is visited twice: the places below different children differ in the index of the
child. -/
theorem nodup_paths_tourFrom (depth : Nat) (found : Found) :
    ((tourFrom [(depth, found)]).map fun entry => entry.2.path).Nodup := by
  induction found using induction_on_places generalizing depth with
  | step found ih =>
    rw [tourFrom_singleton, List.map_cons, List.map_flatMap, List.nodup_cons]
    constructor
    · intro hmem
      obtain ⟨child, hchild, hmem⟩ := List.mem_flatMap.1 hmem
      obtain ⟨entry, hentry, hpath⟩ := List.mem_map.1 hmem
      obtain ⟨rest, hbelow, -, -⟩ := mem_tourFrom_iff.1 hentry
      obtain ⟨index, -, hplace⟩ := mem_children_iff.1 hchild
      have hlength := congrArg List.length (hpath.symm.trans hbelow)
      simp only [hplace, List.length_append, List.length_singleton] at hlength
      omega
    · refine List.nodup_flatMap.2 ⟨fun child hchild => ih child hchild _, ?_⟩
      have hapart := List.pairwise_map.1 (nodup_paths_children found)
      refine hapart.imp_of_mem fun {a b} ha hb hne path hina hinb => hne ?_
      obtain ⟨first, hfirst, rfl⟩ := List.mem_map.1 hina
      obtain ⟨second, hsecond, hsame⟩ := List.mem_map.1 hinb
      obtain ⟨after, hafter, -, -⟩ := mem_tourFrom_iff.1 hfirst
      obtain ⟨later, hlater, -, -⟩ := mem_tourFrom_iff.1 hsecond
      obtain ⟨i, -, hi⟩ := mem_children_iff.1 ha
      obtain ⟨j, -, hj⟩ := mem_children_iff.1 hb
      have hpaths : a.path ++ after = b.path ++ later := by rw [← hafter, ← hlater, hsame]
      exact (List.append_inj hpaths (by rw [hi, hj]; simp)).1

theorem nodup_paths_tour (root : Node) : (root.tour.map fun entry => entry.2.path).Nodup :=
  nodup_paths_tourFrom 0 ⟨[], root⟩

end Node

/-! ## The nodes of a dump -/

mutual
/-- The node that an entry is, if it is one, and everything below it, with their depths, parents
before children. -/
def Entry.walkFrom (depth : Nat) : Entry → List (Nat × RawNode)
  | .attr _ => []
  | .token _ => []
  | .node name value entries =>
    (depth, ⟨name, value, entries⟩) :: Entry.walkAll (depth + 1) entries

/-- The nodes of several entries, one entry after another. -/
def Entry.walkAll (depth : Nat) : List Entry → List (Nat × RawNode)
  | [] => []
  | entry :: rest => entry.walkFrom depth ++ Entry.walkAll depth rest
end

/-- Every node of a dump with its depth, parents before children, in the order of the entries. -/
def RawNode.walk (raw : RawNode) : List (Nat × RawNode) := raw.toEntry.walkFrom 0

/-- The children of a node are the nodes among its entries. -/
theorem Node.ofEntries_eq_map (entries : List Entry) :
    Node.ofEntries entries = (entries.filterMap Entry.node?).map Node.ofRaw := by
  induction entries with
  | nil => rfl
  | cons entry rest ih =>
    rw [Node.ofEntries, ih]
    cases entry with
    | attr value | token value => rfl
    | node name value entries => rw [Node.ofEntry]; rfl

mutual
/-- The tree of an entry is walked as the entry is. -/
theorem Node.walk_ofEntry (depth : Nat) : ∀ entry : Entry,
    (Node.ofEntry entry).toList.flatMap (Node.walkFrom depth) =
      (entry.walkFrom depth).map fun item => (item.1, Node.ofRaw item.2)
  | .attr _ => rfl
  | .token _ => rfl
  | .node name value entries => by
    rw [Node.ofEntry, Option.toList_some, List.flatMap_singleton, Node.walkFrom_eq_cons,
      Node.walk_ofEntries (depth + 1) entries, Entry.walkFrom, List.map_cons]
    rfl

/-- So are the trees of several entries. -/
theorem Node.walk_ofEntries (depth : Nat) : ∀ entries : List Entry,
    (Node.ofEntries entries).flatMap (Node.walkFrom depth) =
      (Entry.walkAll depth entries).map fun item => (item.1, Node.ofRaw item.2)
  | [] => rfl
  | entry :: rest => by
    rw [Node.ofEntries, List.flatMap_append, Node.walk_ofEntry depth entry,
      Node.walk_ofEntries depth rest, Entry.walkAll, List.map_append]
end

/-- The tree of a dump is walked as the dump is. -/
theorem Node.walk_ofRaw (raw : RawNode) :
    (Node.ofRaw raw).walk = raw.walk.map fun item => (item.1, Node.ofRaw item.2) := by
  rw [RawNode.walk, ← Node.walk_ofEntry, RawNode.toEntry, Node.ofEntry, Option.toList_some,
    List.flatMap_singleton]
  rfl

/-! ## Entries by kind -/

/-- The entries are the attributes, the tokens and the nodes, mixed in such a way that the order
within each kind is kept. -/
inductive Entry.Shuffle : List Entry → List Attribute → List Token → List RawNode → Prop
  | nil : Shuffle [] [] [] []
  | attr {entries : List Entry} {attributes : List Attribute} {tokens : List Token}
      {nodes : List RawNode} (value : Attribute) : Shuffle entries attributes tokens nodes →
      Shuffle (.attr value :: entries) (value :: attributes) tokens nodes
  | token {entries : List Entry} {attributes : List Attribute} {tokens : List Token}
      {nodes : List RawNode} (value : Token) : Shuffle entries attributes tokens nodes →
      Shuffle (.token value :: entries) attributes (value :: tokens) nodes
  | node {entries : List Entry} {attributes : List Attribute} {tokens : List Token}
      {nodes : List RawNode} (raw : RawNode) : Shuffle entries attributes tokens nodes →
      Shuffle (raw.toEntry :: entries) attributes tokens (raw :: nodes)

/-- Entries are a shuffle of their attributes, tokens and nodes. -/
theorem Entry.shuffle_filterMap (entries : List Entry) :
    Entry.Shuffle entries (entries.filterMap Entry.attr?) (entries.filterMap Entry.token?)
      (entries.filterMap Entry.node?) := by
  induction entries with
  | nil => exact .nil
  | cons entry rest ih =>
    cases entry with
    | attr value => exact .attr value ih
    | token value => exact .token value ih
    | node name value entries => exact .node ⟨name, value, entries⟩ ih

/-! ## Where nodes are opened -/

/-- The text of the node starts at the offset. -/
def OpensAt (text : List Char) (offset : Nat) (raw : RawNode) : Prop :=
  ∃ before inner after, text = before ++ (inner ++ after) ∧ before.length = offset ∧
    Written raw.toEntry inner

/-- The texts of the nodes start in the text one after another, in the order of the list. -/
def OpensInOrder (text : List Char) (nodes : List RawNode) : Prop :=
  ∃ offsets : List Nat, offsets.Pairwise (· < ·) ∧ (∀ offset ∈ offsets, offset < text.length) ∧
    List.Forall₂ (OpensAt text) offsets nodes

/-- A node that opens in a text opens in a longer one, as much later as the text in front is long.
-/
theorem OpensAt.within {text : List Char} {offset : Nat} {raw : RawNode}
    (h : OpensAt text offset raw) (before after : List Char) :
    OpensAt (before ++ (text ++ after)) (before.length + offset) raw := by
  obtain ⟨left, inner, right, rfl, rfl, hwritten⟩ := h
  refine ⟨before ++ left, inner, right ++ after, ?_, List.length_append, hwritten⟩
  simp only [List.append_assoc]

/-- Nodes that are opened in one text and nodes that are opened in the next are opened in both
together, as far to the right as the first text is long. -/
theorem OpensInOrder.append {first second : List Char} {nodes later : List RawNode}
    (hfirst : OpensInOrder first nodes) (hsecond : OpensInOrder second later) :
    OpensInOrder (first ++ second) (nodes ++ later) := by
  obtain ⟨offsets, hsorted, hinside, hopens⟩ := hfirst
  obtain ⟨others, hsorted', hinside', hopens'⟩ := hsecond
  refine ⟨offsets ++ others.map (first.length + ·), ?_, ?_, ?_⟩
  · refine List.pairwise_append.2 ⟨hsorted, ?_, fun a ha b hb => ?_⟩
    · exact List.pairwise_map.2 (hsorted'.imp fun hlt => Nat.add_lt_add_left hlt _)
    · obtain ⟨offset, -, rfl⟩ := List.mem_map.1 hb
      exact Nat.lt_of_lt_of_le (hinside a ha) (Nat.le_add_right _ _)
  · intro offset hoffset
    rw [List.length_append]
    rcases List.mem_append.1 hoffset with hoffset | hoffset
    · exact Nat.lt_of_lt_of_le (hinside offset hoffset) (Nat.le_add_right _ _)
    · obtain ⟨other, hother, rfl⟩ := List.mem_map.1 hoffset
      exact Nat.add_lt_add_left (hinside' other hother) _
  · refine List.rel_append ?_ ?_
    · exact hopens.imp fun offset raw hopen => by simpa using hopen.within [] second
    · refine List.forall₂_map_left_iff.2 (hopens'.imp fun offset raw hopen => ?_)
      simpa using hopen.within first []

theorem opensInOrder_nil (text : List Char) : OpensInOrder text [] :=
  ⟨[], .nil, List.forall_mem_nil _, .nil⟩

mutual
/-- In every text of an entry the nodes are opened in the order of its walk. -/
theorem Written.opensInOrder (depth : Nat) : ∀ {entry : Entry} {text : List Char},
    Written entry text → OpensInOrder text ((entry.walkFrom depth).map Prod.snd)
  | .attr _, _, _ => opensInOrder_nil _
  | .token _, _, _ => opensInOrder_nil _
  | .node name value entries, text, h => by
    have hself := h
    cases h with
    | @node _ _ _ quoted items tail hvalue hitems htail =>
      have hbelow := WrittenItems.opensInOrder (depth + 1) hitems
      have hrest : OpensInOrder (name.toList ++ (quoted ++ (items ++ (tail ++ [')']))))
          ((Entry.walkAll (depth + 1) entries).map Prod.snd) := by
        have := (opensInOrder_nil (name.toList ++ quoted)).append
          (hbelow.append (opensInOrder_nil (tail ++ [')'])))
        simpa using this
      obtain ⟨offsets, hsorted, hinside, hopens⟩ := hrest
      refine ⟨0 :: offsets.map (1 + ·), ?_, ?_, ?_⟩
      · refine List.pairwise_cons.2 ⟨fun offset hoffset => ?_, ?_⟩
        · obtain ⟨other, -, rfl⟩ := List.mem_map.1 hoffset
          omega
        · exact List.pairwise_map.2 (hsorted.imp fun hlt => Nat.add_lt_add_left hlt _)
      · refine List.forall_mem_cons.2 ⟨Nat.zero_lt_succ _, fun offset hoffset => ?_⟩
        obtain ⟨other, hother, rfl⟩ := List.mem_map.1 hoffset
        have := hinside other hother
        simp only [List.cons_append, List.length_cons]
        omega
      · refine .cons ⟨[], _, [], (List.append_nil _).symm, rfl, hself⟩ ?_
        refine List.forall₂_map_left_iff.2 (hopens.imp fun offset raw hopen => ?_)
        simpa using hopen.within ['('] []

/-- The same of the entries of a node. -/
theorem WrittenItems.opensInOrder (depth : Nat) : ∀ {entries : List Entry} {text : List Char},
    WrittenItems entries text → OpensInOrder text ((Entry.walkAll depth entries).map Prod.snd)
  | [], _, _ => opensInOrder_nil _
  | entry :: rest, _, h => by
    cases h with
    | @cons _ _ gap text items _ hentry hrest =>
      rw [Entry.walkAll, List.map_append]
      have := (opensInOrder_nil gap).append
        ((Written.opensInOrder depth hentry).append (WrittenItems.opensInOrder depth hrest))
      simpa using this
end

/-! ## The whole walk -/

/-- The tree of a dump is walked in the order in which the dump opens its nodes, one node for each,
with the depth at which it is nested; a tour with a stack visits the same nodes, each place once.
Each node has its name and the attributes, the tokens and the children that the entries give, in
their order, and its value as a token before the others. -/
theorem Node.walk_ofRaw_opens_in_order (raw : RawNode) :
    (Node.ofRaw raw).walk = raw.walk.map (fun item => (item.1, Node.ofRaw item.2)) ∧
    (Node.ofRaw raw).tour.map (fun entry => (entry.1, entry.2.node)) = (Node.ofRaw raw).walk ∧
    ((Node.ofRaw raw).tour.map fun entry => entry.2.path).Nodup ∧
    (∀ depth found, (depth, found) ∈ (Node.ofRaw raw).tour ↔
      depth = found.path.length ∧ (Node.ofRaw raw).get? found.path = some found.node) ∧
    (∀ text, Written raw.toEntry text → OpensInOrder text (raw.walk.map Prod.snd)) ∧
    ∀ item ∈ raw.walk, (Node.ofRaw item.2).name = item.2.name ∧ ∃ tokens nodes,
      Entry.Shuffle item.2.entries (Node.ofRaw item.2).attributes tokens nodes ∧
      (Node.ofRaw item.2).tokens = (item.2.value.map Token.doubleQuoted).toList ++ tokens ∧
      (Node.ofRaw item.2).children = nodes.map Node.ofRaw := by
  refine ⟨Node.walk_ofRaw raw, Node.map_tour_eq_walk _, Node.nodup_paths_tour _,
    fun depth found => Node.mem_tour_iff, fun text h => h.opensInOrder 0, fun item _ => ?_⟩
  exact ⟨rfl, _, _, Entry.shuffle_filterMap item.2.entries, rfl,
    Node.ofEntries_eq_map item.2.entries⟩

end TypeScribe.Dump
