import TypeScribe.Command.Drawing
import TypeScribe.Proofs.Dump.Tour

/-!
# The outline of a dump

An outline is drawn on a tour of the tree: each node that is met gets branches for its children, and
its own branch is looked up by its place. This module shows that the branch is always there, and
what the outline is in the end: the tree down to the depth, each node at its own path
(`draw?_shows_depth`).

The branches of a sketch stand at the places of their nodes (`Sketch.Tracks`), so a part of the tour
that visits the tree below a place changes the outline below that path and nowhere else
(`Sketch.Grows`). That is proved along the tree: first the children get their branches
(`exists_foldlM_addNode?`), then the tree of each child is drawn in turn
(`exists_foldlM_children`).
-/

namespace TypeScribe.Command

open Dump

namespace Outline

/-! ## Changing one branch -/

/-- A path leads on from where its first part leads. -/
theorem get?_append (outline : Outline) (path rest : List Nat) :
    outline.get? (path ++ rest) = (outline.get? path).bind fun branch => branch.get? rest := by
  induction path generalizing outline with
  | nil => rfl
  | cons index path ih =>
    rw [List.cons_append, get?, get?, Option.bind_assoc]
    exact Option.bind_congr fun branch _ => ih branch

/-- A branch that is changed is found changed. -/
theorem get?_modify (change : Outline → Outline) (path : List Nat) (outline : Outline) :
    (outline.modify change path).get? path = (outline.get? path).map change := by
  induction path generalizing outline with
  | nil => rfl
  | cons index path ih =>
    obtain ⟨label, children⟩ := outline
    rw [modify, get?, get?, branches, branches, List.getElem?_modify_eq]
    cases children[index]? with
    | none => rfl
    | some branch => exact ih branch

/-- Two changes of one branch are one. -/
theorem modify_modify (change later : Outline → Outline) (path : List Nat) (outline : Outline) :
    (outline.modify change path).modify later path =
      outline.modify (fun branch => later (change branch)) path := by
  induction path generalizing outline with
  | nil => rfl
  | cons index path ih =>
    obtain ⟨label, branches⟩ := outline
    rw [modify, modify, modify, List.modify_modify_eq]
    congr 2
    funext branch
    exact ih branch

/-- A change below a branch is a change of that branch. -/
theorem modify_append (change : Outline → Outline) (path rest : List Nat) (outline : Outline) :
    outline.modify change (path ++ rest) = outline.modify (modify change rest) path := by
  induction path generalizing outline with
  | nil => rfl
  | cons index path ih =>
    obtain ⟨label, branches⟩ := outline
    rw [List.cons_append, modify, modify]
    congr 2
    funext branch
    exact ih branch

/-- A branch stands behind those before it. -/
theorem get?_branch (top : String) (before : List Outline) (branch : Outline)
    (after : List Outline) :
    (mk top (before ++ branch :: after)).get? [before.length] = some branch := by
  simp [get?, branches]

/-- A change of it leaves the others as they are. -/
theorem modify_branch (change : Outline → Outline) (top : String) (before : List Outline)
    (branch : Outline) (after : List Outline) :
    (mk top (before ++ branch :: after)).modify change [before.length] =
      mk top (before ++ change branch :: after) := by
  rw [modify]
  congr 1
  simp [List.modify_eq_take_drop, modify]

/-- To put at a path what is there already changes nothing. -/
theorem modify_of_get? {outline branch : Outline} {path : List Nat}
    (h : outline.get? path = some branch) : outline.modify (fun _ => branch) path = outline := by
  induction path generalizing outline with
  | nil => exact (Option.some.inj h).symm
  | cons index path ih =>
    obtain ⟨label, children⟩ := outline
    obtain ⟨child, hchild, hbranch⟩ := Option.bind_eq_some_iff.1 h
    change children[index]? = some child at hchild
    rw [modify]
    congr 1
    refine List.ext_getElem? fun k => ?_
    rw [List.getElem?_modify]
    by_cases hk : index = k
    · subst hk
      simp [hchild, ih hbranch]
    · simp [hk]

/-! ## The tree down to a depth -/

mutual
/-- The outline of a tree down to the given depth. -/
def ofNode (depth : Nat) : Node → Outline
  | ⟨name, attributes, tokens, children⟩ =>
    .mk (Command.label ⟨name, attributes, tokens, children⟩) <|
      match depth with
      | 0 => []
      | depth + 1 => ofNodes depth children

/-- The outlines of several trees. -/
def ofNodes (depth : Nat) : List Node → List Outline
  | [] => []
  | node :: rest => ofNode depth node :: ofNodes depth rest
end

/-- The outlines of several trees are drawn one by one. -/
theorem ofNodes_eq_map (depth : Nat) (trees : List Node) :
    ofNodes depth trees = trees.map (ofNode depth) := by
  induction trees with
  | nil => rfl
  | cons tree rest ih => rw [ofNodes, ih, List.map_cons]

theorem ofNode_zero (node : Node) : ofNode 0 node = .mk (Command.label node) [] := by
  obtain ⟨name, attributes, tokens, children⟩ := node
  rw [ofNode]

/-- One more level shows the children. -/
theorem ofNode_succ (depth : Nat) (node : Node) :
    ofNode (depth + 1) node = .mk (Command.label node) (node.children.map (ofNode depth)) := by
  obtain ⟨name, attributes, tokens, children⟩ := node
  rw [ofNode, ofNodes_eq_map]

/-- The outline of a node has its label at every depth. -/
theorem label_ofNode (depth : Nat) (node : Node) :
    (ofNode depth node).label = Command.label node := by
  cases depth with
  | zero => rw [ofNode_zero]; rfl
  | succ depth => rw [ofNode_succ]; rfl

/-- At each path not longer than the depth the outline has what the tree has there. -/
theorem get?_ofNode (depth : Nat) (node : Node) (path : List Nat) :
    (ofNode depth node).get? path =
      if path.length ≤ depth then (node.get? path).map (ofNode (depth - path.length))
      else none := by
  induction path generalizing depth node with
  | nil => rfl
  | cons index path ih =>
    cases depth with
    | zero => rw [ofNode_zero]; rfl
    | succ depth =>
      rw [ofNode_succ, get?, branches, List.getElem?_map, Node.get?, List.length_cons]
      cases node.children[index]? with
      | none => simp
      | some child =>
        simp only [Option.map_some, Option.bind_some, ih, Nat.add_le_add_iff_right,
          Nat.add_sub_add_right]

mutual
/-- The labels of an outline with their depths, parents before branches. -/
def listing (depth : Nat) : Outline → List (Nat × String)
  | .mk label branches => (depth, label) :: listingAll (depth + 1) branches

/-- The listings of several outlines, one after another. -/
def listingAll (depth : Nat) : List Outline → List (Nat × String)
  | [] => []
  | outline :: rest => listing depth outline ++ listingAll depth rest
end

/-- Several outlines are listed one after the other. -/
theorem listingAll_eq_flatMap (depth : Nat) (outlines : List Outline) :
    listingAll depth outlines = outlines.flatMap (listing depth) := by
  induction outlines with
  | nil => rfl
  | cons outline rest ih => rw [listingAll, ih, List.flatMap_cons]

/-- The listing of the outline is the walk of the tree, without what is too deep. -/
theorem listing_ofNode (level depth : Nat) (node : Node) :
    (ofNode depth node).listing level =
      ((node.walkFrom level).filter fun entry => entry.1 ≤ level + depth).map
        fun entry => (entry.1, Command.label entry.2) := by
  induction node using Node.induction_on_children generalizing level depth with
  | step node ih =>
    rw [Node.walkFrom_eq_cons, List.filter_cons_of_pos (by simp), List.map_cons]
    cases depth with
    | zero =>
      have hdeep : ∀ entry ∈ node.children.flatMap (Node.walkFrom (level + 1)),
          ¬decide (entry.1 ≤ level + 0) = true := by
        intro entry hentry
        obtain ⟨child, -, hentry⟩ := List.mem_flatMap.1 hentry
        have := Node.le_of_mem_walkFrom hentry
        simp only [decide_eq_true_eq]
        omega
      rw [ofNode_zero, List.filter_eq_nil_iff.2 hdeep]
      rfl
    | succ depth =>
      rw [ofNode_succ, listing, listingAll_eq_flatMap, List.flatMap_map, List.filter_flatMap,
        List.map_flatMap]
      congr 1
      refine List.flatMap_congr fun child hchild => ?_
      rw [ih child hchild, Nat.add_assoc, Nat.add_comm 1]

end Outline

/-! ## Sketches -/

namespace Sketch

open Dump.Node Outline

/-- Every branch stands at the place of its node. -/
def Tracks (sketch : Sketch) : Prop := ∀ entry ∈ sketch.branchOf, entry.2 = entry.1

/-- The node at the place has a branch. -/
def Holds (sketch : Sketch) (path : List Nat) : Prop := (path, path) ∈ sketch.branchOf

/-- A branch that is held is looked up at its path. -/
theorem Tracks.lookup {sketch : Sketch} (htracks : sketch.Tracks) {path : List Nat}
    (h : sketch.Holds path) : sketch.branchOf.lookup path = some path := by
  obtain ⟨outline, keys⟩ := sketch
  change ∀ entry ∈ keys, entry.2 = entry.1 at htracks
  change (path, path) ∈ keys at h
  change keys.lookup path = some path
  induction keys with
  | nil => cases h
  | cons entry rest ih =>
    obtain ⟨hentry, hrest⟩ := List.forall_mem_cons.1 htracks
    obtain ⟨key, branch⟩ := entry
    obtain rfl : branch = key := hentry
    by_cases hkey : path = branch
    · subst hkey
      exact List.lookup_cons_self
    · rw [List.lookup_cons, beq_eq_false_iff_ne.2 hkey]
      refine ih hrest ?_
      rcases List.mem_cons.1 h with heq | h
      · exact absurd (congrArg Prod.fst heq) hkey
      · exact h

/-- The second sketch has `branch` at the path and is as the first one elsewhere; the nodes that
have branches still have them. -/
structure Grows (before after : Sketch) (path : List Nat) (branch : Outline) : Prop where
  outline : after.outline = before.outline.modify (fun _ => branch) path
  tracks : after.Tracks
  kept : before.branchOf ⊆ after.branchOf

/-- A sketch grows by nothing. -/
theorem Grows.refl {sketch : Sketch} {path : List Nat} {branch : Outline}
    (htracks : sketch.Tracks) (h : sketch.outline.get? path = some branch) :
    Grows sketch sketch path branch :=
  ⟨(modify_of_get? h).symm, htracks, fun _ hmem => hmem⟩

/-- What grows below a path and then at the path grows at the path. -/
theorem Grows.trans {first second third : Sketch} {path rest : List Nat} {inner branch : Outline}
    (h₁ : Grows first second (path ++ rest) inner) (h₂ : Grows second third path branch) :
    Grows first third path branch := by
  refine ⟨?_, h₂.tracks, fun _ hmem => h₂.kept (h₁.kept hmem)⟩
  rw [h₂.outline, h₁.outline, modify_append, modify_modify]

theorem Grows.holds {before after : Sketch} {path other : List Nat} {branch : Outline}
    (h : Grows before after path branch) (hholds : before.Holds other) : after.Holds other :=
  h.kept hholds

/-! ## Drawing the children of a node -/

/-- The nodes as children of the node at the path, from `index` on. -/
def placesFrom (path : List Nat) (index : Nat) (children : List Node) : List Found :=
  (children.zipIdx index).map fun (child, index) => ⟨path ++ [index], child⟩

theorem placesFrom_cons (path : List Nat) (index : Nat) (child : Node) (rest : List Node) :
    placesFrom path index (child :: rest) =
      ⟨path ++ [index], child⟩ :: placesFrom path (index + 1) rest := rfl

/-- The branch of a node whose children are not drawn. -/
def leaf (node : Node) : Outline := .mk (Command.label node) []

/-- A child is added to the branch of its parent. -/
theorem addNode?_of_get? {sketch : Sketch} {path : List Nat} {branch : Outline}
    (h : sketch.outline.get? path = some branch) (child : Found) :
    addNode? path sketch child =
      some ⟨sketch.outline.modify (push (Command.label child.node)) path,
        (child.path, path ++ [branch.branches.length]) :: sketch.branchOf⟩ := by
  rw [addNode?, add?, h]
  rfl

/-- The children of a node get branches after those that are there, each at its own place. -/
theorem exists_foldlM_addNode? {path : List Nat} {top : String} (done : List Outline)
    (children : List Node) {sketch : Sketch} (htracks : sketch.Tracks)
    (hget : sketch.outline.get? path = some (.mk top done)) :
    ∃ after, (placesFrom path done.length children).foldlM (addNode? path) sketch = some after ∧
      Grows sketch after path (.mk top (done ++ children.map leaf)) ∧
      ∀ child ∈ placesFrom path done.length children, after.Holds child.path := by
  induction children generalizing sketch done with
  | nil =>
    refine ⟨sketch, rfl, .refl htracks ?_, fun _ hmem => absurd hmem List.not_mem_nil⟩
    rw [hget, List.map_nil, List.append_nil]
  | cons child rest ih =>
    let next : Sketch := ⟨sketch.outline.modify (push (Command.label child)) path,
      (path ++ [done.length], path ++ [done.length]) :: sketch.branchOf⟩
    have hnext : addNode? path sketch ⟨path ++ [done.length], child⟩ = some next :=
      addNode?_of_get? hget _
    have htracks' : next.Tracks := List.forall_mem_cons.2 ⟨rfl, htracks⟩
    have hget' : next.outline.get? path = some (.mk top (done ++ [leaf child])) := by
      rw [get?_modify, hget]
      rfl
    obtain ⟨after, hfold, hgrows, hholds⟩ := ih _ htracks' hget'
    rw [List.length_append, List.length_singleton] at hfold hholds
    rw [placesFrom_cons, List.foldlM_cons, hnext]
    refine ⟨after, hfold, ⟨?_, hgrows.tracks, fun entry hentry => ?_⟩,
      List.forall_mem_cons.2 ⟨hgrows.kept List.mem_cons_self, hholds⟩⟩
    · rw [hgrows.outline, modify_modify, List.append_assoc, List.singleton_append, List.map_cons]
    · exact hgrows.kept (List.mem_cons_of_mem _ hentry)

/-! ## Drawing a tree -/

/-- Nothing is drawn for nodes that are too deep. -/
theorem foldlM_addChildren?_of_deep {depth : Int} {entries : List (Nat × Found)}
    (h : ∀ entry ∈ entries, depth ≤ entry.1) (sketch : Sketch) :
    entries.foldlM (addChildren? depth) sketch = some sketch := by
  induction entries with
  | nil => rfl
  | cons entry rest ih =>
    obtain ⟨hentry, hrest⟩ := List.forall_mem_cons.1 h
    rw [List.foldlM_cons, addChildren?, if_pos hentry]
    exact ih hrest

/-- A tour of the tree below a place, when the node there has a branch without branches, ends with
the outline of the tree at that path. -/
def DrawsTree (depth : Int) (found : Found) : Prop :=
  ∀ (level : Nat) (sketch : Sketch), sketch.Tracks → sketch.Holds found.path →
    sketch.outline.get? found.path = some (leaf found.node) →
    ∃ after, (tourFrom [(level, found)]).foldlM (addChildren? depth) sketch = some after ∧
      Grows sketch after found.path (ofNode (depth - level).toNat found.node)

/-- The trees of the children are drawn one after another. The branches before the next child are
done, and those from it on are still without branches. -/
theorem exists_foldlM_children {depth : Int} (level : Nat) {path : List Nat} {top : String}
    (done : List Outline) (children : List Node) {sketch : Sketch}
    (hdraws : ∀ child ∈ placesFrom path done.length children, DrawsTree depth child)
    (htracks : sketch.Tracks)
    (hholds : ∀ child ∈ placesFrom path done.length children, sketch.Holds child.path)
    (hget : sketch.outline.get? path = some (.mk top (done ++ children.map leaf))) :
    ∃ after,
      ((placesFrom path done.length children).flatMap fun child =>
        tourFrom [(level, child)]).foldlM (addChildren? depth) sketch = some after ∧
      Grows sketch after path
        (.mk top (done ++ children.map (ofNode (depth - level).toNat))) := by
  induction children generalizing sketch done with
  | nil => exact ⟨sketch, rfl, .refl htracks hget⟩
  | cons child rest ih =>
    rw [placesFrom_cons] at hdraws hholds ⊢
    obtain ⟨hdraw, hdraws⟩ := List.forall_mem_cons.1 hdraws
    obtain ⟨hhold, hholds⟩ := List.forall_mem_cons.1 hholds
    have hleaf : sketch.outline.get? (path ++ [done.length]) = some (leaf child) := by
      rw [get?_append, hget]
      exact get?_branch top done (leaf child) (rest.map leaf)
    obtain ⟨next, hnext, hgrows⟩ := hdraw level sketch htracks hhold hleaf
    have hget' : next.outline.get? path =
        some (.mk top (done ++ [ofNode (depth - level).toNat child] ++ rest.map leaf)) := by
      rw [hgrows.outline, modify_append, get?_modify, hget, List.append_assoc,
        List.singleton_append, Option.map_some]
      exact congrArg some (modify_branch _ top done (leaf child) (rest.map leaf))
    have hlength : (done ++ [ofNode (depth - level).toNat child]).length = done.length + 1 := by
      simp
    obtain ⟨after, hafter, hgrows'⟩ := ih _ (by rwa [hlength]) hgrows.tracks
      (fun other hother => hgrows.holds (hholds other (by rwa [hlength] at hother))) hget'
    rw [hlength] at hafter
    refine ⟨after, ?_, hgrows.trans ?_⟩
    · rw [List.flatMap_cons, List.foldlM_append, hnext]
      exact hafter
    · rw [List.map_cons, ← List.singleton_append, ← List.append_assoc]
      exact hgrows'

/-- Every tree is drawn by its tour. The induction is on the tree, with the branch that it hangs
from and what is already drawn left open. -/
theorem drawsTree (depth : Int) (found : Found) : DrawsTree depth found := by
  induction found using induction_on_places with
  | step found ih =>
    intro level sketch htracks hholds hget
    by_cases hdeep : depth ≤ level
    · -- All nodes of the tree are too deep, so the branch stays as it is.
      have hall : ∀ entry ∈ tourFrom [(level, found)], depth ≤ entry.1 := by
        intro entry hentry
        obtain ⟨rest, -, hlevel, -⟩ := mem_tourFrom_iff.1 hentry
        omega
      refine ⟨sketch, foldlM_addChildren?_of_deep hall sketch, .refl htracks ?_⟩
      rw [Int.toNat_of_nonpos (by omega), ofNode_zero]
      exact hget
    · obtain ⟨next, hnext, hgrows, hchildren⟩ :=
        exists_foldlM_addNode? [] found.node.children htracks hget
      have hstep : addChildren? depth sketch (level, found) = some next := by
        rw [addChildren?, if_neg hdeep, htracks.lookup hholds]
        exact hnext
      have hget' : next.outline.get? found.path =
          some (.mk (Command.label found.node) ([] ++ found.node.children.map leaf)) := by
        rw [hgrows.outline, get?_modify, hget]
        rfl
      obtain ⟨after, hafter, hgrows'⟩ :=
        exists_foldlM_children (level + 1) [] found.node.children ih hgrows.tracks hchildren hget'
      refine ⟨after, ?_, ?_⟩
      · rw [tourFrom_singleton, List.foldlM_cons, hstep]
        exact hafter
      · have hlevels : (depth - level).toNat = (depth - (level + 1 : Nat)).toNat + 1 := by omega
        rw [hlevels, ofNode_succ]
        rw [← List.append_nil found.path] at hgrows
        exact hgrows.trans hgrows'

end Sketch

/-! ## The whole outline -/

/-- The drawing always comes about, and is the tree down to the depth. -/
theorem Outline.draw?_eq (depth : Int) (root : Node) :
    draw? depth root = some (ofNode depth.toNat root) := by
  have hroot : (Sketch.ofRoot root).Tracks := List.forall_mem_singleton.2 rfl
  obtain ⟨after, hafter, hgrows⟩ := Sketch.drawsTree depth ⟨[], root⟩ 0 (Sketch.ofRoot root) hroot
    List.mem_cons_self rfl
  have houtline : after.outline = ofNode depth.toNat root := by
    rw [hgrows.outline, modify, Int.natCast_zero, Int.sub_zero]
  rw [draw?, Node.tour, hafter, Option.map_some, houtline]

/-- An outline is drawn without ever missing the branch of a node. At each path it shows the node
that the tree has there, if that is not deeper than the depth, and nothing else; so each node is
shown once, under its own parent and among its siblings in their order, as the walk of the tree
lists them. A negative depth shows the root alone. -/
theorem Outline.draw?_shows_depth (depth : Int) (root : Node) :
    ∃ outline, draw? depth root = some outline ∧ treeLines depth root = outline.lines ∧
      (∀ path, (outline.get? path).map Outline.label =
        if (path.length : Int) ≤ max depth 0 then (root.get? path).map Command.label else none) ∧
      outline.listing 0 =
        (root.walk.filter fun entry => (entry.1 : Int) ≤ max depth 0).map
          fun entry => (entry.1, Command.label entry.2) := by
  refine ⟨ofNode depth.toNat root, draw?_eq depth root, ?_, fun path => ?_, ?_⟩
  · rw [treeLines, draw?_eq]
    rfl
  · have hdepth : path.length ≤ depth.toNat ↔ (path.length : Int) ≤ max depth 0 := by omega
    rw [get?_ofNode, if_congr hdepth rfl rfl]
    split
    · rw [Option.map_map]
      congr 1
      funext node
      exact label_ofNode _ node
    · rfl
  · rw [listing_ofNode, Node.walk]
    congr 2
    funext entry
    have hdepth : entry.1 ≤ 0 + depth.toNat ↔ (entry.1 : Int) ≤ max depth 0 := by omega
    exact decide_eq_decide.2 hdepth

end TypeScribe.Command
