import TypeScribe.Dump.Entry
import TypeScribe.Stack

/-!
# Nodes

A dump as a tree: each node with its attributes, its tokens and its children apart. What the
compiler recorded about a node (`value`, `location`, `range`, `type`, `decl`) is the first token or
attribute of the kind.

A `tour` visits all nodes with a stack and tells the place of each. Two searches walk the tree as
well. `find` looks for the node recorded at a point and uses locations to leave out what lies after
it; `search` looks for a node that satisfies a predicate, direct children before deeper ones, and
keeps the list of the nodes it asked.
-/

namespace TypeScribe.Dump

/-- A node of the type-checked syntax tree. -/
structure Node where
  name : String
  attributes : List Attribute
  tokens : List Token
  children : List Node

namespace Node

/-! ## What is recorded about a node -/

/-- The text of the first quoted token. -/
def value (node : Node) : Option String := node.tokens.findSome? Token.quotedText?

/-- The point of the first location. -/
def location (node : Node) : Option Point :=
  node.attributes.findSome? fun
    | .location point => some point
    | _ => none

/-- The first range. -/
def range (node : Node) : Option Range :=
  node.attributes.findSome? fun
    | .range range => some range
    | _ => none

/-- The name of the first type. -/
def type (node : Node) : Option String :=
  node.attributes.findSome? fun
    | .type name => some name
    | _ => none

/-- The first declaration. -/
def decl (node : Node) : Option Decl :=
  node.attributes.findSome? fun
    | .decl decl => some decl
    | _ => none

/-! ## From the dump -/

mutual
/-- The child that an entry gives, if it is a node. A node's value becomes its first token. -/
def ofEntry : Entry → Option Node
  | .attr _ => none
  | .token _ => none
  | .node name value entries =>
    some {
      name
      attributes := entries.filterMap Entry.attr?
      tokens := (value.map Token.doubleQuoted).toList ++ entries.filterMap Entry.token?
      children := ofEntries entries }

/-- The children that entries give, in their order. -/
def ofEntries : List Entry → List Node
  | [] => []
  | entry :: rest => (ofEntry entry).toList ++ ofEntries rest
end

/-- The tree of a node of the dump. -/
def ofRaw (raw : RawNode) : Node where
  name := raw.name
  attributes := raw.entries.filterMap Entry.attr?
  tokens := (raw.value.map Token.doubleQuoted).toList ++ raw.entries.filterMap Entry.token?
  children := ofEntries raw.entries

/-! ## Walks -/

mutual
/-- The node at `depth` and everything below it, parents before children, left to right. -/
def walkFrom (depth : Nat) : Node → List (Nat × Node)
  | ⟨name, attributes, tokens, children⟩ =>
    (depth, ⟨name, attributes, tokens, children⟩) :: walkAll (depth + 1) children

/-- The walks of several nodes at `depth`, one after another. -/
def walkAll (depth : Nat) : List Node → List (Nat × Node)
  | [] => []
  | node :: rest => walkFrom depth node ++ walkAll depth rest
end

/-- Every node of the tree with its depth, parents before children, left to right. -/
def walk (node : Node) : List (Nat × Node) := walkFrom 0 node

/-- The node at a path of child indices. -/
def get? (node : Node) : List Nat → Option Node
  | [] => some node
  | index :: path => node.children[index]?.bind fun child => child.get? path

/-! ## Places in the tree -/

/-- A node together with the path of child indices that leads to it. -/
structure Found where
  path : List Nat
  node : Node

/-- The same node, seen from the parent of the node it was found in. -/
def Found.below (index : Nat) (found : Found) : Found := { found with path := index :: found.path }

/-- The children of a node, each at its own place. -/
def Found.children (found : Found) : List Found :=
  found.node.children.zipIdx.map fun (child, index) => ⟨found.path ++ [index], child⟩

/-- The nodes of the children are the children of the node. -/
theorem Found.map_node_children (found : Found) :
    found.children.map Found.node = found.node.children := by
  rw [Found.children, List.map_map]
  exact List.zipIdx_map_fst 0 found.node.children

/-! ## Tours -/

/-- The children of a node weigh less than the node. -/
theorem sizeOf_children_lt (node : Node) : sizeOf node.children < sizeOf node := by
  obtain ⟨name, attributes, tokens, children⟩ := node
  rw [mk.sizeOf_spec]
  dsimp only
  omega

/-- Visits the nodes on a stack, from the top down. The children of a node are put on the stack when
it is visited, so they come before everything that was left. -/
def tourFrom : List (Nat × Found) → List (Nat × Found)
  | [] => []
  | (depth, found) :: stack =>
    (depth, found) :: tourFrom (found.children.map (fun child => (depth + 1, child)) ++ stack)
termination_by stack => sizeOf (stack.map fun entry => entry.2.node)
decreasing_by
  -- All children together are smaller than their node, which leaves the stack.
  have hchildren : (found.children.map fun child => (depth + 1, child)).map
      (fun entry => entry.2.node) = found.node.children := by
    rw [List.map_map]
    exact found.map_node_children
  rw [List.map_append, hchildren, List.map_cons]
  exact sizeOf_append_lt_cons (sizeOf_children_lt found.node) _

/-- Every node of the tree with its depth and its place, as a walk with a stack meets them. -/
def tour (root : Node) : List (Nat × Found) := tourFrom [(0, ⟨[], root⟩)]

/-! ## The node at a point -/

mutual
/-- The deepest node recorded at the point. A node with a location answers only for that point, and
when its location lies after the point nothing below it is looked at. A node without one, but with a
range around the point, answers when nothing below it does. -/
def find (point : Point) : Node → Option Found
  | ⟨name, attributes, tokens, children⟩ =>
    let self : Node := ⟨name, attributes, tokens, children⟩
    match self.location with
    | none =>
      match findAmong point 0 children with
      | some found => some found
      | none =>
        match self.range with
        | some range => if range.contains point then some ⟨[], self⟩ else none
        | none => none
    | some location =>
      if location = point then some ⟨[], self⟩
      else if location > point then none
      else findAmong point 0 children

/-- The first answer of the nodes, which are children from `index` on. -/
def findAmong (point : Point) (index : Nat) : List Node → Option Found
  | [] => none
  | child :: rest =>
    match find point child with
    | some found => some (found.below index)
    | none => findAmong point (index + 1) rest
end

/-! ## A node that satisfies a predicate -/

/-- A search: the nodes that the predicate was asked about, in order, and the one it stopped at. -/
structure Search where
  asked : List Found
  found : Option Found

/-- The search, seen from the parent. -/
def Search.below (index : Nat) (search : Search) : Search :=
  ⟨search.asked.map (Found.below index), search.found.map (Found.below index)⟩

/-- One search, and if it found nothing, another after it. -/
def Search.orElse (first : Search) (second : Unit → Search) : Search :=
  match first.found with
  | some _ => first
  | none =>
    let second := second ()
    ⟨first.asked ++ second.asked, second.found⟩

/-- Asks about one node. -/
def ask (predicate : Node → Bool) (found : Found) : Search :=
  ⟨[found], if predicate found.node then some found else none⟩

/-- Asks about the nodes in turn, which are children from `index` on. -/
def askAmong (predicate : Node → Bool) (index : Nat) : List Node → Search
  | [] => ⟨[], none⟩
  | child :: rest =>
    (ask predicate ⟨[index], child⟩).orElse fun _ => askAmong predicate (index + 1) rest

mutual
/-- Looks for a node that satisfies the predicate: the node itself, then its direct children, then
each child's tree in turn. -/
def search (predicate : Node → Bool) : Node → Search
  | ⟨name, attributes, tokens, children⟩ =>
    (ask predicate ⟨[], ⟨name, attributes, tokens, children⟩⟩).orElse fun _ =>
      (askAmong predicate 0 children).orElse fun _ => searchAmong predicate 0 children

/-- Searches the trees in turn, which are children from `index` on. -/
def searchAmong (predicate : Node → Bool) (index : Nat) : List Node → Search
  | [] => ⟨[], none⟩
  | child :: rest =>
    ((search predicate child).below index).orElse fun _ => searchAmong predicate (index + 1) rest
end

/-- The node that the search stops at. -/
def findWhere (predicate : Node → Bool) (node : Node) : Option Node :=
  (search predicate node).found.map Found.node

end Node

end TypeScribe.Dump
