import TypeScribe.Stack

/-!
# Concrete syntax trees

What a Swift parser gives for a file: nodes of named kinds with their stretch of bytes. `ofKinds`
and `descendants` are the two walks from which sites are collected; both visit nodes with a stack.
-/

namespace TypeScribe

/-- A node of a concrete syntax tree. Rows and columns count from zero, columns in bytes. -/
structure SyntaxNode where
  kind : String
  start : Nat
  stop : Nat
  row : Nat
  column : Nat
  /-- Is it a construct of the grammar, rather than a fixed piece of text? -/
  named : Bool
  /-- The role it has in its parent. -/
  field : Option String
  children : List SyntaxNode

/-- The tree of a whole file. -/
structure SyntaxTree where
  root : SyntaxNode
  hasError : Bool

namespace SyntaxNode

/-- The line and column of the node's start, counted from one. -/
def position (node : SyntaxNode) : Int × Int := (node.row + 1, node.column + 1)

/-- The children that are constructs of the grammar. -/
def namedChildren (node : SyntaxNode) : List SyntaxNode := node.children.filter (·.named)

/-- The first child with the given role. -/
def childInRole? (node : SyntaxNode) (role : String) : Option SyntaxNode :=
  node.children.find? (·.field == some role)

/-! ## Walks -/

/-- What a walk finds in a node: its children, if the node is opened. -/
def opened (opens : SyntaxNode → Bool) (node : SyntaxNode) : List SyntaxNode :=
  if opens node then node.children else []

/-- What is opened in a node weighs less than the node. -/
theorem sizeOf_opened_lt (opens : SyntaxNode → Bool) (node : SyntaxNode) :
    sizeOf (node.opened opens) < sizeOf node := by
  obtain ⟨kind, start, stop, row, column, named, field, children⟩ := node
  have hpos : 1 ≤ sizeOf children := by
    cases children <;> simp +arith
  rw [opened, mk.sizeOf_spec]
  split
  · dsimp only
    omega
  · rw [List.nil.sizeOf_spec]
    omega

/-- Visits the nodes on a stack, from the top down, and lists those that are kept. What is found in
a node is put on the stack when the node is visited, so it comes before everything that was left. -/
def visit (keeps opens : SyntaxNode → Bool) : List SyntaxNode → List SyntaxNode
  | [] => []
  | node :: stack =>
    let later := visit keeps opens (node.opened opens ++ stack)
    if keeps node then node :: later else later
termination_by stack => sizeOf stack
decreasing_by exact sizeOf_append_lt_cons (node.sizeOf_opened_lt opens) stack

/-- The nodes of the given kinds, the node itself included, parents before children. -/
def ofKinds (kinds : List String) (node : SyntaxNode) : List SyntaxNode :=
  visit (fun node => kinds.contains node.kind) (fun _ => true) [node]

/-- The nodes of a kind below a node that are not inside another one, nor inside a node of a barrier
kind: neither is opened. -/
def descendants (node : SyntaxNode) (wanted : String) (barriers : List String) :
    List SyntaxNode :=
  visit (·.kind == wanted) (fun node => node.kind != wanted && !barriers.contains node.kind)
    node.children

end SyntaxNode

end TypeScribe
