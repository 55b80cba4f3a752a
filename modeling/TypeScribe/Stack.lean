/-!
# Stacks of trees

A walk with a stack takes a tree off the stack and puts the children of the tree in its place. It
comes to an end because the children together are smaller than their tree, and so is the stack.
-/

namespace TypeScribe

variable {α : Type} [SizeOf α]

/-- Two stacks put together weigh what they weigh, but for one empty stack. -/
theorem sizeOf_append (trees later : List α) :
    sizeOf (trees ++ later) + 1 = sizeOf trees + sizeOf later := by
  induction trees with
  | nil => rw [List.nil_append, List.nil.sizeOf_spec, Nat.add_comm]
  | cons tree rest ih =>
    rw [List.cons_append, List.cons.sizeOf_spec, List.cons.sizeOf_spec]
    omega

/-- A stack gets smaller when its first tree makes way for the children of the tree. -/
theorem sizeOf_append_lt_cons {tree : α} {children : List α}
    (h : sizeOf children < sizeOf tree) (stack : List α) :
    sizeOf (children ++ stack) < sizeOf (tree :: stack) := by
  have happend := sizeOf_append children stack
  rw [List.cons.sizeOf_spec]
  omega

end TypeScribe
