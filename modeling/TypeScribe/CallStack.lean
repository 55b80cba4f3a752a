/-!
# The call stack

Texts and types nest, and what reads or writes them calls itself for what is nested. How many levels
fit on the stack depends on the machine, on its settings, on the calls that are already open and on
what the levels consist of, and nothing in the library decides it. So the room is left open: it is
an instance that the definitions take along, and what is shown of them is shown for any room, and
so for the one that a call finds.
-/

namespace TypeScribe

/-- How much the call stack has room for, in levels of nesting. -/
class CallStack where
  /-- Nodes nested in one another, in a dump that is read. -/
  nodes : Nat
  /-- Types nested in one another, in a type name that is read. -/
  types : Nat
  /-- Types nested in one another, in a type that is written. -/
  spelled : Nat

/-- A stack with the same room for all of them. -/
@[reducible]
def CallStack.uniform (levels : Nat) : CallStack where
  nodes := levels
  types := levels
  spelled := levels

end TypeScribe
