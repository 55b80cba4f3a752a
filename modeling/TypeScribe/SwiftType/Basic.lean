/-!
# Swift types

As much of Swift's types as the compiler prints: nominal types with generic arguments, tuples,
arrays, dictionaries, optionals, metatypes, protocol compositions, function types, and the
attributes and specifiers that stand before them.
-/

namespace TypeScribe

/-- One part of a nominal type: a name and its generic arguments. -/
structure TypeSegment (α : Type) where
  name : String
  arguments : List α

/-- An element of a tuple or a parameter of a function type. -/
structure TypeElement (α : Type) where
  label : Option String
  type : α
  variadic : Bool

/-- A Swift type. -/
inductive SwiftType where
  /-- `Outer<Int>.Inner`. -/
  | nominal (segments : List (TypeSegment SwiftType))
  /-- `(Int, label: String)`. -/
  | tuple (elements : List (TypeElement SwiftType))
  /-- `[Int]`. -/
  | array (element : SwiftType)
  /-- `[String : Int]`. -/
  | dictionary (key value : SwiftType)
  /-- `Int?`, or `Int!` when implicitly unwrapped. -/
  | optional (wrapped : SwiftType) (implicitlyUnwrapped : Bool)
  /-- `(P & Q).Type` or `(P & Q).Protocol`. -/
  | metatype (of : SwiftType) (kind : String)
  /-- `@escaping inout Int`. -/
  | attributed (attributes : List String) (base : SwiftType)
  /-- `P & Q`. -/
  | composition (members : List SwiftType)
  /-- `(Int) throws -> String`. -/
  | function (parameters : List (TypeElement SwiftType)) (result : SwiftType)
      (effects : List String)

namespace SwiftType

/-- A nominal type of one name. -/
def named (name : String) (arguments : List SwiftType) : SwiftType := .nominal [⟨name, arguments⟩]

/-- The generic arguments of the last segment of a nominal type. -/
def genericArguments : SwiftType → List SwiftType
  | .nominal segments => (segments.getLast?.map TypeSegment.arguments).getD []
  | _ => []

mutual
/-- How deep the types in a type nest, itself included. -/
def depth : SwiftType → Nat
  | .nominal segments => depthOfSegments segments + 1
  | .tuple elements => depthOfElements elements + 1
  | .array element => depth element + 1
  | .dictionary key value => max (depth key) (depth value) + 1
  | .optional wrapped _ => depth wrapped + 1
  | .metatype of _ => depth of + 1
  | .attributed _ base => depth base + 1
  | .composition members => depthOfAll members + 1
  | .function parameters result _ => max (depthOfElements parameters) (depth result) + 1

/-- How deep the deepest of some types is. -/
def depthOfAll : List SwiftType → Nat
  | [] => 0
  | type :: rest => max (depth type) (depthOfAll rest)

/-- How deep the deepest generic argument of some segments is. -/
def depthOfSegments : List (TypeSegment SwiftType) → Nat
  | [] => 0
  | ⟨_, arguments⟩ :: rest => max (depthOfAll arguments) (depthOfSegments rest)

/-- How deep the deepest type of some elements is. -/
def depthOfElements : List (TypeElement SwiftType) → Nat
  | [] => 0
  | ⟨_, type, _⟩ :: rest => max (depth type) (depthOfElements rest)
end

end SwiftType

end TypeScribe
