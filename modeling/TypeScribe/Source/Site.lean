/-!
# Sites

The places of a source file at which a type may be written: bindings, calls of a bare name, and
closures. Lines and columns count from one, columns in bytes; offsets count bytes.
-/

namespace TypeScribe

/-- `let name = initializer`; line and column are those of the bound name. -/
structure BindingSite where
  name : String
  line : Int
  column : Int
  nameEnd : Int
  isTyped : Bool
  hasInitializer : Bool
  isTuplePattern : Bool
  /-- Line and column of the initializer, when it is a call. -/
  initializerCall : Option (Int × Int)
deriving DecidableEq

/-- A call whose callee is a bare identifier, such as `Box(1)`. -/
structure CallSite where
  callee : String
  line : Int
  column : Int
  calleeStart : Int
  calleeEnd : Int
  hasGenericArguments : Bool
deriving DecidableEq

/-- A parameter of a closure: its name, and its text as written. -/
structure ClosureParameter where
  name : String
  text : String
  hasType : Bool
deriving DecidableEq

/-- A closure; line and column are those of its opening brace. The signature runs from
`signatureStart` to `signatureEnd`, with its parentheses when they are written, and `effectsEnd` is
the end of the `async` and `throws` after it. -/
structure ClosureSite where
  line : Int
  column : Int
  parameters : List ClosureParameter
  signatureStart : Option Int
  signatureEnd : Option Int
  effectsEnd : Option Int
  parenthesized : Bool
  hasReturnType : Bool
  hasEffects : Bool
deriving DecidableEq

/-- Is a parameter clause written? -/
def ClosureSite.hasSignature (site : ClosureSite) : Bool := site.signatureStart.isSome

end TypeScribe
