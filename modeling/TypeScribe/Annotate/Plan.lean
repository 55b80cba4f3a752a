import TypeScribe.Dump.Node
import TypeScribe.Journal
import TypeScribe.Settings
import TypeScribe.Source.Site
import TypeScribe.SwiftType.Grammar
import TypeScribe.SwiftType.Printer
import TypeScribe.Text.Uppercase

/-!
# Planning annotations

Matches the sites of a source file with the nodes of its dump and plans the edits that write the
recorded types. Nothing is inferred: a site gets the type that the compiler recorded at its point,
and a site without one is left alone.

Calls come first, then bindings, then closures. A binding whose initializer is a call that is itself
edited needs no annotation.
-/

namespace TypeScribe

open Dump

/-- The sites of a file, as far as they can be listed. -/
structure SiteListing where
  fileName : String
  calls : Except Fault (List CallSite)
  bindings : Except Fault (List BindingSite)
  closures : Except Fault (List ClosureSite)

namespace Plan

/-! ## Recorded types -/

section
variable [CallStack]

/-- Reads a recorded type name; one that is not understood is reported. -/
def readType (text : String) : Logged (Option SwiftType) :=
  match SwiftType.parse text with
  | .ok type => pure (some type)
  | .error (.unexpected failure) => do
    Logged.note (.unreadableType text failure)
    return none
  | .error (.stopped stop) => Logged.fail (.ofStop stop)

/-- Goes on if there is room to write the types. -/
def makeRoom (types : List SwiftType) : Logged Unit :=
  if types.all (·.depth ≤ CallStack.spelled) then return () else Logged.fail .tooDeep

/-- The spelling of a recorded type; one that is not understood is written as recorded. -/
def spelling (text : String) : Logged String := do
  match ← readType text with
  | some type => do
    makeRoom [type]
    return type.render
  | none => return text

end

/-- The file name in the points of a dump: the value of its root, which is the path that the
compiler was given. -/
def recordedFileName (root : Node) (fallback : String) : String :=
  if root.name = "source_file" then
    match root.value with
    | some name => if name.isEmpty then fallback else name
    | none => fallback
  else fallback

/-! ## Bindings -/

/-- Does the node have a type, and a range that starts at the point? -/
def isTypedFrom (point : Point) (node : Node) : Bool :=
  node.type.isSome && node.range.map Range.start == some point

/-- The type recorded for a binding: that of the node at the point, else that of a node whose range
starts there. -/
def bindingType? (root : Node) (point : Point) : Option String :=
  match (root.find point).bind fun found => found.node.type with
  | some type => some type
  | none => (root.findWhere (isTypedFrom point)).bind Node.type

/-- The edit that annotates a binding. -/
def bindingEdit [CallStack] (root : Node) (fileName : String) (site : BindingSite) :
    Logged (Option Edit) :=
  if site.isTyped || !site.hasInitializer then return none
  else if site.isTuplePattern then do
    Logged.note (.tuplePattern site.line site.column)
    return none
  else
    let point : Point := ⟨fileName, site.line, site.column⟩
    match bindingType? root point with
    | none => do
      Logged.note (.untypedBinding site.name point)
      return none
    | some type => do
      return some ⟨site.nameEnd, site.nameEnd, ": " ++ (← spelling type)⟩

/-! ## Calls -/

/-- The node that records a call of a constructor. -/
def constructorNode : String := "constructor_ref_call_expr"

/-- Is the node recorded at the point, with a constructor call right below it? -/
def ownsConstruction (point : Point) (node : Node) : Bool :=
  node.location == some point && node.children.any (·.name == constructorNode)

/-- The type of what is constructed at the point, looking through the nodes wrapped around it. -/
def constructedType? (hit : Node) (point : Point) : Option String :=
  if hit.name = constructorNode then hit.type
  else
    match hit.findWhere (ownsConstruction point) with
    | none => none
    | some owner =>
      match owner.type with
      | some type => some type
      | none => (owner.children.find? (·.name == constructorNode)).bind Node.type

/-- What a call constructs: the result, if a function type is recorded. -/
def constructed : SwiftType → SwiftType
  | .function _ result _ => result
  | type => type

/-- The type under the callee's own name: `[Int]` made by `Array` is `Array<Int>`. -/
def underName (callee : String) : SwiftType → SwiftType
  | .array element => if callee = "Array" then .named "Array" [element] else .array element
  | .dictionary key value =>
    if callee = "Dictionary" then .named "Dictionary" [key, value] else .dictionary key value
  | .optional wrapped false =>
    if callee = "Optional" then .named "Optional" [wrapped] else .optional wrapped false
  | type => type

/-- The name without the backticks at its ends. -/
def withoutBackticks (name : String) : String :=
  let isTick := fun c => c == Parser.backtick
  String.ofList ((name.toList.dropWhile isTick).reverse.dropWhile isTick).reverse

/-- Does a callee look like the name of a type? -/
def isTypeName (callee : String) : Bool :=
  match callee.toList.dropWhile (· == Parser.backtick) with
  | [] => false
  | c :: _ => Text.isUppercase c

/-- The generic type to be written in the place of a callee, if it is one. -/
def calleeType? (callee : String) (type : SwiftType) : Option SwiftType :=
  match underName (withoutBackticks callee) (constructed type) with
  | .nominal segments =>
    if (SwiftType.nominal segments).genericArguments.isEmpty then none
    else some (.nominal segments)
  | _ => none

/-- The edit that spells out the generic arguments of a constructor call. -/
def callEdit [CallStack] (root : Node) (fileName : String) (site : CallSite) :
    Logged (Option Edit) :=
  if site.hasGenericArguments || !isTypeName site.callee then return none
  else
    let point : Point := ⟨fileName, site.line, site.column⟩
    match root.find point with
    | none => do
      Logged.note (.unrecordedCall site.callee point)
      return none
    | some hit =>
      match constructedType? hit.node point with
      | none => do
        Logged.note (.notConstructor site.callee point)
        return none
      | some text => do
        match (← readType text).bind (calleeType? site.callee) with
        | none => return none
        | some type =>
          makeRoom [type]
          return some ⟨site.calleeStart, site.calleeEnd, type.render⟩

/-! ## Closures -/

/-- The node that records a closure. -/
def closureNode : String := "closure_expr"

/-- A parameter that goes without a name. -/
def anonymous : String := "_"

/-- Is the node a closure recorded at the point? -/
def isClosureAt (point : Point) (node : Node) : Bool :=
  node.name == closureNode && node.location == some point

/-- The node of the closure at the point, looking through the nodes wrapped around it. -/
def closureNode? (root : Node) (point : Point) : Option Node :=
  match root.find point with
  | none => none
  | some hit =>
    if hit.node.name = closureNode then some hit.node
    else hit.node.findWhere (isClosureAt point)

/-- Must the parameter be given a type? -/
def isUntyped (parameter : ClosureParameter) : Bool :=
  !parameter.hasType && parameter.name != anonymous

/-- The elements that the closure's parameters stand for. Several parameters may take apart the one
tuple that a function takes. -/
def matchParameters? (parameters : List ClosureParameter)
    (elements : List (TypeElement SwiftType)) : Option (List (TypeElement SwiftType)) :=
  if parameters.length = elements.length then some elements
  else
    match elements with
    | [⟨_, .tuple inner, _⟩] =>
      if 1 < parameters.length && inner.length == parameters.length then
        some (inner.map fun element => { element with label := none })
      else none
    | _ => none

/-- A parameter as it is written; one that has a type or no name stays as it is. -/
def parameterText (parameter : ClosureParameter) (element : TypeElement SwiftType) : String :=
  if isUntyped parameter then
    parameter.name ++ ": " ++ element.type.render ++ if element.variadic then "..." else ""
  else parameter.text

/-- The edits that write a closure's type into its signature. -/
def signatureEdits (site : ClosureSite) (start stop : Int)
    (elements : List (TypeElement SwiftType)) (result : SwiftType) (effects : List String) :
    List Edit :=
  let clause :=
    if site.parameters.any isUntyped || !site.parenthesized then
      let pieces := List.zipWith parameterText site.parameters elements
      [⟨start, stop, "(" ++ String.intercalate ", " pieces ++ ")"⟩]
    else []
  let arrow :=
    if site.hasReturnType then []
    else
      let written := if site.hasEffects then "" else SwiftType.effectsText effects
      let place := site.effectsEnd.getD stop
      [⟨place, place, written ++ " -> " ++ result.renderResult⟩]
  clause ++ arrow

/-- The types that are written into a closure's signature. -/
def writtenTypes (site : ClosureSite) (elements : List (TypeElement SwiftType))
    (result : SwiftType) : List SwiftType :=
  let untyped := (site.parameters.zip elements).filter fun (parameter, _) => isUntyped parameter
  untyped.map (·.2.type) ++ if site.hasReturnType then [] else [result]

/-- The edits that annotate a closure. -/
def closureEdits [CallStack] (root : Node) (fileName : String) (site : ClosureSite) :
    Logged (List Edit) :=
  if !site.hasSignature then return []
  else if !site.parameters.any isUntyped && site.hasReturnType then return []
  else
    let point : Point := ⟨fileName, site.line, site.column⟩
    match (closureNode? root point).bind Node.type with
    | none => do
      Logged.note (.untypedClosure point)
      return []
    | some text => do
      match ← readType text with
      | some (.function parameters result effects) =>
        match matchParameters? site.parameters parameters with
        | none =>
          Logged.note (.parameterMismatch point site.parameters.length text)
          return []
        | some elements =>
          match site.signatureStart, site.signatureEnd with
          | some start, some stop =>
            makeRoom (writtenTypes site elements result)
            return signatureEdits site start stop elements result effects
          | _, _ => Logged.fail .openSignature
      | _ =>
        Logged.note (.notFunction text point)
        return []

/-! ## The whole plan -/

/-- The edits of the calls, each with the position of its call. -/
def callEdits [CallStack] (root : Node) (fileName : String) :
    List CallSite → Logged (List ((Int × Int) × Edit))
  | [] => return []
  | site :: rest => do
    let edit ← callEdit root fileName site
    let later ← callEdits root fileName rest
    return (edit.map fun edit => ((site.line, site.column), edit)).toList ++ later

/-- Is the binding's initializer one of the edited calls? -/
def isSpelledByCall (edited : List (Int × Int)) (site : BindingSite) : Bool :=
  match site.initializerCall with
  | some position => edited.contains position
  | none => false

/-- The edits of the bindings, where the calls at `edited` are edited. -/
def bindingEdits [CallStack] (root : Node) (fileName : String) (edited : List (Int × Int)) :
    List BindingSite → Logged (List Edit)
  | [] => return []
  | site :: rest => do
    let edit ←
      if isSpelledByCall edited site then do
        Logged.note (.spelledByCall site.name)
        pure none
      else bindingEdit root fileName site
    let later ← bindingEdits root fileName edited rest
    return edit.toList ++ later

/-- The edits of the closures. -/
def allClosureEdits [CallStack] (root : Node) (fileName : String) :
    List ClosureSite → Logged (List Edit)
  | [] => return []
  | site :: rest => do
    let edits ← closureEdits root fileName site
    let later ← allClosureEdits root fileName rest
    return edits ++ later

end Plan

open Plan in
/-- The edits that annotate a file, in order. Sites of a kind that is switched off are not even
listed. -/
def plan [CallStack] (root : Node) (settings : Settings) (sites : SiteListing) :
    Logged (List Edit) := do
  let fileName := recordedFileName root sites.fileName
  let calls ←
    if settings.annotateCalls then do
      callEdits root fileName (← Logged.ofExcept sites.calls)
    else pure []
  let bindings ←
    if settings.annotateBindings then do
      bindingEdits root fileName (calls.map (·.1)) (← Logged.ofExcept sites.bindings)
    else pure []
  let closures ←
    if settings.annotateClosures then do
      allClosureEdits root fileName (← Logged.ofExcept sites.closures)
    else pure []
  return Edit.sort (calls.map (·.2) ++ bindings ++ closures)

end TypeScribe
