import TypeScribe.Fault
import TypeScribe.Source.Site
import TypeScribe.Source.Tree
import TypeScribe.Text.Blank

/-!
# Source files

A source file is its bytes and its concrete syntax tree. The sites at which types may be written are
collected from the tree; the texts in them are cut out of the bytes, so bytes that are not UTF-8 are
noticed only where a text is needed.
-/

namespace TypeScribe

/-- A Swift source file. -/
structure SourceFile where
  name : String
  bytes : List UInt8
  root : SyntaxNode

namespace SourceFile

/-- The text of bytes, or a fault. -/
def decode (bytes : List UInt8) : Except Fault String :=
  match Text.decode? bytes with
  | some text => .ok text
  | none => .error .notUtf8

/-- The text of the whole file. -/
def text (file : SourceFile) : Except Fault String := decode file.bytes

/-- The text of a node. -/
def textOf (file : SourceFile) (node : SyntaxNode) : Except Fault String :=
  decode (Text.byteSlice file.bytes node.start node.stop)

/-- The text of bytes after edits. -/
def applyEdits (bytes : List UInt8) (edits : List Edit) : Except Fault String :=
  match Edit.applyAll edits bytes with
  | .ok bytes => decode bytes
  | .error reason => .error (.edits reason)

/-- The file's text after edits. -/
def apply (file : SourceFile) (edits : List Edit) : Except Fault String :=
  applyEdits file.bytes edits

/-! ## Bindings -/

/-- Takes up one more child of a declaration: a pattern starts a group, anything else joins the last
group, if there is one. -/
def joinGroups (groups : List (SyntaxNode × List SyntaxNode)) (child : SyntaxNode) :
    List (SyntaxNode × List SyntaxNode) :=
  if child.kind = "pattern" then groups ++ [(child, [])]
  else
    match groups.getLast? with
    | none => groups
    | some (pattern, siblings) => groups.dropLast ++ [(pattern, siblings ++ [child])]

/-- Each pattern among the children of a declaration, with the siblings that follow it up to the
next pattern. -/
def patternGroups (children : List SyntaxNode) : List (SyntaxNode × List SyntaxNode) :=
  children.foldl joinGroups []

/-- The groups before the last one stay as they are. -/
theorem foldl_joinGroups_append (children : List SyntaxNode)
    (groups : List (SyntaxNode × List SyntaxNode)) (last : SyntaxNode × List SyntaxNode) :
    children.foldl joinGroups (groups ++ [last]) = groups ++ children.foldl joinGroups [last] := by
  induction children generalizing groups last with
  | nil => rfl
  | cons child rest ih =>
    rw [List.foldl_cons, List.foldl_cons]
    by_cases hpattern : child.kind = "pattern"
    · rw [joinGroups, if_pos hpattern, ih, joinGroups, if_pos hpattern, ih [last],
        List.append_assoc]
    · simp only [joinGroups, if_neg hpattern, List.getLast?_concat, List.dropLast_concat,
        List.getLast?_singleton, List.dropLast_singleton, List.nil_append]
      exact ih _ _

/-- The last group takes up everything up to the next pattern. -/
theorem foldl_joinGroups_singleton (children : List SyntaxNode) (pattern : SyntaxNode)
    (siblings : List SyntaxNode) :
    children.foldl joinGroups [(pattern, siblings)] =
      (pattern, siblings ++ children.takeWhile (·.kind != "pattern")) ::
        patternGroups children := by
  induction children generalizing siblings with
  | nil => simp [patternGroups]
  | cons child rest ih =>
    rw [patternGroups, List.foldl_cons, List.foldl_cons]
    by_cases hpattern : child.kind = "pattern"
    · simp only [joinGroups, if_pos hpattern, List.nil_append]
      rw [foldl_joinGroups_append, List.takeWhile_cons_of_neg (by simp [hpattern]),
        List.append_nil, List.singleton_append]
    · simp [joinGroups, hpattern, ih, patternGroups]

/-- A pattern comes with the siblings up to the next one; anything before the first pattern belongs
to none. -/
theorem patternGroups_cons (child : SyntaxNode) (rest : List SyntaxNode) :
    patternGroups (child :: rest) =
      if child.kind = "pattern" then
        (child, rest.takeWhile (·.kind != "pattern")) :: patternGroups rest
      else patternGroups rest := by
  rw [patternGroups, List.foldl_cons]
  by_cases hpattern : child.kind = "pattern"
  · simp [joinGroups, hpattern, foldl_joinGroups_singleton]
  · simp [joinGroups, hpattern, patternGroups]

/-- The initializer among the siblings of a pattern: the first construct after the first `=`. -/
def initializer? (siblings : List SyntaxNode) : Option SyntaxNode :=
  (siblings.dropWhile (·.kind != "=")).tail.find? (·.named)

/-- The kinds of calls. -/
def callKinds : List String := ["call_expression", "constructor_expression"]

/-- The site of a pattern and the siblings that belong to it. -/
def bindingSite (file : SourceFile) (pattern : SyntaxNode) (siblings : List SyntaxNode) :
    Except Fault BindingSite := do
  let name ← file.textOf pattern
  let initializer := initializer? siblings
  return {
    name
    line := pattern.position.1
    column := pattern.position.2
    nameEnd := pattern.stop
    isTyped := siblings.any (·.kind == "type_annotation")
    hasInitializer := initializer.isSome
    isTuplePattern := name.toList.head? == some '('
    initializerCall :=
      (initializer.filter fun node => callKinds.contains node.kind).map (·.position) }

/-- The bindings of the file: one per pattern of a declaration. -/
def bindings (file : SourceFile) : Except Fault (List BindingSite) :=
  let groups := (file.root.ofKinds ["property_declaration"]).flatMap fun declaration =>
    patternGroups declaration.children
  groups.mapM fun (pattern, siblings) => file.bindingSite pattern siblings

/-! ## Calls -/

/-- The callee of a call and whether it has generic arguments. Only a bare name counts: qualified
names such as `Outer.Inner` are left alone. -/
def callee? (call : SyntaxNode) : Option (SyntaxNode × Bool) :=
  if call.kind = "constructor_expression" then
    match call.childInRole? "constructed_type" with
    | none => none
    | some constructed =>
      if constructed.kind != "user_type" then none
      else
        match constructed.namedChildren.filter (·.kind == "type_identifier") with
        | [identifier] =>
          some (identifier, constructed.namedChildren.any (·.kind == "type_arguments"))
        | _ => none
  else
    match call.children with
    | callee :: following :: _ =>
      if callee.kind != "simple_identifier" then none
      else if following.kind = "call_suffix" then some (callee, false)
      else if following.kind = "type_arguments" then some (callee, true)
      else none
    | _ => none

/-- The site of a callee. -/
def callSite (file : SourceFile) (callee : SyntaxNode) (generic : Bool) :
    Except Fault CallSite := do
  let name ← file.textOf callee
  return {
    callee := name
    line := callee.position.1
    column := callee.position.2
    calleeStart := callee.start
    calleeEnd := callee.stop
    hasGenericArguments := generic }

/-- The calls of bare names in the file. -/
def calls (file : SourceFile) : Except Fault (List CallSite) :=
  ((file.root.ofKinds callKinds).filterMap callee?).mapM fun (callee, generic) =>
    file.callSite callee generic

/-! ## Closures -/

/-- The kinds of effects in a closure's signature. -/
def effectKinds : List String := ["async", "throws"]

/-- The parts of a closure's signature. -/
structure SignatureParts where
  /-- Where the parameter clause ends. -/
  stop : Nat
  /-- Where the last effect ends. -/
  effectsStop : Option Nat
  /-- Is an arrow written? -/
  hasArrow : Bool

/-- Reads the parts of a signature off its children, up to the arrow: what stands before the first
effect belongs to the parameter clause. -/
def signatureParts (stop : Nat) (effectsStop : Option Nat) : List SyntaxNode → SignatureParts
  | [] => ⟨stop, effectsStop, false⟩
  | child :: rest =>
    if child.kind = "->" then ⟨stop, effectsStop, true⟩
    else if effectKinds.contains child.kind then signatureParts stop (some child.stop) rest
    else
      match effectsStop with
      | none => signatureParts child.stop none rest
      | some _ => signatureParts stop effectsStop rest

/-- A closure parameter from its text. Before a colon, the last word is the name. -/
def closureParameter (text : String) : Except Fault ClosureParameter :=
  let chars := text.toList
  if chars.contains ':' then
    match Text.lastWord? (chars.takeWhile (· != ':')) with
    | some name => .ok ⟨String.ofList name, text, true⟩
    | none => .error .namelessParameter
  else .ok ⟨String.ofList (Text.trim chars), text, false⟩

/-- The site of a closure. -/
def closureSite (file : SourceFile) (literal : SyntaxNode) : Except Fault ClosureSite :=
  match literal.namedChildren.find? (·.kind == "lambda_function_type") with
  | none =>
    .ok {
      line := literal.position.1
      column := literal.position.2
      parameters := []
      signatureStart := none
      signatureEnd := none
      effectsEnd := none
      parenthesized := false
      hasReturnType := false
      hasEffects := false }
  | some signature => do
    let parts := signatureParts signature.start none signature.children
    let written := signature.descendants "lambda_parameter" ["lambda_literal"]
    let parameters ← written.mapM fun node => do closureParameter (← file.textOf node)
    return {
      line := literal.position.1
      column := literal.position.2
      parameters
      signatureStart := some signature.start
      signatureEnd := some parts.stop
      effectsEnd := some (parts.effectsStop.getD parts.stop)
      parenthesized := (signature.children.head?.map (·.kind)) == some "("
      hasReturnType := parts.hasArrow || (signature.childInRole? "return_type").isSome
      hasEffects := parts.effectsStop.isSome }

/-- The closures of the file. -/
def closures (file : SourceFile) : Except Fault (List ClosureSite) :=
  (file.root.ofKinds ["lambda_literal"]).mapM file.closureSite

end SourceFile

end TypeScribe
