import TypeScribe.SwiftType.Basic

/-!
# Spelling types

How a type is written into a source file. A function result that is the empty tuple is spelled
`Void`; anywhere else the empty tuple is `()`. The base of `?`, `!`, `.Type` and `.Protocol` takes
parentheses when it is a function type, a composition or has attributes.
-/

namespace TypeScribe.SwiftType

/-- Must the type be put in parentheses before a postfix? -/
def needsParentheses : SwiftType → Bool
  | .function .. | .composition _ | .attributed .. => true
  | _ => false

/-- The text of a postfix's base. -/
def parenthesized (type : SwiftType) (text : String) : String :=
  if type.needsParentheses then "(" ++ text ++ ")" else text

/-- Is this the empty tuple? -/
def isUnit : SwiftType → Bool
  | .tuple [] => true
  | _ => false

/-- The text of an element around the text of its type. -/
def elementText (label : Option String) (type : String) (variadic : Bool) : String :=
  let labelled := match label with
    | some label => label ++ ": " ++ type
    | none => type
  labelled ++ if variadic then "..." else ""

/-- The text of a segment around the texts of its arguments. -/
def segmentText (name : String) : List String → String
  | [] => name
  | arguments => name ++ "<" ++ String.intercalate ", " arguments ++ ">"

/-- The effects of a function, each after a space. -/
def effectsText (effects : List String) : String := String.join (effects.map (" " ++ ·))

/-- The text of a function's result, given its spelling elsewhere. -/
def resultText (result : SwiftType) (text : String) : String :=
  if isUnit result then "Void" else text

mutual
/-- The spelling of a type. -/
def render : SwiftType → String
  | .nominal segments => String.intercalate "." (renderSegments segments)
  | .tuple elements => "(" ++ String.intercalate ", " (renderElements elements) ++ ")"
  | .array element => "[" ++ render element ++ "]"
  | .dictionary key value => "[" ++ render key ++ " : " ++ render value ++ "]"
  | .optional wrapped implicitlyUnwrapped =>
    parenthesized wrapped (render wrapped) ++ if implicitlyUnwrapped then "!" else "?"
  | .metatype of kind => parenthesized of (render of) ++ "." ++ kind
  | .attributed attributes base => String.intercalate " " (attributes ++ [render base])
  | .composition members => String.intercalate " & " (renderAll members)
  | .function parameters result effects =>
    "(" ++ String.intercalate ", " (renderElements parameters) ++ ")" ++ effectsText effects ++
      " -> " ++ resultText result (render result)

/-- The spellings of several types. -/
def renderAll : List SwiftType → List String
  | [] => []
  | type :: rest => render type :: renderAll rest

/-- The spellings of segments. -/
def renderSegments : List (TypeSegment SwiftType) → List String
  | [] => []
  | ⟨name, arguments⟩ :: rest => segmentText name (renderAll arguments) :: renderSegments rest

/-- The spellings of elements. -/
def renderElements : List (TypeElement SwiftType) → List String
  | [] => []
  | ⟨label, type, variadic⟩ :: rest =>
    elementText label (render type) variadic :: renderElements rest
end

/-- The spelling of a function's result. -/
def renderResult (result : SwiftType) : String := resultText result (render result)

end TypeScribe.SwiftType
