import TypeScribe.Dump.Point

/-!
# Entries of a dump

What the compiler writes between the parentheses of a node, in the order in which it is written:
attributes, tokens and further nodes.
-/

namespace TypeScribe.Dump

/-- A reference to a declaration, such as `Swift.(file).Int.init(_builtinIntegerLiteral:)`. The
substitution is the `[with ...]` block, as written. -/
structure Decl where
  signature : String
  substitution : Option String
deriving DecidableEq

/-- What the compiler recorded about a node. -/
inductive Attribute where
  | range (range : Range)
  | type (name : String)
  | location (point : Point)
  | nothrow
  | decl (decl : Decl)
  /-- Any other keyword, with its value as written. -/
  | unknown (keyword : String) (value : Option String)
deriving DecidableEq

/-- A piece of text that is no attribute. -/
inductive Token where
  | singleQuoted (text : String)
  | doubleQuoted (text : String)
  | raw (text : String)
deriving DecidableEq

/-- The text of a quoted token. -/
def Token.quotedText? : Token → Option String
  | .singleQuoted text | .doubleQuoted text => some text
  | .raw _ => none

/-- One entry of a node. -/
inductive Entry where
  | attr (value : Attribute)
  | token (value : Token)
  | node (name : String) (value : Option String) (entries : List Entry)

/-- A node as the dump writes it: its name, the quoted value right after the name, and its entries
in the order of the dump. -/
structure RawNode where
  name : String
  value : Option String
  entries : List Entry

/-- A node as an entry of the node around it. -/
def RawNode.toEntry (raw : RawNode) : Entry := .node raw.name raw.value raw.entries

namespace Entry

/-- The attribute, if the entry is one. -/
def attr? : Entry → Option Attribute
  | .attr value => some value
  | _ => none

/-- The token, if the entry is one. -/
def token? : Entry → Option Token
  | .token value => some value
  | _ => none

/-- The node, if the entry is one. -/
def node? : Entry → Option RawNode
  | .node name value entries => some ⟨name, value, entries⟩
  | _ => none

end Entry

end TypeScribe.Dump
