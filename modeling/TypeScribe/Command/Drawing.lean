import TypeScribe.Command.Markup
import TypeScribe.Dump.Node
import TypeScribe.Text.Cell

/-!
# Drawings

How a dump is shown on a terminal: as an outline with branches, and one node as a table. An outline
is drawn branch by branch on a tour of the tree (`Sketch`). Columns are counted in cells.
-/

namespace TypeScribe.Command

open Dump

/-! ## Text on a terminal -/

/-- A character that would move the cursor: bell, backspace, vertical tab, form feed, carriage
return. -/
def movesCursor (c : Char) : Bool := [0x7, 0x8, 0xb, 0xc, 0xd].contains c.toNat

/-- How far apart tab stops are. -/
def tabWidth : Nat := 8

/-- The pieces of a line between its tabs, put together again from the given column on. A tab is one
space at least, and as many as it takes to the next tab stop. -/
def joinTabbed (column : Nat) : List (List Char) → List Char
  | [] => []
  | [last] => last
  | piece :: next :: rest =>
    let spaced := piece ++ [' ']
    let reached := column + Text.cellCount spaced
    let stop := (reached + tabWidth - 1) / tabWidth * tabWidth
    spaced ++ List.replicate (stop - reached) ' ' ++ joinTabbed stop (next :: rest)

/-- The line with spaces in place of its tabs. -/
def expandTabs (line : String) : String :=
  String.ofList (joinTabbed 0 (line.toList.splitOnP (· == '\t')))

/-- The text without the characters that would move the cursor. -/
def still (text : String) : String := String.ofList (text.toList.filter fun c => !movesCursor c)

/-- The lines that a text takes. -/
def shownLines (text : String) : List String :=
  ((still text).splitOn "\n").map expandTabs

/-! ## Outlines -/

/-- Labels with branches. -/
inductive Outline where
  | mk (label : String) (branches : List Outline)

/-- A node on one line, as markup: its name, and its value, type and location as far as it has
them. -/
def labelMarkup (node : Node) : String :=
  String.intercalate " " <|
    [Markup.styled "bold" node.name]
    ++ (node.value.map fun value => "\"" ++ Markup.escape value ++ "\"").toList
    ++ (node.type.map (Markup.styled "cyan")).toList
    ++ (node.location.map fun point => Markup.styled "dim" ("@" ++ point.text)).toList

/-- A node on one line. -/
def label (node : Node) : String := Markup.render (labelMarkup node)

namespace Outline

/-- The label of an outline. -/
def label : Outline → String
  | .mk label _ => label

/-- The branches of an outline, from the first to the last. -/
def branches : Outline → List Outline
  | .mk _ branches => branches

/-- The branch at a path of branch numbers. -/
def get? (outline : Outline) : List Nat → Option Outline
  | [] => some outline
  | index :: path => outline.branches[index]?.bind fun branch => branch.get? path

/-- The outline with another branch in place of the one at a path. -/
def modify (change : Outline → Outline) : List Nat → Outline → Outline
  | [], outline => change outline
  | index :: path, .mk label branches => .mk label (branches.modify index (modify change path))

/-- The outline with one more branch, which has no branches itself. -/
def push (added : String) : Outline → Outline
  | .mk label branches => .mk label (branches ++ [.mk added []])

/-- Adds a last branch to the branch at a path and tells the path of the new one; nothing if the
path leads nowhere. -/
def add? (added : String) (path : List Nat) (outline : Outline) : Option (Outline × List Nat) :=
  (outline.get? path).map fun branch =>
    (outline.modify (push added) path, path ++ [branch.branches.length])

/-- Puts `first` before the first line and `later` before the others. -/
def hang (first later : String) : List String → List String
  | [] => []
  | line :: rest => (first ++ line) :: rest.map (later ++ ·)

mutual
/-- The lines of an outline. -/
def lines : Outline → List String
  | .mk label branches => shownLines label ++ branchLines branches

/-- The lines of branches; the last one ends the stem. -/
def branchLines : List Outline → List String
  | [] => []
  | branch :: rest =>
    match rest with
    | [] => hang "└── " "    " branch.lines
    | _ :: _ => hang "├── " "│   " branch.lines ++ branchLines rest
end

end Outline

/-! ## Drawing a tree -/

/-- An outline that is being drawn. -/
structure Sketch where
  outline : Outline
  /-- The path of the branch of each node that has one, by the node's place in the tree. -/
  branchOf : List (List Nat × List Nat)

namespace Sketch

/-- The root alone. -/
def ofRoot (root : Node) : Sketch := ⟨.mk (Command.label root) [], [([], [])]⟩

/-- Adds a node under the branch at a path. -/
def addNode? (path : List Nat) (sketch : Sketch) (child : Node.Found) : Option Sketch := do
  let (outline, added) ← sketch.outline.add? (Command.label child.node) path
  return ⟨outline, (child.path, added) :: sketch.branchOf⟩

/-- Adds the children of a node under its own branch, unless the node is as deep as may be
shown. -/
def addChildren? (depth : Int) (sketch : Sketch) : Nat × Node.Found → Option Sketch
  | (level, found) =>
    if depth ≤ level then some sketch
    else do
      let path ← sketch.branchOf.lookup found.path
      found.children.foldlM (addNode? path) sketch

end Sketch

/-- The outline of a tree down to a depth, drawn on a tour of the tree. It would come to nothing if
a node were met that has no branch. -/
def Outline.draw? (depth : Int) (root : Node) : Option Outline :=
  (root.tour.foldlM (Sketch.addChildren? depth) (Sketch.ofRoot root)).map Sketch.outline

/-- The lines of a tree drawn down to a depth; a negative depth shows the root alone. -/
def treeLines (depth : Int) (root : Node) : List String :=
  ((Outline.draw? depth root).map Outline.lines).getD []

/-! ## Tables -/

/-- A text as it is shown in a table. -/
def cell (text : String) : String := still (Markup.shown text)

/-- What is shown of one node, each on one line. -/
def rows (node : Node) : List (String × String) :=
  [("name", cell node.name),
   ("value", cell (node.value.getD "")),
   ("type", cell (node.type.getD "")),
   ("location", cell ((node.location.map Point.text).getD "")),
   ("range", cell ((node.range.map Range.text).getD "")),
   ("decl", cell ((node.decl.map Decl.signature).getD ""))]

/-- The text with as many spaces after it as it takes fewer cells than `width`. -/
def filled (width : Nat) (text : List Char) : List Char :=
  text ++ List.replicate (width - Text.cellCount text) ' '

/-- The text filled up with spaces. A joiner at its end swallows the first of them, which is made up
for. -/
def padded (width : Nat) (text : String) : String :=
  String.ofList (filled width (filled width text.toList))

/-- The cells of the widest of several texts. -/
def widest (texts : List String) : Nat :=
  (texts.map fun text => Text.cellCount text.toList).foldl max 0

/-- A stretch of the table's frame. -/
def frame (width : Nat) : String := String.ofList (List.replicate (width + 2) '─')

/-- The lines of a table of two columns. -/
def tableLines (rows : List (String × String)) : List String :=
  let left := widest (rows.map (·.1))
  let right := widest (rows.map (·.2))
  ["┌" ++ frame left ++ "┬" ++ frame right ++ "┐"]
  ++ rows.map (fun row => "│ " ++ padded left row.1 ++ " │ " ++ padded right row.2 ++ " │")
  ++ ["└" ++ frame left ++ "┴" ++ frame right ++ "┘"]

end TypeScribe.Command
