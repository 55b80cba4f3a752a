import TypeScribe.Workspace.Path

/-!
# Workspaces

The files that are within reach, as a value. Writing a file leaves all others as they are.
-/

namespace TypeScribe

/-- The names that lead to a file or a directory from the working directory. A place outside of it
starts with `..`, or with `/` when it is given from the root. -/
abbrev Place := List String

/-- The text of a place. -/
def Place.text : Place → String
  | "/" :: names => "/" ++ String.intercalate "/" names
  | names => String.intercalate "/" names

/-- Files, with their bytes. -/
structure Workspace where
  files : List (Place × List UInt8)

/-- What a path leads to. -/
inductive Target where
  | file (place : Place) (bytes : List UInt8)
  | directory
  | nothing
deriving DecidableEq

namespace Workspace

/-- Does the place lie above the working directory, or is it that directory or the root? -/
def isAbove (place : Place) : Bool := place.all (· == "..") || place == ["/"]

/-- Is the place a directory? Those that hold a file are, and those above. -/
def isDirectory (workspace : Workspace) (place : Place) : Bool :=
  isAbove place || workspace.files.any fun file => place.isPrefixOf file.1 && place != file.1

/-- The directory around a directory. -/
def parent (place : Place) : Place :=
  if place == ["/"] then place
  else if place.all (· == "..") then place ++ [".."]
  else place.dropLast

/-- The place that names lead to from another one. Only a directory can be left through `..`. -/
def resolve (workspace : Workspace) (place : Place) : List String → Option Place
  | [] => some place
  | name :: rest =>
    if name = ".." then
      if workspace.isDirectory place then workspace.resolve (parent place) rest else none
    else workspace.resolve (place ++ [name]) rest

/-- The bytes of the file at a place. -/
def bytesAt? (workspace : Workspace) (place : Place) : Option (List UInt8) :=
  workspace.files.lookup place

/-- The place from which a path starts. -/
def startOf (path : Path) : Place := if path.root = "" then [] else ["/"]

/-- What a path leads to. -/
def target (workspace : Workspace) (path : Path) : Target :=
  match workspace.resolve (startOf path) path.parts with
  | none => .nothing
  | some place =>
    match workspace.bytesAt? place with
    | some bytes => .file place bytes
    | none => if workspace.isDirectory place then .directory else .nothing

/-- Does the path lead to anything? -/
def leadsSomewhere (workspace : Workspace) (path : Path) : Bool :=
  match workspace.target path with
  | .nothing => false
  | _ => true

/-- The workspace with other bytes in the file at a place. -/
def write (workspace : Workspace) (place : Place) (bytes : List UInt8) : Workspace :=
  if workspace.files.any (·.1 == place) then
    ⟨workspace.files.map fun file => if file.1 = place then (place, bytes) else file⟩
  else ⟨workspace.files ++ [(place, bytes)]⟩

end Workspace

end TypeScribe
