/-!
# Paths

A path is a root, which is empty for a relative path, and parts. Repeated slashes and `.` parts say
nothing and are dropped; `..` is kept. Exactly two slashes in front are a root of their own, while
three or more are one.
-/

namespace TypeScribe

/-- A path in its normal form. -/
structure Path where
  root : String
  parts : List String
deriving DecidableEq

namespace Path

/-- The root that so many leading slashes make. -/
def rootOf : Nat → String
  | 0 => ""
  | 2 => "//"
  | _ => "/"

/-- Reads a path. -/
def ofString (text : String) : Path where
  root := rootOf (text.toList.takeWhile (· == '/')).length
  parts :=
    ((text.toList.splitOnP (· == '/')).map String.ofList).filter fun part =>
      part != "" && part != "."

/-- The text of a path; that of the empty one is a dot. -/
def text (path : Path) : String :=
  match path.root ++ String.intercalate "/" path.parts with
  | "" => "."
  | text => text

end Path

end TypeScribe
