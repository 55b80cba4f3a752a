import TypeScribe.Annotate.Plan
import TypeScribe.Dump.Grammar
import TypeScribe.Source.File

/-!
# Annotating a file

Reads a dump, lists the sites of a source file, plans the edits and applies them.
-/

namespace TypeScribe

open Dump

/-- Reads a dump into its tree of nodes; all or nothing. -/
def Dump.Node.parse [CallStack] (text : String) : Logged Node :=
  match RawNode.parse text with
  | .error reason => Logged.fail (.ofUnread reason)
  | .ok raw => do
    let node := Node.ofRaw raw
    Logged.note (.parsedDump node.name text.length)
    return node

namespace SourceFile

/-- A source file from its bytes and what the Swift parser gives for them. -/
def ofBytes (name : String) (bytes : List UInt8) (tree : SyntaxTree) : Logged SourceFile := do
  if tree.hasError then Logged.note (.syntaxErrors name)
  return ⟨name, bytes, tree.root⟩

/-- The sites of a file. -/
def sites (file : SourceFile) : SiteListing where
  fileName := file.name
  calls := file.calls
  bindings := file.bindings
  closures := file.closures

end SourceFile

/-- A file before and after annotation. -/
structure AnnotatedFile where
  fileName : String
  before : String
  after : String
  edits : List Edit

/-- Did anything change? -/
def AnnotatedFile.changed (file : AnnotatedFile) : Bool := file.after != file.before

namespace SourceFile

/-- Annotates a file from the tree of its dump. -/
def annotate [CallStack] (file : SourceFile) (root : Node) (settings : Settings) :
    Logged AnnotatedFile := do
  let edits ← plan root settings file.sites
  let after ← Logged.ofExcept (file.apply edits)
  Logged.note (.planned edits.length file.name)
  let before ← Logged.ofExcept (file.apply [])
  return ⟨file.name, before, after, edits⟩

end SourceFile

/-- Plans edits for sites that are given, and applies them to the bytes of the file. The edits are
known also when they cannot be applied. -/
def annotateSites [CallStack] (root : Node) (settings : Settings) (sites : SiteListing)
    (bytes : List UInt8) : Logged (List Edit × Except Fault String) := do
  let edits ← plan root settings sites
  Logged.note (.applying edits.length sites.fileName)
  return (edits, SourceFile.applyEdits bytes edits)

/-- Annotates a text from the text of its dump. -/
def annotateSource [CallStack] (source dump fileName : String) (tree : SyntaxTree)
    (settings : Settings) : Logged AnnotatedFile := do
  let root ← Node.parse dump
  let file ← SourceFile.ofBytes fileName (Text.encode source) tree
  file.annotate root settings

end TypeScribe
