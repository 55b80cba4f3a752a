import TypeScribe.Annotate.Result
import TypeScribe.Text.Newline
import TypeScribe.Workspace.Basic

/-!
# Annotating files of a workspace

Reads sources and dumps from a workspace, or has the compiler make a dump. What lies outside the
library is a `Host`: the environment, the compiler, and a Swift parser.
-/

namespace TypeScribe

open Dump

/-- What comes of a command to the compiler. -/
inductive CompilerOutcome where
  /-- There is no such program. -/
  | notFound
  /-- The system does not run the program. -/
  | notRun (reason : String)
  /-- What the program has written is not text. -/
  | notText
  /-- The program has ended. -/
  | ended (status : Int) (output errors : String)

/-- What lies outside. -/
structure Host where
  /-- The value of a variable of the environment. -/
  environment : String → Option String
  /-- Runs a command. -/
  compile : List String → CompilerOutcome
  /-- Parses the bytes of a source file. -/
  parseSwift : List UInt8 → SyntaxTree

/-- The settings given, or else those of the environment. -/
def Host.settings (host : Host) : Option Settings → Logged Settings
  | some settings => return settings
  | none => Logged.ofExcept (Settings.ofEnvironment host.environment)

namespace Workspace

/-- The bytes of a file that is wanted in some role. -/
def readBytes (workspace : Workspace) (role : FileRole) (path : String) : Logged (List UInt8) :=
  match workspace.target (.ofString path) with
  | .file _ bytes => return bytes
  | .directory => Logged.fail (.isDirectory (Path.ofString path).text)
  | .nothing => Logged.fail (.missingFile role path)

/-- Reads a source file. -/
def openSource (workspace : Workspace) (host : Host) (path : String) : Logged SourceFile := do
  let bytes ← workspace.readBytes .source path
  SourceFile.ofBytes (Path.ofString path).text bytes (host.parseSwift bytes)

/-- Reads a dump from a file, whose line ends may be of any kind. -/
def loadDump [CallStack] (workspace : Workspace) (path : String) : Logged Node := do
  let bytes ← workspace.readBytes .dump path
  let text ← Logged.ofExcept (SourceFile.decode bytes)
  Node.parse (String.ofList (Text.unifyNewlines text.toList))

/-- Has the compiler dump a file. Some compilers write the dump where errors go. -/
def runCompiler (workspace : Workspace) (host : Host) (settings : Settings) (path : String) :
    Logged String := do
  if !workspace.leadsSomewhere (.ofString path) then
    Logged.fail (.missingFile .source path)
  else
    let command := settings.dumpCommand (Path.ofString path).text
    Logged.note (.dumping command)
    match host.compile command with
    | .notFound => Logged.fail (.compiler (.notFound settings.compiler))
    | .notRun reason => Logged.fail (.notRun reason)
    | .notText => Logged.fail .notUtf8
    | .ended status output errors =>
      if status ≠ 0 then
        Logged.fail (.compiler (.exited settings.compiler status errors))
      else if output.toList.all Text.isBlank then return errors
      else return output

/-- The dump that the compiler makes of a file. -/
def dumpSource [CallStack] (workspace : Workspace) (host : Host) (settings : Settings)
    (path : String) : Logged Node := do
  Node.parse (← workspace.runCompiler host settings path)

/-- Annotates a file, from the dump in another file if one is given, and otherwise from the dump
that the compiler makes. -/
def annotateFile [CallStack] (workspace : Workspace) (host : Host) (settings : Settings)
    (path : String) (dumpPath : Option String) : Logged AnnotatedFile := do
  let file ← workspace.openSource host path
  let root ←
    match dumpPath with
    | some dumpPath => workspace.loadDump dumpPath
    | none => workspace.dumpSource host settings path
  file.annotate root settings

end Workspace

end TypeScribe
