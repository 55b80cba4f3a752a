import TypeScribe.Command.Arguments
import TypeScribe.Command.Drawing
import TypeScribe.Workspace.Annotate

/-!
# Running a command

Carries out a command line and gives a report: the exit status, what is printed, what was run and
what is to be written. A fault that the user can mend is printed and ends with status 1; any other
one escapes, with status 1 too. A file is written only after everything else has succeeded.
-/

namespace TypeScribe.Command

open Dump

/-- How a run ended. -/
structure Report where
  exitCode : Nat
  /-- What is printed. -/
  output : String
  /-- The lines that tell of an error. -/
  errors : List String
  /-- A fault that was not reported to the user. -/
  escaped : Option Fault
  /-- What happened on the way. -/
  log : List Event
  /-- The files to be written, with their new texts. -/
  written : List (Place × String)

namespace Report

/-- A report of an exit status and nothing else. -/
def silent (exitCode : Nat) : Report := ⟨exitCode, "", [], none, [], []⟩

/-- A report of printed text. -/
def printed (output : String) : Report := { silent 0 with output }

/-- A report of a fault that escapes. -/
def escaping (fault : Fault) : Report := { silent 1 with escaped := some fault }

/-- The commands given to the compiler. -/
def commands (report : Report) : List (List String) := report.log.filterMap Event.command?

/-- The workspace after the run. -/
def apply (report : Report) (workspace : Workspace) : Workspace :=
  report.written.foldl (fun workspace (place, text) => workspace.write place (Text.encode text))
    workspace

end Report

/-- Lines as they are printed. -/
def printLines (lines : List String) : String := String.join (lines.map (· ++ "\n"))

/-- Is this a fault that the user can mend? -/
def isReported : Fault → Bool
  | .malformedDump _ | .compiler _ | .missingFile .. => true
  | _ => false

/-- The lines of an error message that announce it. -/
def errorLines (message : String) : List String :=
  (shownLines ("Error: " ++ Markup.shown message)).filter fun line => line.startsWith "Error: "

/-- The report of a fault. -/
def failure (fault : Fault) : Report :=
  if isReported fault then { Report.silent 1 with errors := errorLines fault.message }
  else Report.escaping fault

/-- The report of a computation. -/
def conclude {α : Type} (result : Logged α) (report : α → Report) : Report :=
  let ending :=
    match result.outcome with
    | .ok value => report value
    | .error fault => failure fault
  { ending with log := result.log }

/-! ## Annotating -/

/-- What is printed about a file that was annotated in place. -/
def inPlaceLine (path : String) (file : AnnotatedFile) : String :=
  if file.changed then
    "Annotated " ++ Markup.shown path ++ " (" ++ toString file.edits.length ++ " edit(s))"
  else "Unchanged " ++ Markup.shown path

/-- Writes an annotated file back, if it has changed. -/
def writeBack (workspace : Workspace) (path : String) (file : AnnotatedFile) : Report :=
  let report := Report.printed (printLines (shownLines (inPlaceLine path file)))
  if file.changed then
    match workspace.target (.ofString path) with
    | .file place _ => { report with written := [(place, file.after)] }
    | _ => report
  else report

/-- Runs `annotate`. The flags of the command line override those of the environment. -/
def runAnnotate [CallStack] (host : Host) (workspace : Workspace) (path : String)
    (dump : Option String) (inPlace bindings calls closures : Bool) : Report :=
  match Settings.ofEnvironment host.environment with
  | .error fault => Report.escaping fault
  | .ok settings =>
    let settings : Settings :=
      { settings with
        annotateBindings := bindings
        annotateCalls := calls
        annotateClosures := closures }
    conclude (workspace.annotateFile host settings path dump) fun file =>
      if inPlace then writeBack workspace path file else Report.printed file.after

/-! ## Looking at dumps -/

/-- Runs `dump tree`. -/
def runTree [CallStack] (workspace : Workspace) (path : String) (depth : Int) : Report :=
  conclude (workspace.loadDump path) fun root =>
    Report.printed (printLines (treeLines depth root))

/-- A position as it is understood. -/
inductive Position where
  | found (line column : Nat)
  | misuse
  /-- Digits, but no numeral. -/
  | notANumeral (text : String)
deriving DecidableEq

/-- Reads `LINE:COLUMN`. Both must be digits, and both must be numerals. -/
def readPosition (text : String) : Position :=
  let line := text.toList.takeWhile (· != ':')
  let column := (text.toList.dropWhile (· != ':')).drop 1
  if line.isEmpty || column.isEmpty || !line.all Text.isDigit || !column.all Text.isDigit then
    .misuse
  else
    match Text.readDecimal? line, Text.readDecimal? column with
    | some line, some column => .found line column
    | none, _ => .notANumeral (String.ofList line)
    | some _, none => .notANumeral (String.ofList column)

/-- The file name to look for: the one given, else the value of the dump's root. -/
def wantedFile (file : Option String) (root : Node) : String :=
  match file with
  | some "" | none => root.value.getD ""
  | some name => name

/-- What is printed about a point at which there is no node. -/
def missingLine (point : Point) : String :=
  "No node at " ++ Markup.shown point.fileName ++ ":" ++ toString point.line ++ ":"
    ++ toString point.column

/-- What is shown for a point of a dump. -/
def showPoint (root : Node) (point : Point) : Report :=
  match root.find point with
  | none => { Report.silent 1 with output := printLines (shownLines (missingLine point)) }
  | some found => Report.printed (printLines (tableLines (rows found.node)))

/-- Runs `dump find`. The position is read before the file. -/
def runFind [CallStack] (workspace : Workspace) (path position : String)
    (file : Option String) : Report :=
  match readPosition position with
  | .misuse => Report.silent 2
  | .notANumeral text => Report.escaping (.notANumeral text)
  | .found line column =>
    conclude (workspace.loadDump path) fun root =>
      showPoint root ⟨wantedFile file root, line, column⟩

/-! ## All commands -/

/-- Carries out a request. -/
def runRequest [CallStack] (host : Host) (workspace : Workspace) : Request → Report
  | .annotate path dump inPlace bindings calls closures =>
    runAnnotate host workspace path dump inPlace bindings calls closures
  | .tree path depth => runTree workspace path depth
  | .find path position file => runFind workspace path position file

/-- Carries out a command line. -/
def run [CallStack] (host : Host) (workspace : Workspace) (arguments : List String) : Report :=
  match (read arguments).reading with
  | .request request => runRequest host workspace request
  | .help => Report.silent 0
  | .misuse => Report.silent 2

end TypeScribe.Command
