import TypeScribe.Command.Run

/-!
# The command line

Carries out a command line on real files. The files that the arguments may name are read beforehand,
and what the report says is printed and written afterwards. No Swift parser and no way to start a
compiler are linked in: dumps are read from files, and a source file has no sites.
-/

namespace TypeScribe.Main

open TypeScribe.Command

/-- What the variables of the environment start with. -/
def variableStart : String := "SWIFT_TYPE_INJECTOR_"

/-- The variables that are read. -/
def variableNames : List String := ["SWIFTC", "SWIFTC_ARGS", "BINDINGS", "CALLS", "CLOSURES"]

/-- How the program is used. -/
def usage : String :=
  "annotate PATH [--dump FILE] [-i|--in-place] " ++
    "[--[no-]bindings] [--[no-]calls] [--[no-]closures]\n" ++
    "dump tree PATH [--depth N]\n" ++
    "dump find PATH LINE:COLUMN [--file NAME]\n"

/-- The environment, as a function. -/
def environment : IO (String → Option String) := do
  let values : List (String × Option String) ← variableNames.mapM fun name => do
    return (name, ← IO.getEnv (variableStart ++ name))
  return fun name => (values.lookup name).join

/-- The texts in an argument that may be paths: all of it, and the value of an option. -/
def pathTexts (argument : String) : List String :=
  [argument, String.ofList ((argument.toList.dropWhile (· != '=')).drop 1)]

/-- The place of a path, by its names alone. -/
def placeOf (path : Path) : Place :=
  path.parts.foldl
    (fun place name => if name = ".." then Workspace.parent place else place ++ [name])
    (Workspace.startOf path)

/-- The file at a path, if there is one. -/
def readPlace? (text : String) : IO (Option (Place × List UInt8)) := do
  let place := placeOf (.ofString text)
  let .ok bytes ← (IO.FS.readBinFile place.text).toBaseIO | return none
  return some (place, bytes.toList)

/-- The files that the arguments name. -/
def workspaceFor (arguments : List String) : IO Workspace := do
  let found ← (arguments.flatMap pathTexts).mapM readPlace?
  return ⟨found.filterMap id⟩

/-- A source file without constructs. -/
def emptyTree : SyntaxTree := ⟨⟨"source_file", 0, 0, 0, 0, true, none, []⟩, false⟩

/-- Is the event to be logged? -/
def isLogged (verbose : Bool) (event : Event) : Bool := verbose || event.level = .warning

/-- Prints a report, and writes its files. -/
def present (verbose : Bool) (report : Report) : IO Unit := do
  let errors ← IO.getStderr
  for event in report.log.filter (isLogged verbose) do
    errors.putStr (event.message ++ "\n")
  for line in report.errors do
    errors.putStr (line ++ "\n")
  if let some fault := report.escaped then
    errors.putStr (fault.message ++ "\n")
  for (place, text) in report.written do
    IO.FS.writeFile place.text text
  (← IO.getStdout).putStr report.output

end TypeScribe.Main

open TypeScribe in
/-- Runs the program. -/
def main (arguments : List String) : IO UInt32 := do
  let host : Host := ⟨← Main.environment, fun _ => .notFound, fun _ => Main.emptyTree⟩
  let _ := CallStack.uniform 1000
  let invocation := Command.read arguments
  let report := Command.run host (← Main.workspaceFor arguments) arguments
  Main.present invocation.verbose report
  match invocation.reading with
  | .help => (← IO.getStdout).putStr Main.usage
  | .misuse => (← IO.getStderr).putStr Main.usage
  | .request _ => pure ()
  return report.exitCode.toUInt32
