import TypeScribe.Text.WholeNumber
import TypeScribe.Workspace.Path

/-!
# Reading the command line

A command line is scanned into options and positional arguments, and then understood as a request.
Options may stand before and after positional arguments; everything after `--` is positional. The
last of repeated options wins. A wrong option is noticed before a request for help, and that before
anything that is missing or superfluous.
-/

namespace TypeScribe.Command

/-! ## Scanning -/

/-- An option of a command. -/
structure Switch where
  /-- The long spelling, with its dashes. -/
  long : String
  /-- The letter of the short spelling. -/
  short : Option Char
  takesValue : Bool

/-- Options, with their values, and positional arguments, both in the order given. -/
structure Scan where
  options : List (String × String)
  positional : List String

/-- The scan with an option in front. -/
def Scan.addOption (name value : String) (scan : Scan) : Scan :=
  { scan with options := (name, value) :: scan.options }

/-- The scan with a positional argument in front. -/
def Scan.addPositional (argument : String) (scan : Scan) : Scan :=
  { scan with positional := argument :: scan.positional }

/-- What an argument that starts with a dash stands for. -/
inductive Spelled where
  /-- Options without a value. -/
  | flags (names : List String)
  /-- An option and its value. -/
  | valued (name value : String)
  /-- An option whose value is the next argument. -/
  | wantsValue (name : String)
  | unknown

/-- An argument as letters of short options, none of which takes a value. -/
def spelledShort (switches : List Switch) (letters : List Char) : Spelled :=
  let named := letters.mapM fun letter =>
    (switches.find? fun switch => switch.short == some letter && !switch.takesValue).map
      Switch.long
  match named with
  | some names => .flags names
  | none => .unknown

/-- What an argument that starts with a dash stands for, given the options there are. -/
def spelled (switches : List Switch) (argument : String) : Spelled :=
  let chars := argument.toList
  let name := String.ofList (chars.takeWhile (· != '='))
  match switches.find? (·.long == name), chars.dropWhile (· != '=') with
  | some switch, [] => if switch.takesValue then .wantsValue name else .flags [name]
  | some switch, _ :: value =>
    if switch.takesValue then .valued name (String.ofList value) else .unknown
  | none, _ => if chars.take 2 == ['-', '-'] then .unknown else spelledShort switches chars.tail

/-- Does the argument have the form of an option? -/
def looksLikeOption (argument : String) : Bool :=
  match argument.toList with
  | '-' :: _ :: _ => true
  | _ => false

/-- Scans arguments. Unless they may be mixed, the first positional argument ends the options. -/
def scan (switches : List Switch) (mixed : Bool) : List String → Option Scan
  | [] => some ⟨[], []⟩
  | argument :: rest =>
    if argument = "--" then some ⟨[], rest⟩
    else if looksLikeOption argument then
      match spelled switches argument with
      | .flags names =>
        (scan switches mixed rest).map fun later =>
          names.foldr (fun name later => later.addOption name "") later
      | .valued name value => (scan switches mixed rest).map (Scan.addOption name value)
      | .wantsValue name =>
        match rest with
        | [] => none
        | value :: rest => (scan switches mixed rest).map (Scan.addOption name value)
      | .unknown => none
    else if mixed then (scan switches mixed rest).map (Scan.addPositional argument)
    else some ⟨[], argument :: rest⟩

namespace Scan

/-- Is help asked for? -/
def wantsHelp (scan : Scan) : Bool := scan.options.any (·.1 == "--help")

/-- The last value given to an option. -/
def value? (scan : Scan) (name : String) : Option String :=
  (scan.options.reverse.find? (·.1 == name)).map (·.2)

/-- Is a flag given? -/
def has (scan : Scan) (name : String) : Bool := scan.options.any (·.1 == name)

/-- The last of two opposite flags that is given decides; without any, the answer is yes. -/
def lastOf (scan : Scan) (yes no : String) : Bool :=
  match scan.options.reverse.find? fun option => option.1 == yes || option.1 == no with
  | some (name, _) => name == yes
  | none => true

end Scan

/-! ## Requests -/

/-- What the user asks for. Paths are in their normal form. -/
inductive Request where
  | annotate (path : String) (dump : Option String) (inPlace bindings calls closures : Bool)
  | tree (path : String) (depth : Int)
  | find (path position : String) (file : Option String)
deriving DecidableEq

/-- A command line as it is understood. -/
inductive Reading where
  | request (request : Request)
  | help
  | misuse
deriving DecidableEq

/-- A whole command line. -/
structure Invocation where
  /-- Is every event to be logged? -/
  verbose : Bool
  reading : Reading

/-- The option that asks for help. -/
def helpSwitch : Switch := ⟨"--help", some 'h', false⟩

/-- A flag with a long spelling only. -/
def flag (long : String) : Switch := ⟨long, none, false⟩

/-- Reads the arguments of a command that takes `count` positional ones. -/
def readCommand (switches : List Switch) (count : Nat) (arguments : List String)
    (understand : Scan → List String → Option Request) : Reading :=
  match scan (helpSwitch :: switches) true arguments with
  | none => .misuse
  | some found =>
    if found.wantsHelp then .help
    else if found.positional.length != count then .misuse
    else
      match understand found found.positional with
      | some request => .request request
      | none => .misuse

/-- A path argument in its normal form. -/
def pathArgument (text : String) : String := (Path.ofString text).text

/-- Reads the arguments of `annotate`. -/
def readAnnotate (arguments : List String) : Reading :=
  let switches := [⟨"--dump", none, true⟩, ⟨"--in-place", some 'i', false⟩,
    flag "--bindings", flag "--no-bindings", flag "--calls", flag "--no-calls",
    flag "--closures", flag "--no-closures"]
  readCommand switches 1 arguments fun found positional =>
    match positional with
    | [path] =>
      some (.annotate (pathArgument path) ((found.value? "--dump").map pathArgument)
        (found.has "--in-place") (found.lastOf "--bindings" "--no-bindings")
        (found.lastOf "--calls" "--no-calls") (found.lastOf "--closures" "--no-closures"))
    | _ => none

/-- How deep a tree is drawn unless told otherwise. -/
def standardDepth : Int := 8

/-- Reads the arguments of `dump tree`. -/
def readTree (arguments : List String) : Reading :=
  readCommand [⟨"--depth", none, true⟩] 1 arguments fun found positional =>
    match positional, found.value? "--depth" with
    | [path], none => some (.tree (pathArgument path) standardDepth)
    | [path], some depth =>
      (Text.readWholeNumber? depth.toList).map (.tree (pathArgument path) ·)
    | _, _ => none

/-- Reads the arguments of `dump find`. -/
def readFind (arguments : List String) : Reading :=
  readCommand [⟨"--file", none, true⟩] 2 arguments fun found positional =>
    match positional with
    | [path, position] => some (.find (pathArgument path) position (found.value? "--file"))
    | _ => none

/-- Understands the arguments of a group of commands, given what each command makes of its own. -/
def readGroup (found : Scan) (command : String → List String → Reading) : Reading :=
  if found.wantsHelp then .help
  else
    match found.positional with
    | [] => .misuse
    | name :: rest => command name rest

/-- Reads the commands under `dump`. -/
def readDump (arguments : List String) : Reading :=
  match scan [helpSwitch] false arguments with
  | none => .misuse
  | some found =>
    readGroup found fun name rest =>
      match name with
      | "tree" => readTree rest
      | "find" => readFind rest
      | _ => .misuse

/-- Reads a whole command line. -/
def read (arguments : List String) : Invocation :=
  match scan [helpSwitch, ⟨"--verbose", some 'v', false⟩] false arguments with
  | none => ⟨false, .misuse⟩
  | some found =>
    ⟨found.has "--verbose", readGroup found fun name rest =>
      match name with
      | "annotate" => readAnnotate rest
      | "dump" => readDump rest
      | _ => .misuse⟩

end TypeScribe.Command
