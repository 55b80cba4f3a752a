import TypeScribe.Fault
import TypeScribe.Text.Blank

/-!
# Settings

Which compiler to run with which arguments, and what to annotate. Settings are given, or read from
the environment: a flag there is off when its value, trimmed and in lower case, is one of a few
words, and on otherwise.
-/

namespace TypeScribe

/-- How dumps are made and what is annotated. -/
structure Settings where
  compiler : String
  arguments : List String
  annotateBindings : Bool
  annotateCalls : Bool
  annotateClosures : Bool
deriving DecidableEq

namespace Settings

/-- Everything is annotated from the dump of `swiftc`. -/
def standard : Settings where
  compiler := "swiftc"
  arguments := []
  annotateBindings := true
  annotateCalls := true
  annotateClosures := true

/-- The values of a flag that switch it off. -/
def offWords : List String := ["0", "false", "no", "off", ""]

/-- Does a flag with this value stand for on? No word that switches it off holds a letter beyond
ASCII, so lowering ASCII letters is enough. -/
def isOn (value : String) : Bool :=
  !offWords.contains (String.ofList ((Text.trim value.toList).map Char.toLower))

/-- The settings that an environment asks for. -/
def ofEnvironment (environment : String → Option String) : Except Fault Settings :=
  match Text.shellWords ((environment "SWIFTC_ARGS").getD "") with
  | .error reason => .error (.arguments reason)
  | .ok arguments =>
    .ok {
      compiler := (environment "SWIFTC").getD standard.compiler
      arguments
      annotateBindings := ((environment "BINDINGS").map isOn).getD true
      annotateCalls := ((environment "CALLS").map isOn).getD true
      annotateClosures := ((environment "CLOSURES").map isOn).getD true }

/-- The command that dumps a file. -/
def dumpCommand (settings : Settings) (path : String) : List String :=
  settings.compiler :: "-dump-ast" :: "-suppress-warnings" :: (settings.arguments ++ [path])

end Settings

end TypeScribe
