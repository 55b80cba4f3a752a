import TypeScribe.Dump.Point
import TypeScribe.Fault

/-!
# Journal

What the library reports while it works. A `Logged` computation gives, besides its outcome, the
events up to its end, also when it ends in a fault. Events are data; their wording stands in one
place, and what was run can be read off them.
-/

namespace TypeScribe

/-- How much an event matters. -/
inductive Level where
  | debug
  | info
  | warning
deriving DecidableEq

/-- The name of a level in the log. -/
def Level.name : Level → String
  | .debug => "DEBUG"
  | .info => "INFO"
  | .warning => "WARNING"

/-- Something worth reporting. -/
inductive Event where
  /-- A dump of so many characters was read. -/
  | parsedDump (root : String) (characters : Nat)
  /-- The compiler is about to be run. -/
  | dumping (command : List String)
  /-- The Swift parser met errors. -/
  | syntaxErrors (fileName : String)
  /-- A recorded type name is not understood. -/
  | unreadableType (text : String) (failure : Failure)
  /-- The initializer of a binding already spells its type. -/
  | spelledByCall (binding : String)
  /-- Tuple patterns get no type. -/
  | tuplePattern (line column : Int)
  | untypedBinding (name : String) (point : Dump.Point)
  | unrecordedCall (callee : String) (point : Dump.Point)
  | notConstructor (callee : String) (point : Dump.Point)
  | untypedClosure (point : Dump.Point)
  | notFunction (type : String) (point : Dump.Point)
  | parameterMismatch (point : Dump.Point) (count : Nat) (type : String)
  /-- Edits are about to be applied. -/
  | applying (count : Nat) (fileName : String)
  /-- Edits have been planned and applied. -/
  | planned (count : Nat) (fileName : String)
deriving DecidableEq

namespace Event

/-- The level of an event. -/
def level : Event → Level
  | .parsedDump .. | .dumping _ | .applying .. | .planned .. => .info
  | .syntaxErrors _ => .warning
  | _ => .debug

/-- The wording of an event. -/
def message : Event → String
  | .parsedDump root characters =>
    "Parsed AST dump rooted at " ++ root ++ " (" ++ toString characters ++ " characters)"
  | .dumping command => "Dumping AST: " ++ String.intercalate " " command
  | .syntaxErrors fileName =>
    "Syntax errors in " ++ fileName ++ "; constructs near them may be skipped"
  | .unreadableType text failure =>
    "Cannot parse type " ++ Text.quoted text ++ ": " ++ failure.message
  | .spelledByCall binding => "Binding " ++ binding ++ " already spelled by its constructor call"
  | .tuplePattern line column =>
    "Tuple pattern at " ++ toString line ++ ":" ++ toString column ++ " is not supported"
  | .untypedBinding name point => "No recorded type for binding " ++ name ++ " at " ++ point.text
  | .unrecordedCall callee point =>
    "No recorded node for call to " ++ callee ++ " at " ++ point.text
  | .notConstructor callee point =>
    "Call to " ++ callee ++ " at " ++ point.text ++ " is not a constructor call"
  | .untypedClosure point => "No recorded type for closure at " ++ point.text
  | .notFunction type point =>
    "Recorded closure type " ++ Text.quoted type ++ " at " ++ point.text ++
      " is not a function type"
  | .parameterMismatch point count type =>
    "Closure at " ++ point.text ++ " has " ++ toString count ++ " parameter(s), type " ++
      Text.quoted type ++ " does not match"
  | .applying count fileName =>
    "Applying " ++ toString count ++ " annotation edit(s) to " ++ fileName
  | .planned count fileName =>
    "Planned " ++ toString count ++ " annotation edit(s) for " ++ fileName

/-- The event as a line of the log. -/
def line (event : Event) : String := event.level.name ++ " " ++ event.message

/-- The command that the event announces. -/
def command? : Event → Option (List String)
  | .dumping command => some command
  | _ => none

end Event

/-- An outcome together with the events on the way to it. -/
structure Logged (α : Type) where
  log : List Event
  outcome : Except Fault α

namespace Logged

variable {α β : Type}

/-- An outcome without events. -/
protected def pure (value : α) : Logged α := ⟨[], .ok value⟩

/-- Goes on with the value; a fault ends the computation and keeps the events. -/
protected def bind (x : Logged α) (f : α → Logged β) : Logged β :=
  match x.outcome with
  | .error fault => ⟨x.log, .error fault⟩
  | .ok value =>
    let y := f value
    ⟨x.log ++ y.log, y.outcome⟩

instance : Monad Logged where
  pure := Logged.pure
  bind := Logged.bind

/-- Reports an event. -/
def note (event : Event) : Logged Unit := ⟨[event], .ok ()⟩

/-- Ends in a fault. -/
def fail (fault : Fault) : Logged α := ⟨[], .error fault⟩

/-- An outcome that reports nothing. -/
def ofExcept (outcome : Except Fault α) : Logged α := ⟨[], outcome⟩

/-- The commands that were run. -/
def commands (x : Logged α) : List (List String) := x.log.filterMap Event.command?

end Logged

end TypeScribe
