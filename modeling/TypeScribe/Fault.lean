import TypeScribe.Dump.Grammar
import TypeScribe.Source.Edit
import TypeScribe.Text.Digit
import TypeScribe.Text.ShellWords

/-!
# Faults

Everything that can stop the library, by cause, with the wording of each cause in one place.
-/

namespace TypeScribe

/-- What a missing file was wanted for. -/
inductive FileRole where
  | source
  | dump
deriving DecidableEq

/-- Why the compiler gave no dump. -/
inductive CompilerFault where
  | notFound (compiler : String)
  | exited (compiler : String) (status : Int) (errors : String)
deriving DecidableEq

/-- The wording of each reason. -/
def CompilerFault.message : CompilerFault → String
  | .notFound compiler => "Compiler not found: " ++ compiler
  | .exited compiler status _ => compiler ++ " exited with status " ++ toString status

/-- A reason to stop. -/
inductive Fault where
  /-- The text is not a dump. -/
  | malformedDump (reason : Dump.Malformed)
  /-- The compiler gave no dump. -/
  | compiler (reason : CompilerFault)
  /-- The system does not run the compiler. -/
  | notRun (reason : String)
  /-- There is no such file. -/
  | missingFile (role : FileRole) (path : String)
  /-- The path leads to a directory. -/
  | isDirectory (path : String)
  /-- The edits cannot be applied. -/
  | edits (reason : EditError)
  /-- Bytes that should be text are not. -/
  | notUtf8
  /-- A closure parameter has a type but no name. -/
  | namelessParameter
  /-- A closure's signature starts but does not end. -/
  | openSignature
  /-- The compiler's arguments cannot be split. -/
  | arguments (reason : Text.ShellWordsError)
  /-- Digits that are no numeral stand for a number. -/
  | notANumeral (text : String)
  /-- The call stack has no room for what is nested. -/
  | tooDeep
deriving DecidableEq

namespace Fault

/-- Why no dump was read. -/
def ofUnread : Dump.Unread → Fault
  | .malformed reason => .malformedDump reason
  | .notANumeral digits => .notANumeral digits

/-- Why reading was stopped. -/
def ofStop : Stop → Fault
  | .tooDeep => .tooDeep
  | .notANumeral digits => .notANumeral digits

/-- The wording for digits that are no numeral: there are too many of them, or one of them is not
decimal. -/
def numeralMessage (text : String) : String :=
  if Text.longestNumeral < text.length then
    "Exceeds the limit (" ++ toString Text.longestNumeral ++
      " digits) for integer string conversion: value has " ++ toString text.length ++
      " digits; use sys.set_int_max_str_digits() to increase the limit"
  else "invalid literal for int() with base 10: " ++ Text.quoted text

/-- The wording of each cause. -/
def message : Fault → String
  | .malformedDump reason => reason.message
  | .compiler reason => reason.message
  | .notRun reason => reason
  | .missingFile .source path => "File not found: " ++ path
  | .missingFile .dump path => "Dump file not found: " ++ path
  | .isDirectory path => "[Errno 21] Is a directory: " ++ Text.quoted path
  | .edits reason => reason.message
  | .notUtf8 => "invalid UTF-8"
  | .namelessParameter => "list index out of range"
  | .openSignature => ""
  | .arguments reason => reason.message
  | .notANumeral text => numeralMessage text
  | .tooDeep => "maximum recursion depth exceeded"

end Fault

end TypeScribe
