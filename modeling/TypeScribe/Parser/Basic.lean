/-!
# Parsers

A parser reads characters from a `Cursor` and answers with a `Reply`: a value and the cursor after
it, a `Failure` that says what was expected where, or the reason why the run was stopped.
Alternation is first-match: the second parser runs only after the first has failed, from the same
cursor, so the order of the alternatives alone settles an ambiguity. When all alternatives fail, the
failure that got furthest is reported, and among those the last one.

A failure may be recovered from; a `Stop` may not, it ends the whole run.
-/

namespace TypeScribe

/-- A place in a text: the number of characters before it, and the characters from there on. A place
past the end of the text has no characters left, and not even the empty text is found there. -/
structure Cursor where
  offset : Nat
  rest : List Char
  pastEnd : Bool

namespace Cursor

/-- The start of a text. -/
def start (text : List Char) : Cursor := ⟨0, text, false⟩

/-- The place after the first `offset` characters of a text. -/
def within (text : List Char) (offset : Nat) : Cursor :=
  ⟨offset, text.drop offset, text.length < offset⟩

/-- The place after the literal, if the text goes on with it. -/
def after? (c : Cursor) (literal : List Char) : Option Cursor :=
  if c.pastEnd then none
  else (literal.isPrefixOf? c.rest).map fun rest => ⟨c.offset + literal.length, rest, false⟩

/-- The place after `n` characters, which leave `rest`. -/
def advance (c : Cursor) (n : Nat) (rest : List Char) : Cursor := ⟨c.offset + n, rest, c.pastEnd⟩

/-- Is this exactly the end of the text? -/
def atEnd (c : Cursor) : Bool := c.rest.isEmpty && !c.pastEnd

/-- The text between this place and a later one. -/
def upTo (c later : Cursor) : List Char := c.rest.take (later.offset - c.offset)

theorem within_zero (text : List Char) : within text 0 = start text := by
  simp [within, start]

end Cursor

/-- What a parser expected, and where. -/
structure Failure where
  offset : Nat
  expected : String
deriving DecidableEq

namespace Failure

/-- The wording of a failure. -/
def message (failure : Failure) : String :=
  "expected " ++ failure.expected ++ " at offset " ++ toString failure.offset

/-- Of two failures the one that got further; of two equally far ones the second. -/
def furthest (left right : Failure) : Failure := if left.offset > right.offset then left else right

end Failure

/-- Why a run is stopped, whatever the text may be. -/
inductive Stop where
  /-- The text nests deeper than the parser follows. -/
  | tooDeep
  /-- A run of digits is no numeral. -/
  | notANumeral (digits : String)
deriving DecidableEq

/-- The answer of a parser. -/
inductive Reply (α : Type) where
  /-- A value was read; the text goes on at `next`. -/
  | ok (value : α) (next : Cursor)
  /-- The text does not fit. -/
  | failed (failure : Failure)
  /-- The run was stopped. -/
  | stopped (stop : Stop)

/-- The reply with another value in it. -/
def Reply.map {α β : Type} (f : α → β) : Reply α → Reply β
  | .ok value next => .ok (f value) next
  | .failed failure => .failed failure
  | .stopped stop => .stopped stop

/-- A parser of values of type `α`. -/
def Parser (α : Type) : Type := Cursor → Reply α

namespace Parser

variable {α β : Type}

/-- Runs a parser on a text after its first `offset` characters. -/
def runAt (p : Parser α) (text : String) (offset : Nat) : Reply α :=
  p (.within text.toList offset)

/-- Reads nothing and answers `value`. -/
protected def pure (value : α) : Parser α := fun c => .ok value c

/-- Reads with `p`, then with the parser that its value selects. -/
protected def bind (p : Parser α) (f : α → Parser β) : Parser β := fun c =>
  match p c with
  | .ok value next => f value next
  | .failed failure => .failed failure
  | .stopped stop => .stopped stop

instance : Monad Parser where
  pure := Parser.pure
  bind := Parser.bind

/-- Reads nothing and fails. -/
def fail (expected : String) : Parser α := fun c => .failed ⟨c.offset, expected⟩

/-- Stops the run. -/
def stop (reason : Stop) : Parser α := fun _ => .stopped reason

/-- Reads with `p`; if that fails, reads with `q` from the same place. -/
protected def orElse (p q : Parser α) : Parser α := fun c =>
  match p c with
  | .failed left =>
    match q c with
    | .failed right => .failed (left.furthest right)
    | reply => reply
  | reply => reply

instance : OrElse (Parser α) where
  orElse p q := Parser.orElse p (q ())

/-- Tries the parsers in turn, after the failure of those before them. -/
def choiceAfter (failure : Failure) : List (Parser α) → Parser α
  | [], _ => .failed failure
  | p :: rest, c =>
    match p c with
    | .failed next => choiceAfter (failure.furthest next) rest c
    | reply => reply

/-- The answer of the first parser that succeeds. Of no parsers at all, nothing is expected. -/
def choice : List (Parser α) → Parser α
  | [], c => .failed ⟨c.offset, ""⟩
  | p :: rest, c =>
    match p c with
    | .failed failure => choiceAfter failure rest c
    | reply => reply

/-- Reads with `p` over and over, until it fails or reads nothing; the value of a step that read
nothing is kept. The budget bounds the number of steps: each one that reads takes at least one
character, so the characters that are left suffice. -/
def manyWithin (p : Parser α) : List Char → Parser (List α)
  | budget, c =>
    match p c with
    | .failed _ => .ok [] c
    | .stopped stop => .stopped stop
    | .ok value next =>
      if next.offset = c.offset then .ok [value] c
      else
        match budget with
        | [] => .ok [value] next
        | _ :: budget => (manyWithin p budget next).map (value :: ·)

/-- Reads with `p` as often as it succeeds. -/
def many (p : Parser α) : Parser (List α) := fun c => manyWithin p c.rest c

/-- Reads with `p` at least once. -/
def many1 (p : Parser α) : Parser (List α) := do
  let first ← p
  let rest ← p.many
  return first :: rest

/-- Reads with `p`, or nothing. -/
def option (default : α) (p : Parser α) : Parser α := p <|> pure default

/-- Reads with `p` if it succeeds. -/
def option? (p : Parser α) : Parser (Option α) := some <$> p <|> pure none

/-- The text that `p` reads, in place of its value. -/
def slice (p : Parser α) : Parser String := fun c =>
  match p c with
  | .ok _ next => .ok (String.ofList (c.upTo next)) next
  | .failed failure => .failed failure
  | .stopped stop => .stopped stop

/-! ## How the parts run -/

/-- A function of the value applies to the reply. -/
theorem map_apply (f : α → β) (p : Parser α) (c : Cursor) : (f <$> p) c = (p c).map f := by
  show Parser.bind p (fun value => Parser.pure (f value)) c = (p c).map f
  unfold Parser.bind
  cases p c <;> rfl

/-- Behind a success the next parser runs. -/
theorem bind_of_ok {p : Parser α} {f : α → Parser β} {c next : Cursor} {value : α}
    (h : p c = .ok value next) : (p >>= f) c = f value next := by
  show Parser.bind p f c = f value next
  rw [Parser.bind, h]

/-- A failure ends a chain of parsers. -/
theorem bind_of_failed {p : Parser α} {f : α → Parser β} {c : Cursor} {failure : Failure}
    (h : p c = .failed failure) : (p >>= f) c = .failed failure := by
  show Parser.bind p f c = .failed failure
  rw [Parser.bind, h]

/-- So does a stop. -/
theorem bind_of_stopped {p : Parser α} {f : α → Parser β} {c : Cursor} {stop : Stop}
    (h : p c = .stopped stop) : (p >>= f) c = .stopped stop := by
  show Parser.bind p f c = .stopped stop
  rw [Parser.bind, h]

/-- A first alternative that succeeds is taken. -/
theorem orElse_of_ok {p q : Parser α} {c next : Cursor} {value : α} (h : p c = .ok value next) :
    (p <|> q) c = .ok value next := by
  show Parser.orElse p q c = .ok value next
  rw [Parser.orElse, h]

/-- A first alternative that is stopped leaves no second one. -/
theorem orElse_of_stopped {p q : Parser α} {c : Cursor} {stop : Stop} (h : p c = .stopped stop) :
    (p <|> q) c = .stopped stop := by
  show Parser.orElse p q c = .stopped stop
  rw [Parser.orElse, h]

end Parser

end TypeScribe
