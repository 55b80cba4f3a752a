import TypeScribe.Proofs.Parser.Accepts
import TypeScribe.Proofs.Parser.Built

/-!
# Parsers do not look back

A parser of the library does not depend on what stands before the place at which it starts. Moved
along by `n` characters, it gives the same answer, with every offset in it moved by `n`
(`Built.relocates`), so a text that is read in the middle of another is read as it would be alone:
`runAt_append`. Offsets are counted, compared with one another and subtracted from one another, and
never compared with a fixed number.
-/

namespace TypeScribe

/-! ## Moving along -/

/-- The cursor with `n` more characters before it. -/
def Cursor.shift (n : Nat) (c : Cursor) : Cursor := { c with offset := n + c.offset }

/-- The failure with `n` more characters before it. -/
def Failure.shift (n : Nat) (failure : Failure) : Failure :=
  { failure with offset := n + failure.offset }

/-- The reply with `n` more characters before the text. -/
def Reply.shift {α : Type} (n : Nat) : Reply α → Reply α
  | .ok value next => .ok value (next.shift n)
  | .failed failure => .failed (failure.shift n)
  | .stopped stop => .stopped stop

namespace Cursor

theorem shift_rest (n : Nat) (c : Cursor) : (c.shift n).rest = c.rest := rfl

theorem shift_advance (n : Nat) (c : Cursor) (k : Nat) (rest : List Char) :
    (c.shift n).advance k rest = (c.advance k rest).shift n := by
  simp only [shift, advance, Nat.add_assoc]

/-- A literal stands at a place wherever the text starts. -/
theorem shift_after? (n : Nat) (c : Cursor) (literal : List Char) :
    (c.shift n).after? literal = (c.after? literal).map (shift n) := by
  unfold after?
  cases hpast : c.pastEnd with
  | true => simp [shift, hpast]
  | false =>
    simp only [shift, hpast, Bool.false_eq_true, if_false, Option.map_map]
    congr 1
    funext rest
    simp [shift, Nat.add_assoc]

/-- The text between two places does not depend on what stands before them. -/
theorem shift_upTo (n : Nat) (c later : Cursor) :
    (c.shift n).upTo (later.shift n) = c.upTo later := by
  simp only [upTo, shift, Nat.add_sub_add_left]

/-- A place in the second of two texts. -/
theorem within_append (before text : List Char) (offset : Nat) :
    within (before ++ text) (before.length + offset) =
      (within text offset).shift before.length := by
  simp only [within, shift, List.length_append, List.drop_length_add_append,
    Nat.add_lt_add_iff_left]

end Cursor

/-- The furthest of two failures stays so when both are shifted. -/
theorem Failure.shift_furthest (n : Nat) (left right : Failure) :
    (left.shift n).furthest (right.shift n) = (left.furthest right).shift n := by
  unfold Failure.furthest
  simp only [shift, gt_iff_lt, Nat.add_lt_add_iff_left]
  split <;> rfl

theorem Reply.shift_map {α β : Type} (n : Nat) (f : α → β) (reply : Reply α) :
    (reply.shift n).map f = (reply.map f).shift n := by
  cases reply <;> rfl

/-! ## Parsers that move along with the text -/

namespace Parser

variable {α β : Type}

/-- With more characters before the text, the parser gives the same answer further on. -/
def Relocates (p : Parser α) : Prop := ∀ (n : Nat) (c : Cursor), p (c.shift n) = (p c).shift n

/-- One character is read alike at every place. -/
theorem relocates_satisfy (predicate : Char → Bool) (expected : String) :
    Relocates (satisfy predicate expected) := by
  intro n c
  unfold satisfy
  rw [Cursor.shift_rest]
  cases c.rest with
  | nil => rfl
  | cons x rest =>
    dsimp only
    split
    · rw [Cursor.shift_advance]
      rfl
    · rfl

/-- So is a run that must not be empty. -/
theorem relocates_takeWhile1 (predicate : Char → Bool) (expected : String) :
    Relocates (takeWhile1 predicate expected) := by
  intro n c
  unfold takeWhile1
  rw [Cursor.shift_rest]
  split
  · rfl
  · rw [Cursor.shift_advance]
    rfl

/-- So is a literal. -/
theorem relocates_token (literal : String) : Relocates (token literal) := by
  intro n c
  unfold token
  rw [Cursor.shift_after?]
  cases c.after? literal.toList <;> rfl

/-- So is a quoted text. -/
theorem relocates_quoted (quote : Char) (escapes : Bool) : Relocates (quoted quote escapes) := by
  intro n c
  unfold quoted
  rw [Cursor.shift_rest]
  cases c.rest with
  | nil => rfl
  | cons x rest =>
    dsimp only
    split
    · cases splitAtQuote quote escapes rest with
      | none => rfl
      | some found =>
        dsimp only
        rw [Cursor.shift_advance]
        rfl
    · rfl

/-- So is the end of the text. -/
theorem relocates_endOfInput : Relocates endOfInput := by
  intro n c
  have hend : (c.shift n).atEnd = c.atEnd := rfl
  unfold endOfInput
  rw [hend]
  split <;> rfl

/-- The scan for a closing sign does not depend on where it starts. -/
theorem closeBalancedFrom_shift (n : Nat) (closing : Char) (offset depth : Nat)
    (chars : List Char) :
    Dump.Grammar.closeBalancedFrom closing (n + offset) depth chars =
      (Dump.Grammar.closeBalancedFrom closing offset depth chars).shift n := by
  induction chars generalizing offset depth with
  | nil => rfl
  | cons x rest ih =>
    rw [Dump.Grammar.closeBalancedFrom.eq_def, Dump.Grammar.closeBalancedFrom.eq_def _ offset]
    dsimp only
    rw [Nat.add_assoc]
    split
    · rfl
    split
    · exact ih _ _
    split
    · cases depth with
      | zero => rfl
      | succ depth => exact ih _ _
    · exact ih _ _

/-- One parser after another can be moved if both can. -/
theorem Relocates.bind {p : Parser α} {f : α → Parser β} (hp : Relocates p)
    (hf : ∀ value, Relocates (f value)) : Relocates (p >>= f) := by
  intro n c
  show Parser.bind p f (c.shift n) = (Parser.bind p f c).shift n
  unfold Parser.bind
  rw [hp]
  cases p c with
  | ok value next => exact hf value n next
  | failed failure => rfl
  | stopped stop => rfl

/-- Alternatives can be moved if both can. -/
theorem Relocates.orElse {p q : Parser α} (hp : Relocates p) (hq : Relocates q) :
    Relocates (p <|> q) := by
  intro n c
  show Parser.orElse p q (c.shift n) = (Parser.orElse p q c).shift n
  unfold Parser.orElse
  rw [hp, hq]
  cases p c with
  | ok value next => rfl
  | failed left =>
    cases q c with
    | ok value next => rfl
    | failed right => exact congrArg Reply.failed (Failure.shift_furthest n left right)
    | stopped stop => rfl
  | stopped stop => rfl

/-- A choice can be moved together with the failure that was seen before. -/
theorem choiceAfter_shift {parsers : List (Parser α)} (h : ∀ p ∈ parsers, Relocates p) (n : Nat)
    (failure : Failure) (c : Cursor) :
    choiceAfter (failure.shift n) parsers (c.shift n) =
      (choiceAfter failure parsers c).shift n := by
  induction parsers generalizing failure with
  | nil => rfl
  | cons p rest ih =>
    obtain ⟨hp, hrest⟩ := List.forall_mem_cons.1 h
    rw [choiceAfter, choiceAfter, hp]
    cases p c with
    | ok value next => rfl
    | failed next =>
      show choiceAfter ((failure.shift n).furthest (next.shift n)) rest (c.shift n) = _
      rw [Failure.shift_furthest]
      exact ih hrest _
    | stopped stop => rfl

/-- A choice can be moved if all of its parsers can. -/
theorem Relocates.choice {parsers : List (Parser α)} (h : ∀ p ∈ parsers, Relocates p) :
    Relocates (choice parsers) := by
  intro n c
  cases parsers with
  | nil => rfl
  | cons p rest =>
    obtain ⟨hp, hrest⟩ := List.forall_mem_cons.1 h
    rw [Parser.choice, Parser.choice, hp]
    cases p c with
    | ok value next => rfl
    | failed failure => exact choiceAfter_shift hrest n failure c
    | stopped stop => rfl

/-- A repetition takes the same steps: whether one of them moved is seen from two offsets that are
moved alike. -/
theorem Relocates.many {p : Parser α} (hp : Relocates p) : Relocates (many p) := by
  suffices hwithin : ∀ (budget : List Char) (n : Nat) (c : Cursor),
      manyWithin p budget (c.shift n) = (manyWithin p budget c).shift n from
    fun n c => hwithin c.rest n c
  intro budget
  induction budget with
  | nil =>
    intro n c
    rw [manyWithin, manyWithin, hp]
    cases p c with
    | ok value next =>
      simp only [Reply.shift, Cursor.shift, Nat.add_left_cancel_iff]
      split <;> rfl
    | failed failure => rfl
    | stopped stop => rfl
  | cons x budget ih =>
    intro n c
    rw [manyWithin, manyWithin, hp]
    cases p c with
    | ok value next =>
      have hmoved : (next.shift n).offset = (c.shift n).offset ↔ next.offset = c.offset :=
        Nat.add_left_cancel_iff
      show (if (next.shift n).offset = (c.shift n).offset then _ else _) = _
      simp only [hmoved, ih, Reply.shift_map]
      split <;> rfl
    | failed failure => rfl
    | stopped stop => rfl

/-- A slice can be moved if its parser can. -/
theorem Relocates.slice {p : Parser α} (hp : Relocates p) : Relocates (slice p) := by
  intro n c
  unfold Parser.slice
  rw [hp]
  cases p c with
  | ok value next =>
    show Reply.ok (String.ofList ((c.shift n).upTo (next.shift n))) (next.shift n) = _
    rw [Cursor.shift_upTo]
    rfl
  | failed failure => rfl
  | stopped stop => rfl

/-- A checked parser can be moved if its parser can. -/
theorem Relocates.checked {p : Parser α} (hp : Relocates p) (test : α → Bool)
    (expected : String) : Relocates (checked p test expected) := by
  intro n c
  unfold Parser.checked
  rw [hp]
  cases p c with
  | ok value next =>
    show (if test value then Reply.ok value (next.shift n) else _) = _
    dsimp only
    split <;> rfl
  | failed failure => rfl
  | stopped stop => rfl

theorem relocates_number : Relocates number := by
  refine (relocates_takeWhile1 Char.isDigit "number").bind fun digits => ?_
  split <;> exact fun _ _ => rfl

/-- Every parser of the library moves along with the text. -/
theorem Built.relocates {p : Parser α} (h : Built p) : Relocates p := by
  induction h with
  | pure value => exact fun _ _ => rfl
  | fail expected => exact fun _ _ => rfl
  | satisfy predicate expected => exact relocates_satisfy predicate expected
  | takeWhile predicate => exact fun n c => congrArg (Reply.ok _) (c.shift_advance n _ _)
  | takeWhile1 predicate expected => exact relocates_takeWhile1 predicate expected
  | skipSpaces => exact fun n c => congrArg (Reply.ok _) (c.shift_advance n _ _)
  | token literal => exact relocates_token literal
  | number => exact relocates_number
  | quoted quote escapes => exact relocates_quoted quote escapes
  | endOfInput => exact relocates_endOfInput
  | closeBalanced closing => exact fun n c => closeBalancedFrom_shift n closing c.offset 0 c.rest
  | bind _ _ ihp ihf => exact ihp.bind ihf
  | orElse _ _ ihp ihq => exact ihp.orElse ihq
  | choice _ ih => exact .choice ih
  | many _ ih => exact ih.many
  | slice _ ih => exact ih.slice
  | checked test expected _ ih => exact ih.checked test expected
  | stop => exact fun _ _ => rfl

end Parser

open TypeScribe.Parser

/-- Parsing does not depend on what precedes the start. On a text behind another one, a parser of
the library or a rule of the grammars gives the answer that it gives on the text alone: the same
value or the same expectation, and the same text left over, with the offset of the end or of the
failure moved by the length of what precedes. -/
theorem runAt_append {α : Type} (p : Parser α) (h : Built p ∨ IsRule p) (before text : String)
    (offset : Nat) :
    p.runAt (before ++ text) (before.length + offset) =
      (p.runAt text offset).shift before.length := by
  have hbuilt : Built p := h.elim id IsRule.built
  rw [runAt, runAt, String.toList_append, ← String.length_toList, Cursor.within_append]
  exact hbuilt.relocates _ _

/-- A node inside another one is read as it is read alone. -/
theorem runAt_append_inner :
    letI := CallStack.uniform 2
    ∃ raw next, Dump.Grammar.node.runAt "(b 'c')" 0 = .ok raw next ∧
      Dump.Grammar.node.runAt ("(a " ++ "(b 'c')") ("(a ".length + 0) =
        .ok raw (next.shift "(a ".length) := by
  let _ := CallStack.uniform 2
  have hconsumes : Dump.Grammar.node.consumes "(b 'c')" = true := by decide +kernel
  obtain ⟨raw, next, hok, -⟩ := exists_of_consumes hconsumes
  have halone : Dump.Grammar.node.runAt "(b 'c')" 0 = .ok raw next := by
    rw [runAt, Cursor.within_zero]
    exact hok
  have hmoved := runAt_append Dump.Grammar.node (.inr (.node 2)) "(a " "(b 'c')" 0
  rw [halone] at hmoved
  exact ⟨raw, next, halone, hmoved⟩

end TypeScribe
