import TypeScribe.Proofs.Parser.Bounds

/-!
# Alternation

Parsers are tried in turn in two ways: two by two with `<|>`, and all at once with `choice`. The one
compares failures on the way back from the alternatives, the other carries the furthest failure so
far along. They give the same answers, however the alternatives are bracketed (`choice_eq_joined`),
since `<|>` is associative (`orElse_assoc`) and `choice` is made of it (`choice_cons`). Both rest on
`Failure.furthest` being associative. It is not symmetric, so of several failures the last of those
that got furthest is reported (`choice_eq_failed_iff`).
-/

namespace TypeScribe

/-! ## The furthest of several failures -/

namespace Failure

/-- The furthest of three failures does not depend on how they are compared. -/
theorem furthest_assoc (a b c : Failure) :
    (a.furthest b).furthest c = a.furthest (b.furthest c) := by
  unfold furthest
  grind

/-- The failure got furthest of all, and of several such ones it is the last. -/
def IsLastFurthest (failures : List Failure) (failure : Failure) : Prop :=
  ∃ before after, failures = before ++ failure :: after ∧
    (∀ other ∈ before, other.offset ≤ failure.offset) ∧
    ∀ other ∈ after, other.offset < failure.offset

theorem isLastFurthest_singleton (failure : Failure) : IsLastFurthest [failure] failure :=
  ⟨[], [], rfl, by simp, by simp⟩

/-- One more failure in front is compared with the one that got furthest so far. -/
theorem IsLastFurthest.cons {failures : List Failure} {failure : Failure}
    (h : IsLastFurthest failures failure) (first : Failure) :
    IsLastFurthest (first :: failures) (first.furthest failure) := by
  obtain ⟨before, after, rfl, hbefore, hafter⟩ := h
  unfold furthest
  split
  · next hlt =>
    refine ⟨[], before ++ failure :: after, rfl, by simp, fun other hother => ?_⟩
    rcases List.mem_append.1 hother with hother | hother
    · exact (hbefore other hother).trans_lt hlt
    · rcases List.mem_cons.1 hother with rfl | hother
      · exact hlt
      · exact (hafter other hother).trans hlt
  · next hle =>
    refine ⟨first :: before, after, rfl, fun other hother => ?_, hafter⟩
    rcases List.mem_cons.1 hother with rfl | hother
    · exact Nat.not_lt.1 hle
    · exact hbefore other hother

/-- There is one last furthest failure. -/
theorem IsLastFurthest.unique {failures : List Failure} {a b : Failure}
    (h : IsLastFurthest failures a) (h' : IsLastFurthest failures b) : a = b := by
  obtain ⟨before, after, rfl, hbefore, hafter⟩ := h
  obtain ⟨before', after', heq, hbefore', hafter'⟩ := h'
  -- of two different ones, the second would have to be further than the first, and no further
  rcases List.append_eq_append_iff.1 heq with ⟨mid, rfl, hmid⟩ | ⟨mid, rfl, hmid⟩
  · cases mid with
    | nil => exact (List.cons.inj hmid).1
    | cons x mid =>
      obtain ⟨rfl, rfl⟩ := List.cons.inj hmid
      have hle := hbefore' a (by simp)
      have hlt := hafter b (by simp)
      omega
  · cases mid with
    | nil => exact (List.cons.inj hmid).1.symm
    | cons x mid =>
      obtain ⟨rfl, rfl⟩ := List.cons.inj hmid
      have hle := hbefore b (by simp)
      have hlt := hafter' a (by simp)
      omega

end Failure

/-- The reply of an alternative that is tried after a failure. -/
def Reply.after {α : Type} (failure : Failure) : Reply α → Reply α
  | .ok value next => .ok value next
  | .failed next => .failed (failure.furthest next)
  | .stopped stop => .stopped stop

namespace Parser

variable {α : Type}

/-! ## Two alternatives at a time -/

/-- A failure of the first alternative is kept for the second. -/
theorem orElse_of_failed {p q : Parser α} {c : Cursor} {failure : Failure}
    (h : p c = .failed failure) : (p <|> q) c = (q c).after failure := by
  show Parser.orElse p q c = _
  rw [Parser.orElse, h]
  cases q c <;> rfl

/-- Alternatives may be grouped in any way. -/
theorem orElse_assoc (p q r : Parser α) : ((p <|> q) <|> r) = (p <|> (q <|> r)) := by
  funext c
  cases hp : p c with
  | ok value next => rw [orElse_of_ok hp, orElse_of_ok (orElse_of_ok hp)]
  | stopped stop => rw [orElse_of_stopped hp, orElse_of_stopped (orElse_of_stopped hp)]
  | failed left =>
    have hpq : (p <|> q) c = (q c).after left := orElse_of_failed hp
    rw [orElse_of_failed hp]
    cases hq : q c with
    | ok value next =>
      rw [hq] at hpq
      rw [orElse_of_ok hpq, orElse_of_ok hq, Reply.after]
    | stopped stop =>
      rw [hq] at hpq
      rw [orElse_of_stopped hpq, orElse_of_stopped hq, Reply.after]
    | failed mid =>
      rw [hq] at hpq
      rw [orElse_of_failed hpq, orElse_of_failed hq]
      cases r c with
      | ok value next => rfl
      | stopped stop => rfl
      | failed right => rw [Reply.after, Reply.after, Reply.after, Failure.furthest_assoc]

/-- An alternative fails exactly when both its parts do, with the further one of their failures. -/
theorem orElse_eq_failed_iff {p q : Parser α} {c : Cursor} {failure : Failure} :
    (p <|> q) c = .failed failure ↔
      ∃ left right, p c = .failed left ∧ q c = .failed right ∧ failure = left.furthest right := by
  refine ⟨orElse_eq_failed, ?_⟩
  rintro ⟨left, right, hp, hq, rfl⟩
  rw [orElse_of_failed hp, hq, Reply.after]

/-! ## All alternatives at once -/

/-- A failure that came before is compared with the outcome once the others have been tried. -/
theorem choiceAfter_furthest (first next : Failure) (parsers : List (Parser α)) (c : Cursor) :
    choiceAfter (first.furthest next) parsers c = (choiceAfter next parsers c).after first := by
  induction parsers generalizing next with
  | nil => rfl
  | cons p rest ih =>
    rw [choiceAfter, choiceAfter]
    cases p c with
    | ok value mid => rfl
    | stopped stop => rfl
    | failed failure =>
      dsimp only
      rw [Failure.furthest_assoc, ih]

/-- A choice of one parser is that parser. -/
theorem choice_singleton (p : Parser α) : choice [p] = p := by
  funext c
  rw [choice]
  cases p c <;> rfl

/-- A choice is its first parser or the choice of the others. -/
theorem choice_cons (p : Parser α) {rest : List (Parser α)} (hne : rest ≠ []) :
    choice (p :: rest) = (p <|> choice rest) := by
  obtain ⟨q, rest, rfl⟩ := List.exists_cons_of_ne_nil hne
  funext c
  rw [choice]
  cases hp : p c with
  | ok value next => rw [orElse_of_ok hp]
  | stopped stop => rw [orElse_of_stopped hp]
  | failed left =>
    rw [orElse_of_failed hp, choice]
    dsimp only
    rw [choiceAfter]
    cases q c with
    | ok value next => rfl
    | stopped stop => rfl
    | failed mid => exact choiceAfter_furthest left mid rest c

/-- A choice of two lists is the choice of the one or that of the other. -/
theorem choice_append {ps qs : List (Parser α)} (hps : ps ≠ []) (hqs : qs ≠ []) :
    choice (ps ++ qs) = (choice ps <|> choice qs) := by
  induction ps with
  | nil => exact absurd rfl hps
  | cons p ps ih =>
    cases ps with
    | nil => rw [List.singleton_append, choice_cons p hqs, choice_singleton]
    | cons q ps =>
      rw [List.cons_append, choice_cons p (by simp), ih (by simp), choice_cons p (by simp),
        orElse_assoc]

/-- The parsers fail at the cursor, one by one with these failures. -/
def FailWith (parsers : List (Parser α)) (c : Cursor) (failures : List Failure) : Prop :=
  List.Forall₂ (fun p failure => p c = .failed failure) parsers failures

/-- Parsers that fail do so in one way. -/
theorem FailWith.unique {parsers : List (Parser α)} {c : Cursor} {failures failures' : List Failure}
    (h : FailWith parsers c failures) (h' : FailWith parsers c failures') :
    failures = failures' := by
  induction h generalizing failures' with
  | nil =>
    cases h'
    rfl
  | cons hp _ ih =>
    cases h' with
    | cons hp' hrest =>
      cases hp.symm.trans hp'
      rw [ih hrest]

/-- A choice that fails has tried all its parsers. -/
theorem exists_failWith {parsers : List (Parser α)} (hne : parsers ≠ []) {c : Cursor}
    {failure : Failure} (h : choice parsers c = .failed failure) :
    ∃ failures, FailWith parsers c failures ∧ failure.IsLastFurthest failures := by
  induction parsers generalizing failure with
  | nil => exact absurd rfl hne
  | cons p rest ih =>
    cases rest with
    | nil =>
      rw [choice_singleton] at h
      exact ⟨[failure], .cons h .nil, failure.isLastFurthest_singleton⟩
    | cons q rest =>
      rw [choice_cons p (by simp), orElse_eq_failed_iff] at h
      obtain ⟨left, right, hleft, hright, rfl⟩ := h
      obtain ⟨failures, hrest, hlast⟩ := ih (by simp) hright
      exact ⟨left :: failures, .cons hleft hrest, hlast.cons left⟩

/-- A choice fails if all of its parsers do. -/
theorem exists_choice_eq_failed {parsers : List (Parser α)} {c : Cursor} {failures : List Failure}
    (h : FailWith parsers c failures) : ∃ failure, choice parsers c = .failed failure := by
  induction h with
  | nil => exact ⟨_, rfl⟩
  | @cons p left rest failures hp hrest ih =>
    cases rest with
    | nil => exact ⟨left, by rw [choice_singleton, hp]⟩
    | cons q rest =>
      obtain ⟨right, hright⟩ := ih
      exact ⟨left.furthest right, by rw [choice_cons p (by simp), orElse_of_failed hp, hright,
        Reply.after]⟩

/-- A choice fails exactly when all its parsers do, with the last of the furthest failures. -/
theorem choice_eq_failed_iff {parsers : List (Parser α)} (hne : parsers ≠ []) {c : Cursor}
    {failure : Failure} :
    choice parsers c = .failed failure ↔
      ∃ failures, FailWith parsers c failures ∧ failure.IsLastFurthest failures := by
  refine ⟨exists_failWith hne, ?_⟩
  rintro ⟨failures, hfail, hlast⟩
  obtain ⟨failure', hfailed⟩ := exists_choice_eq_failed hfail
  obtain ⟨failures', hfail', hlast'⟩ := exists_failWith hne hfailed
  obtain rfl := hfail.unique hfail'
  rwa [hlast.unique hlast']

/-! ## Brackets -/

/-- Parsers joined two at a time, in some order. -/
inductive Bracketing (α : Type) where
  | single (p : Parser α)
  | join (left right : Bracketing α)

namespace Bracketing

/-- The parsers, from left to right. -/
def parsers : Bracketing α → List (Parser α)
  | single p => [p]
  | join left right => left.parsers ++ right.parsers

/-- The parsers, joined as the brackets say. -/
def joined : Bracketing α → Parser α
  | single p => p
  | join left right => left.joined <|> right.joined

/-- A bracketing has a parser. -/
theorem parsers_ne_nil (tree : Bracketing α) : tree.parsers ≠ [] := by
  induction tree with
  | single p => exact List.cons_ne_nil p []
  | join left right ihl _ => exact List.append_ne_nil_of_left_ne_nil ihl right.parsers

/-- Every list of parsers that is not empty can be bracketed. -/
theorem exists_parsers_eq (first : Parser α) (rest : List (Parser α)) :
    ∃ tree : Bracketing α, tree.parsers = first :: rest := by
  induction rest generalizing first with
  | nil => exact ⟨single first, rfl⟩
  | cons next rest ih =>
    obtain ⟨tree, htree⟩ := ih next
    exact ⟨join (single first) tree, congrArg (first :: ·) htree⟩

/-- Joined in any bracketing, parsers are the choice of them. -/
theorem choice_parsers (tree : Bracketing α) : choice tree.parsers = tree.joined := by
  induction tree with
  | single p => exact choice_singleton p
  | join left right ihl ihr =>
    rw [parsers, choice_append left.parsers_ne_nil right.parsers_ne_nil, ihl, ihr, joined]

end Bracketing

/-- The two ways to try parsers in turn agree. Of a list that is not empty, `choice` gives at every
place of every text the answer that `<|>` gives, however the list is bracketed. It fails exactly
when all the parsers fail there, and reports the last of those failures that got furthest. -/
theorem choice_eq_joined (first : Parser α) (rest : List (Parser α)) :
    (∃ tree : Bracketing α, tree.parsers = first :: rest) ∧
    (∀ tree : Bracketing α, tree.parsers = first :: rest →
      choice (first :: rest) = tree.joined) ∧
    ∀ c failure, choice (first :: rest) c = .failed failure ↔
      ∃ failures, FailWith (first :: rest) c failures ∧ failure.IsLastFurthest failures := by
  refine ⟨Bracketing.exists_parsers_eq first rest, fun tree htree => ?_, fun c failure => ?_⟩
  · rw [← htree, tree.choice_parsers]
  · exact choice_eq_failed_iff (List.cons_ne_nil first rest)

/-- Four marks in brackets; blanks may stand before those in the middle. -/
def marks : Bracketing String :=
  .join (.join (.single (token "+")) (.single (symbol "-")))
    (.join (.single (symbol "*")) (.single (token "/")))

/-- After blanks, two of the marks fail further on than the others, and the second of the two is
reported. -/
theorem choice_eq_joined_marks :
    marks.parsers = [token "+", symbol "-", symbol "*", token "/"] ∧
    marks.joined.runAt "  %" 0 = .failed ⟨2, "'*'"⟩ := by
  obtain ⟨-, hjoined, hfailed⟩ :=
    choice_eq_joined (token "+") [symbol "-", symbol "*", token "/"]
  refine ⟨rfl, ?_⟩
  rw [← hjoined marks rfl]
  have hfail : FailWith [token "+", symbol "-", symbol "*", token "/"] (.within "  %".toList 0)
      [⟨0, "'+'"⟩, ⟨2, "'-'"⟩, ⟨2, "'*'"⟩, ⟨0, "'/'"⟩] := by
    refine .cons ?_ (.cons ?_ (.cons ?_ (.cons ?_ .nil))) <;>
      exact Reply.failure?_eq_some_iff.1 (by decide +kernel)
  exact (hfailed _ _).2 ⟨_, hfail, [⟨0, "'+'"⟩, ⟨2, "'-'"⟩], [⟨0, "'/'"⟩], rfl,
    by decide, by decide⟩

end Parser

end TypeScribe
