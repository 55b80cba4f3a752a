import TypeScribe.Proofs.Parser.Recursion

/-!
# Levels of a recursive rule

A recursive rule that uses the parser of what is nested in it only further on in the text
(`Contracts`) is independent of the number of levels that are followed, as soon as there are more of
them than characters (`Unrolls.agree`). So there is one parser for all levels, `atAnyDepth`, which
reads what is nested by itself (`Unrolls.atAnyDepth_eq`) and never finds a text too deep. Followed
to fewer levels, the rule finds the text too deep or gives the same answer (`Refines`).

Nothing recovers from a text that is too deep, so a parser that is not followed at one place
(`cutAt`) tells whether a run of the rule gets there (`Enters`). A run that does not is the same
whatever stands at that place (`eq_of_not_enters`), and a rule that contracts is entered again only
further on (`Contracts.reads_of_enters`).

At the end stands the loop of a repetition with the number of its turns (`Loop`). The budget of
`manyWithin` does not cut it short, and it takes at most one turn more than there are characters
(`exists_loop`).
-/

namespace TypeScribe

deriving instance DecidableEq for Cursor

/-- Does the answer say that the text is too deep? -/
def Reply.isTooDeep {α : Type} : Reply α → Bool
  | .stopped .tooDeep => true
  | _ => false

/-- The test for a text that is too deep decides it. -/
theorem Reply.isTooDeep_iff {α : Type} {reply : Reply α} :
    reply.isTooDeep = true ↔ reply = .stopped .tooDeep := by
  cases reply with
  | stopped stop => cases stop <;> simp [isTooDeep]
  | _ => simp [isTooDeep]

namespace Parser

variable {α β : Type}

/-! ## One parser for all levels -/

/-- The rule uses the parser of what is nested in it only further on in the text. -/
def Contracts (rule : Parser α → Parser α) : Prop :=
  ∀ ⦃places : Cursor → Prop⦄ ⦃p q : Parser α⦄, Onward places → Forward p →
    AgreeOn (Beyond places) p q → AgreeOn places (rule p) (rule q)

/-- `within depth` is the rule, followed `depth` levels deep. -/
structure Unrolls (rule : Parser α → Parser α) (within : Nat → Parser α) : Prop where
  contracts : Contracts rule
  forward : ∀ depth, Forward (within depth)
  succ : ∀ depth, within (depth + 1) = rule (within depth)

/-- Follows as many levels as the text has characters, and one. -/
def atAnyDepth (within : Nat → Parser α) : Parser α := fun c => within (c.rest.length + 1) c

/-- The places with at most `n` characters ahead. -/
def AtMost (n : Nat) (c : Cursor) : Prop := c.rest.length ≤ n

instance (n : Nat) : Onward (AtMost n) where
  reads c next text hc hreads := by
    have hlength := hreads.length_rest
    unfold AtMost at hc ⊢
    omega

/-- Less text is left beyond a place than at it. -/
theorem Beyond.length_lt {n : Nat} {next : Cursor} (h : Beyond (AtMost n) next) :
    next.rest.length < n := by
  obtain ⟨c, text, hc, hreads, hne⟩ := h
  have hpos : 0 < text.length := List.length_pos_iff.2 hne
  have hlength := hreads.length_rest
  unfold AtMost at hc
  omega

section
variable {rule : Parser α → Parser α} {within : Nat → Parser α}

/-- More levels than characters are as good as any other number of them. -/
theorem Unrolls.agree (h : Unrolls rule within) {n depth depth' : Nat} (hn : n < depth)
    (hn' : n < depth') : AgreeOn (AtMost n) (within depth) (within depth') := by
  induction n using Nat.strong_induction_on generalizing depth depth' with
  | _ n ih =>
    obtain ⟨depth, rfl⟩ : ∃ d, depth = d + 1 := ⟨depth - 1, by omega⟩
    obtain ⟨depth', rfl⟩ : ∃ d, depth' = d + 1 := ⟨depth' - 1, by omega⟩
    -- further on there are fewer characters, for which one level less is still enough
    have hnested : AgreeOn (Beyond (AtMost n)) (within depth) (within depth') := by
      intro c hc
      have hlt := hc.length_lt
      exact ih c.rest.length hlt (by omega) (by omega) c le_rfl
    rw [h.succ, h.succ]
    exact h.contracts inferInstance (h.forward depth) hnested

/-- With more levels than there are characters, the levels do not matter. -/
theorem Unrolls.agree_atAnyDepth (h : Unrolls rule within) {n depth : Nat} (hn : n < depth) :
    AgreeOn (AtMost n) (within depth) (atAnyDepth within) := by
  intro c hc
  exact h.agree (hc.trans_lt hn) (Nat.lt_succ_self _) c le_rfl

/-- What is nested is read by the parser itself. -/
theorem Unrolls.atAnyDepth_eq (h : Unrolls rule within) :
    atAnyDepth within = rule (atAnyDepth within) := by
  funext c
  have hnested : AgreeOn (Beyond (AtMost c.rest.length)) (within c.rest.length)
      (atAnyDepth within) :=
    fun c' hc' => h.agree_atAnyDepth hc'.length_lt c' le_rfl
  have hrule := (h.contracts inferInstance (h.forward _) hnested c le_rfl).1
  rwa [← h.succ] at hrule

theorem Unrolls.shallow_atAnyDepth (h : Unrolls rule within) : Shallow (atAnyDepth within) where
  ne_stopped c _ hstop :=
    hstop ▸ (h.agree_atAnyDepth (Nat.lt_succ_self c.rest.length) c le_rfl).2

theorem Unrolls.forward_atAnyDepth (h : Unrolls rule within) : Forward (atAnyDepth within) where
  reads _ _ _ hok := (h.forward _).reads hok

end

/-! ## Fewer levels -/

/-- The first parser finds the text too deep or gives the answer of the second. -/
def Refines (p q : Parser α) : Prop := ∀ c, p c = .stopped .tooDeep ∨ p c = q c

theorem Refines.refl (p : Parser α) : Refines p p := fun _ => .inr rfl

/-- One parser after another refines others if both do. -/
theorem Refines.bind {p q : Parser α} {f g : α → Parser β} (hp : Refines p q)
    (hf : ∀ value, Refines (f value) (g value)) : Refines (p >>= f) (q >>= g) := by
  intro c
  show Parser.bind p f c = .stopped .tooDeep ∨ Parser.bind p f c = Parser.bind q g c
  unfold Parser.bind
  rcases hp c with hdeep | heq
  · exact .inl (by rw [hdeep])
  · rw [← heq]
    cases p c with
    | ok value next => exact hf value next
    | failed failure => exact .inr rfl
    | stopped stop => exact .inr rfl

theorem Refines.map {p q : Parser α} (f : α → β) (h : Refines p q) :
    Refines (f <$> p) (f <$> q) :=
  h.bind fun value => .refl (pure (f value))

/-- Alternatives refine others if both do. -/
theorem Refines.orElse {p p' q q' : Parser α} (hp : Refines p p') (hq : Refines q q') :
    Refines (p <|> q) (p' <|> q') := by
  intro c
  show Parser.orElse p q c = .stopped .tooDeep ∨ Parser.orElse p q c = Parser.orElse p' q' c
  unfold Parser.orElse
  rcases hp c with hdeep | heq
  · exact .inl (by rw [hdeep])
  · rw [← heq]
    rcases hq c with hdeep | heq'
    · rw [hdeep]
      split
      · exact .inl rfl
      · exact .inr rfl
    · rw [heq']
      exact .inr rfl

/-- A choice refines another one parser by parser, whatever failure was seen before. -/
theorem Refines.choiceAfter {ps qs : List (Parser α)} (h : List.Forall₂ Refines ps qs)
    (failure : Failure) : Refines (choiceAfter failure ps) (choiceAfter failure qs) := by
  induction h generalizing failure with
  | nil => exact .refl _
  | cons hp _ ih =>
    intro c
    rw [Parser.choiceAfter, Parser.choiceAfter]
    rcases hp c with hdeep | heq
    · exact .inl (by rw [hdeep])
    · rw [← heq]
      split
      · exact ih _ c
      · exact .inr rfl

/-- A choice refines another one parser by parser. -/
theorem Refines.choice {ps qs : List (Parser α)} (h : List.Forall₂ Refines ps qs) :
    Refines (choice ps) (choice qs) := by
  intro c
  cases h with
  | nil => exact .inr rfl
  | cons hp hlater =>
    rw [Parser.choice, Parser.choice]
    rcases hp c with hdeep | heq
    · exact .inl (by rw [hdeep])
    · rw [← heq]
      split
      · exact Refines.choiceAfter hlater _ c
      · exact .inr rfl

/-- A repetition refines another one if its turns do. -/
theorem Refines.many {p q : Parser α} (h : Refines p q) : Refines (many p) (many q) := by
  suffices hwithin : ∀ budget : List Char, Refines (manyWithin p budget) (manyWithin q budget) from
    fun c => hwithin c.rest c
  intro budget
  induction budget with
  | nil =>
    intro c
    rw [manyWithin, manyWithin]
    rcases h c with hdeep | heq
    · exact .inl (by rw [hdeep])
    · exact .inr (by rw [← heq])
  | cons x budget ih =>
    intro c
    rw [manyWithin, manyWithin]
    rcases h c with hdeep | heq
    · exact .inl (by rw [hdeep])
    · rw [← heq]
      cases p c with
      | failed failure => exact .inr rfl
      | stopped stop => exact .inr rfl
      | ok value next =>
        dsimp only
        split
        · exact .inr rfl
        · rcases ih next with hdeep | heq'
          · exact .inl (by rw [hdeep, Reply.map])
          · exact .inr (by rw [heq'])

theorem Refines.option {p q : Parser α} (h : Refines p q) (default : α) :
    Refines (p.option default) (q.option default) :=
  h.orElse (.refl _)

theorem Refines.option? {p q : Parser α} (h : Refines p q) : Refines p.option? q.option? :=
  (h.map some).orElse (.refl _)

/-- Fewer levels than the text may need are not followed to another answer. -/
theorem Unrolls.refines_atAnyDepth {rule : Parser α → Parser α} {within : Nat → Parser α}
    (h : Unrolls rule within) (hzero : ∀ c, within 0 c = .stopped .tooDeep)
    (hrule : ∀ p q, Refines p q → Refines (rule p) (rule q)) (depth : Nat) :
    Refines (within depth) (atAnyDepth within) := by
  induction depth with
  | zero => exact fun c => .inl (hzero c)
  | succ depth ih =>
    rw [h.succ, h.atAnyDepth_eq]
    exact hrule _ _ ih

/-! ## Where a rule is entered again -/

/-- The parser, which is not followed at the given place. -/
def cutAt (p : Parser α) (place : Cursor) : Parser α := fun c =>
  if c = place then .stopped .tooDeep else p c

/-- A run of the rule from `c` gets to the parser of what is nested at the given place: it cannot go
on if that is not followed there. -/
def Enters (rule : Parser α → Parser α) (p : Parser α) (c place : Cursor) : Prop :=
  rule (p.cutAt place) c = .stopped .tooDeep

instance (rule : Parser α → Parser α) (p : Parser α) (c place : Cursor) :
    Decidable (Enters rule p c place) :=
  decidable_of_iff _ Reply.isTooDeep_iff

theorem cutAt_of_ne {p : Parser α} {c place : Cursor} (h : c ≠ place) : p.cutAt place c = p c :=
  if_neg h

/-- What stands at the place is not asked. -/
theorem cutAt_refines {p q : Parser α} {place : Cursor} (h : ∀ c, c ≠ place → q c = p c) :
    Refines (p.cutAt place) q := by
  intro c
  by_cases hc : c = place
  · exact .inl (if_pos hc)
  · exact .inr ((cutAt_of_ne hc).trans (h c hc).symm)

section
variable {rule : Parser α → Parser α} {p q : Parser α} {c place : Cursor}

/-- At a place that the run does not enter, any parser may stand in for that of what is nested. -/
theorem eq_of_not_enters (hrule : ∀ p q, Refines p q → Refines (rule p) (rule q))
    (h : ¬Enters rule p c place) (hq : ∀ c, c ≠ place → q c = p c) : rule q c = rule p c := by
  have hother := (hrule _ _ (cutAt_refines hq) c).resolve_left h
  have hself := (hrule _ _ (cutAt_refines fun _ _ => rfl) c).resolve_left h
  exact hother.symm.trans hself

/-- The places that a run from the cursor may get to. -/
def Ahead (c next : Cursor) : Prop := ∃ text, c.Reads text next

instance (c : Cursor) : Onward (Ahead c) where
  reads := by
    rintro mid next t ⟨s, hs⟩ ht
    exact ⟨s ++ t, hs.append ht⟩

/-- Where a rule contracts, it is entered again only after something has been read. -/
theorem Contracts.reads_of_enters (hrule : Contracts rule) [hforward : Forward p] [Shallow p]
    (h : Enters rule p c place) : ∃ text, c.Reads text place ∧ text ≠ [] := by
  by_contra hnot
  -- the place does not lie ahead, so the cut makes no difference to what does
  have hagree : AgreeOn (Beyond (Ahead c)) p (p.cutAt place) := by
    rintro next ⟨mid, t, ⟨s, hs⟩, ht, hne⟩
    have hplace : next ≠ place := by
      rintro rfl
      exact hnot ⟨s ++ t, hs.append ht, List.append_ne_nil_of_right_ne_nil s hne⟩
    exact ⟨(cutAt_of_ne hplace).symm, Shallow.ne_tooDeep next⟩
  obtain ⟨heq, hne⟩ := hrule inferInstance hforward hagree c ⟨[], .nil c⟩
  exact hne (heq.trans h)

end

/-! ## The turns of a repetition -/

/-- The loop of a repetition from the cursor, with the number of its turns and its answer. It turns
until a turn fails, stops the run or reads nothing. -/
inductive Loop (p : Parser α) : Cursor → Nat → Reply (List α) → Prop
  | failed {c : Cursor} {failure : Failure} : p c = .failed failure → Loop p c 1 (.ok [] c)
  | stopped {c : Cursor} {stop : Stop} : p c = .stopped stop → Loop p c 1 (.stopped stop)
  | still {c next : Cursor} {value : α} : p c = .ok value next → next.offset = c.offset →
      Loop p c 1 (.ok [value] c)
  | turn {c next : Cursor} {value : α} {turns : Nat} {reply : Reply (List α)} :
      p c = .ok value next → next.offset ≠ c.offset → Loop p next turns reply →
      Loop p c (turns + 1) (reply.map (value :: ·))

section
variable {p : Parser α} {c next : Cursor} {value : α} {turns : Nat} {reply : Reply (List α)}

/-- The loop has one course. -/
theorem Loop.unique {turns' : Nat} {reply' : Reply (List α)} (h : Loop p c turns reply)
    (h' : Loop p c turns' reply') : turns' = turns ∧ reply' = reply := by
  induction h generalizing turns' reply' with
  | failed hp =>
    cases h' with
    | failed => exact ⟨rfl, rfl⟩
    | stopped hp' | still hp' | turn hp' => cases hp.symm.trans hp'
  | stopped hp =>
    cases h' with
    | stopped hp' =>
      cases hp.symm.trans hp'
      exact ⟨rfl, rfl⟩
    | failed hp' | still hp' | turn hp' => cases hp.symm.trans hp'
  | still hp hstill =>
    cases h' with
    | failed hp' | stopped hp' => cases hp.symm.trans hp'
    | still hp' =>
      cases hp.symm.trans hp'
      exact ⟨rfl, rfl⟩
    | turn hp' hmoved =>
      cases hp.symm.trans hp'
      exact absurd hstill hmoved
  | turn hp hmoved _ ih =>
    cases h' with
    | failed hp' | stopped hp' => cases hp.symm.trans hp'
    | still hp' hstill =>
      cases hp.symm.trans hp'
      exact absurd hstill hmoved
    | turn hp' _ hlater =>
      cases hp.symm.trans hp'
      obtain ⟨rfl, rfl⟩ := ih hlater
      exact ⟨rfl, rfl⟩

/-- A turn after which the loop goes on has read something. -/
theorem length_lt_of_moved [Forward p] (h : p c = .ok value next)
    (hmoved : next.offset ≠ c.offset) : next.rest.length < c.rest.length := by
  obtain ⟨text, hreads⟩ := Forward.reads h
  have hoffset := hreads.offset_eq
  rw [hreads.length_rest]
  omega

/-- A loop has at most one turn more than there are characters. -/
theorem Loop.turns_le [Forward p] (h : Loop p c turns reply) : turns ≤ c.rest.length + 1 := by
  induction h with
  | failed | stopped | still => omega
  | turn hp hmoved _ ih =>
    have hlt := length_lt_of_moved hp hmoved
    omega

/-- The budget of a repetition lasts to the end of the loop. -/
theorem exists_loop_manyWithin [Forward p] (budget : List Char)
    (hbudget : c.rest.length ≤ budget.length) :
    ∃ turns, Loop p c turns (manyWithin p budget c) := by
  fun_induction manyWithin p budget c with
  | case1 budget c failure hp => exact ⟨1, .failed hp⟩
  | case2 budget c stop hp => exact ⟨1, .stopped hp⟩
  | case3 budget c value next hp hstill => exact ⟨1, .still hp hstill⟩
  | case4 c value next hp hmoved =>
    -- no characters are left, so this turn has read nothing
    have hlt := length_lt_of_moved hp hmoved
    rw [List.length_nil] at hbudget
    omega
  | case5 c value next hp hmoved x budget ih =>
    have hlt := length_lt_of_moved hp hmoved
    rw [List.length_cons] at hbudget
    obtain ⟨turns, hlater⟩ := ih (by omega)
    exact ⟨turns + 1, .turn hp hmoved hlater⟩

/-- A repetition ends after at most one turn more than there are characters, and its loop has no
other course. -/
theorem exists_loop [Forward p] : ∃ turns ≤ c.rest.length + 1,
    ∀ turns' reply, Loop p c turns' reply ↔ turns' = turns ∧ reply = many p c := by
  obtain ⟨turns, hloop⟩ := exists_loop_manyWithin (p := p) (c := c) c.rest le_rfl
  refine ⟨turns, hloop.turns_le, fun turns' reply => ⟨fun h => hloop.unique h, ?_⟩⟩
  rintro ⟨rfl, rfl⟩
  exact hloop

end

end Parser

end TypeScribe
