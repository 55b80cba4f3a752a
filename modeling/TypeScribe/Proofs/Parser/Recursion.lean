import TypeScribe.Proofs.Parser.Accepts

/-!
# Recursive rules

A recursive rule is written with the parser of what is nested in it as a parameter, and followed
only as deep as a number says. Here stands what makes that number irrelevant. Every parser reads a
stretch of the text (`Forward`), which for some is never empty (`Advances`), so whatever runs after
such a part runs further on in the text. Two parsers agree on some places (`AgreeOn`) when they give
the same answer there, and that answer is not that the text is too deep. Agreement passes through
every combinator; after a part that advances it is needed only at places further on (`Beyond`,
`AgreeOn.bind_of_advances`), which is the step of every argument by the length of the text.
-/

namespace TypeScribe.Parser

variable {α β : Type}

/-! ## Parsers that go forward -/

/-- Whenever the parser succeeds, it has read a stretch of the text. -/
class Forward (p : Parser α) : Prop where
  reads : ∀ ⦃c next : Cursor⦄ ⦃value : α⦄, p c = .ok value next → ∃ text, c.Reads text next

/-- Whenever the parser succeeds, it has read something. -/
class Advances (p : Parser α) : Prop where
  reads : ∀ ⦃c next : Cursor⦄ ⦃value : α⦄, p c = .ok value next →
    ∃ text, c.Reads text next ∧ text ≠ []

instance (priority := low) {p : Parser α} [Advances p] : Forward p where
  reads _ _ _ h := by
    obtain ⟨text, hreads, -⟩ := Advances.reads h
    exact ⟨text, hreads⟩

instance (value : α) : Forward (pure value : Parser α) where
  reads c next _ h := by
    obtain ⟨-, rfl⟩ := pure_eq_ok h
    exact ⟨[], .nil next⟩

instance {p : Parser α} {f : α → Parser β} [Forward p] [∀ value, Forward (f value)] :
    Forward (p >>= f) where
  reads _ _ _ h := by
    obtain ⟨first, mid, hfirst, h⟩ := bind_eq_ok h
    obtain ⟨s, hs⟩ := Forward.reads hfirst
    obtain ⟨t, ht⟩ := Forward.reads h
    exact ⟨s ++ t, hs.append ht⟩

instance {p : Parser α} {f : α → β} [Forward p] : Forward (f <$> p) where
  reads _ _ _ h := by
    obtain ⟨first, hfirst, -⟩ := map_eq_ok h
    exact Forward.reads hfirst

instance {p q : Parser α} [Forward p] [Forward q] : Forward (p <|> q) where
  reads _ _ _ h := by
    rcases orElse_eq_ok h with h | ⟨-, h⟩ <;> exact Forward.reads h

/-- A choice reads a stretch of the text if all of its parsers do. -/
theorem forward_choice {parsers : List (Parser α)} (h : ∀ p ∈ parsers, Forward p) :
    Forward (choice parsers) where
  reads _ _ _ hok := choice_eq_ok_of_forall hok fun p hp hok => by
    have := h p hp
    exact Forward.reads hok

instance {p : Parser α} [Forward p] : Forward (many p) where
  reads _ _ _ h := by
    have hp : ∀ ⦃c next : Cursor⦄ ⦃value : α⦄, p c = .ok value next →
        ∃ text, c.Reads text next ∧ True := fun _ _ _ hok => by
      obtain ⟨text, hreads⟩ := Forward.reads hok
      exact ⟨text, hreads, trivial⟩
    obtain ⟨texts, -, hreads⟩ := many_reads hp h
    exact ⟨_, hreads⟩

instance {p : Parser α} [Forward p] {default : α} : Forward (p.option default) :=
  inferInstanceAs (Forward (p <|> pure default))

instance {p : Parser α} [Forward p] : Forward p.option? :=
  inferInstanceAs (Forward (some <$> p <|> pure none))

instance : Forward skipSpaces where
  reads _ _ _ h := by
    obtain ⟨blanks, hreads, -⟩ := skipSpaces_reads h
    exact ⟨blanks, hreads⟩

instance (predicate : Char → Bool) : Forward (takeWhile predicate) where
  reads _ _ _ h := ⟨_, (takeWhile_reads h).1⟩

instance (literal : String) : Forward (token literal) where
  reads _ _ _ h := ⟨_, (token_reads h).1⟩

/-! ## Parsers that read something -/

theorem advances_token (literal : String) (h : literal.toList ≠ []) :
    Advances (token literal) where
  reads _ _ _ hok := ⟨_, (token_reads hok).1, h⟩

instance (predicate : Char → Bool) (expected : String) : Advances (satisfy predicate expected) where
  reads _ _ _ h := ⟨_, (satisfy_reads h).1, List.cons_ne_nil _ _⟩

instance (predicate : Char → Bool) (expected : String) :
    Advances (takeWhile1 predicate expected) where
  reads _ _ _ h := ⟨_, (takeWhile1_reads h).1, (takeWhile1_reads h).2.1⟩

/-- A first parser that takes some text is enough. -/
theorem Advances.bind {p : Parser α} {f : α → Parser β} [Advances p]
    [∀ value, Forward (f value)] : Advances (p >>= f) where
  reads _ _ _ h := by
    obtain ⟨first, mid, hfirst, h⟩ := bind_eq_ok h
    obtain ⟨s, hs, hne⟩ := Advances.reads hfirst
    obtain ⟨t, ht⟩ := Forward.reads h
    exact ⟨s ++ t, hs.append ht, List.append_ne_nil_of_left_ne_nil hne t⟩

/-- So is a second one. -/
theorem Advances.after {p : Parser α} {f : α → Parser β} [Forward p]
    (hf : ∀ value, Advances (f value)) : Advances (p >>= f) where
  reads _ _ _ h := by
    obtain ⟨first, mid, hfirst, h⟩ := bind_eq_ok h
    obtain ⟨s, hs⟩ := Forward.reads hfirst
    obtain ⟨t, ht, hne⟩ := (hf first).reads h
    exact ⟨s ++ t, hs.append ht, List.append_ne_nil_of_right_ne_nil s hne⟩

theorem Advances.orElse {p q : Parser α} [Advances p] [Advances q] : Advances (p <|> q) where
  reads _ _ _ h := by
    rcases orElse_eq_ok h with h | ⟨-, h⟩ <;> exact Advances.reads h

/-- A choice takes some text if all of its parsers do. -/
theorem advances_choice {parsers : List (Parser α)} (h : ∀ p ∈ parsers, Advances p) :
    Advances (choice parsers) where
  reads _ _ _ hok := choice_eq_ok_of_forall hok fun p hp hok => by
    have := h p hp
    exact Advances.reads hok

instance (first later : Char → Bool) (expected : String) :
    Advances (word first later expected) where
  reads _ _ _ h := ⟨_, (word_reads h).1, (word_reads h).2.ne_nil⟩

instance {stops : Stop → Prop} : Avoids stops escapedIdentifier := by
  unfold escapedIdentifier char
  infer_instance

instance : Advances escapedIdentifier := by
  unfold escapedIdentifier char
  exact Advances.bind

instance {stops : Stop → Prop} : Avoids stops identifier := by
  unfold identifier
  infer_instance

instance : Advances identifier := Advances.orElse

instance {stops : Stop → Prop} : Avoids stops endOfInput where
  ne_stopped c stop _ := by
    unfold endOfInput
    split <;> simp

instance {stops : Stop → Prop} (literal : String) : Avoids stops (symbol literal) := by
  unfold symbol
  infer_instance

instance (literal : String) : Forward (symbol literal) := by
  unfold symbol
  infer_instance

/-- A symbol takes some text. -/
theorem advances_symbol (literal : String) (h : literal.toList ≠ []) :
    Advances (symbol literal) := by
  have := advances_token literal h
  exact Advances.after fun _ => Advances.bind

/-- A repetition ends where its parser fails. -/
theorem Steps.failed {p : Parser α} {c last : Cursor} {values : List α}
    (h : Steps p c values last) : ∃ failure, p last = .failed failure := by
  induction h with
  | stop hfailed => exact ⟨_, hfailed⟩
  | step _ _ _ _ ih => exact ih

/-! ## Agreement on places -/

/-- Wherever a run from one of the places may get to is one of them too. -/
class Onward (places : Cursor → Prop) : Prop where
  reads : ∀ ⦃c next : Cursor⦄ ⦃text : List Char⦄, places c → c.Reads text next → places next

/-- The place lies behind one of the given ones, with some text between. -/
def Beyond (places : Cursor → Prop) (next : Cursor) : Prop :=
  ∃ c text, places c ∧ c.Reads text next ∧ text ≠ []

instance (places : Cursor → Prop) : Onward (Beyond places) where
  reads := by
    rintro mid next t ⟨c, s, hc, hs, hne⟩ ht
    exact ⟨c, s ++ t, hc, hs.append ht, List.append_ne_nil_of_left_ne_nil hne t⟩

/-- At the places the two parsers give the same answer, and that is not that the text is too deep.
-/
def AgreeOn (places : Cursor → Prop) (p q : Parser α) : Prop :=
  ∀ c : Cursor, places c → p c = q c ∧ p c ≠ .stopped .tooDeep

section
variable {places : Cursor → Prop}

/-- A parser without recursion agrees with itself. -/
theorem AgreeOn.refl (p : Parser α) [Shallow p] : AgreeOn places p p :=
  fun c _ => ⟨rfl, Shallow.ne_tooDeep c⟩

/-- One parser after another agrees with others if both do, the second from where the first ends. -/
theorem AgreeOn.bind [Onward places] {p q : Parser α} {f g : α → Parser β} [Forward p]
    (hp : AgreeOn places p q) (hf : ∀ value, AgreeOn places (f value) (g value)) :
    AgreeOn places (p >>= f) (q >>= g) := by
  intro c hc
  obtain ⟨heq, hne⟩ := hp c hc
  show Parser.bind p f c = Parser.bind q g c ∧ Parser.bind p f c ≠ .stopped .tooDeep
  unfold Parser.bind
  rw [← heq]
  cases hok : p c with
  | ok value next =>
    obtain ⟨text, hreads⟩ := Forward.reads hok
    exact hf value next (Onward.reads hc hreads)
  | failed failure => exact ⟨rfl, by simp⟩
  | stopped stop => exact ⟨rfl, by simpa [hok] using hne⟩

/-- After a part that reads something, agreement is needed further on only. -/
theorem AgreeOn.bind_of_advances {p : Parser α} {f g : α → Parser β} [Shallow p] [Advances p]
    (hf : ∀ value, AgreeOn (Beyond places) (f value) (g value)) :
    AgreeOn places (p >>= f) (p >>= g) := by
  intro c hc
  show Parser.bind p f c = Parser.bind p g c ∧ Parser.bind p f c ≠ .stopped .tooDeep
  unfold Parser.bind
  cases hok : p c with
  | ok value next =>
    obtain ⟨text, hreads, hne⟩ := Advances.reads hok
    exact hf value next ⟨c, text, hc, hreads, hne⟩
  | failed failure => exact ⟨rfl, by simp⟩
  | stopped stop => exact ⟨rfl, by simpa [hok] using Shallow.ne_tooDeep (p := p) c⟩

/-- A function of the values keeps an agreement. -/
theorem AgreeOn.map {p q : Parser α} (f : α → β) (h : AgreeOn places p q) :
    AgreeOn places (f <$> p) (f <$> q) := by
  intro c hc
  obtain ⟨heq, hne⟩ := h c hc
  rw [map_apply, map_apply, ← heq]
  cases hok : p c with
  | ok value next => exact ⟨rfl, by simp [Reply.map]⟩
  | failed failure => exact ⟨rfl, by simp [Reply.map]⟩
  | stopped stop => exact ⟨rfl, by simpa [Reply.map, hok] using hne⟩

/-- Alternatives agree with others if both do. -/
theorem AgreeOn.orElse {p p' q q' : Parser α} (hp : AgreeOn places p p')
    (hq : AgreeOn places q q') : AgreeOn places (p <|> q) (p' <|> q') := by
  intro c hc
  obtain ⟨heq, hne⟩ := hp c hc
  obtain ⟨heq', hne'⟩ := hq c hc
  show Parser.orElse p q c = Parser.orElse p' q' c ∧ Parser.orElse p q c ≠ .stopped .tooDeep
  unfold Parser.orElse
  rw [← heq, ← heq']
  refine ⟨rfl, ?_⟩
  split
  · split
    · simp
    · exact hne'
  · exact hne

/-- A choice agrees with another one parser by parser, whatever failure was seen before. -/
theorem AgreeOn.choiceAfter {ps qs : List (Parser α)}
    (h : List.Forall₂ (AgreeOn places) ps qs) {c : Cursor} (hc : places c)
    (failure : Failure) :
    choiceAfter failure ps c = choiceAfter failure qs c ∧
      choiceAfter failure ps c ≠ .stopped .tooDeep := by
  induction h generalizing failure with
  | nil => exact ⟨rfl, by simp [Parser.choiceAfter]⟩
  | cons hp _ ih =>
    obtain ⟨heq, hne⟩ := hp c hc
    rw [Parser.choiceAfter, Parser.choiceAfter, ← heq]
    split
    · exact ih _
    · exact ⟨rfl, hne⟩

/-- A choice agrees with another one parser by parser. -/
theorem AgreeOn.choice {ps qs : List (Parser α)}
    (h : List.Forall₂ (AgreeOn places) ps qs) : AgreeOn places (choice ps) (choice qs) := by
  intro c hc
  cases h with
  | nil => exact ⟨rfl, by simp [Parser.choice]⟩
  | cons hp hlater =>
    obtain ⟨heq, hne⟩ := hp c hc
    rw [Parser.choice, Parser.choice, ← heq]
    split
    · exact AgreeOn.choiceAfter hlater hc _
    · exact ⟨rfl, hne⟩

/-- Repetitions agree from a place on if their turns do, as no turn goes back. -/
theorem AgreeOn.many [Onward places] {p q : Parser α} [Forward p] (h : AgreeOn places p q) :
    AgreeOn places (many p) (many q) := by
  suffices hwithin : ∀ (budget : List Char) (c : Cursor), places c →
      manyWithin p budget c = manyWithin q budget c ∧ manyWithin p budget c ≠ .stopped .tooDeep from
    fun c => hwithin c.rest c
  intro budget
  induction budget with
  | nil =>
    intro c hc
    obtain ⟨heq, hne⟩ := h c hc
    rw [manyWithin, manyWithin, ← heq]
    refine ⟨rfl, ?_⟩
    split
    · simp
    · next hstopped => simpa [hstopped] using hne
    · split <;> simp
  | cons x budget ih =>
    intro c hc
    obtain ⟨heq, hne⟩ := h c hc
    rw [manyWithin, manyWithin, ← heq]
    split
    · exact ⟨rfl, by simp⟩
    · next hstopped => exact ⟨rfl, by simpa [hstopped] using hne⟩
    · next value next hok =>
      obtain ⟨text, hreads⟩ := Forward.reads hok
      obtain ⟨hlater, hdeep⟩ := ih next (Onward.reads hc hreads)
      split
      · exact ⟨rfl, by simp⟩
      · dsimp only
        rw [← hlater]
        refine ⟨rfl, ?_⟩
        cases hmany : manyWithin p budget next with
        | ok values last => simp [Reply.map]
        | failed failure => simp [Reply.map]
        | stopped stop => simpa [Reply.map, hmany] using hdeep

theorem AgreeOn.option {p q : Parser α} (h : AgreeOn places p q) (default : α) :
    AgreeOn places (p.option default) (q.option default) :=
  h.orElse (.refl _)

theorem AgreeOn.option? {p q : Parser α} (h : AgreeOn places p q) :
    AgreeOn places p.option? q.option? :=
  (h.map some).orElse (.refl _)

end

/-! ## Chains -/

/-- A parser that does not mind the blanks before its text goes on after one that may have taken
some of them. -/
theorem AcceptsLoosely.bind_after_blanks {p : Parser α} {f : α → Parser β}
    {s t gap blanks rest : List Char} {value : α} {value' : β}
    (hp : p.AcceptsLoosely s value gap (t ++ (blanks ++ rest)))
    (hf : ∀ lead, lead <:+ gap → (f value).AcceptsLoosely (lead ++ t) value' blanks rest) :
    (p >>= f).AcceptsLoosely (s ++ (gap ++ t)) value' blanks rest := by
  obtain ⟨taken, left, rfl, haccepts⟩ := hp
  have hlater := hf left (List.suffix_append _ _)
  rw [← List.append_assoc] at haccepts
  have hboth := AcceptsLoosely.bind haccepts hlater
  simpa only [List.append_assoc] using hboth

/-- Where no blanks follow, none are taken. -/
theorem AcceptsLoosely.tight {p : Parser α} {text rest : List Char} {value : α}
    (h : p.AcceptsLoosely text value [] rest) : p.Accepts text value rest := by
  obtain ⟨taken, left, hnil, haccepts⟩ := h
  obtain ⟨rfl, rfl⟩ := List.append_eq_nil_iff.1 hnil.symm
  simpa using haccepts

/-- A parser stops the run after one that may have taken some of the blanks. -/
theorem AcceptsLoosely.bind_stopsOn {p : Parser α} {f : α → Parser β} {text blanks rest : List Char}
    {value : α} {stop : Stop} (hp : p.AcceptsLoosely text value blanks rest)
    (hf : ∀ left, left <:+ blanks → (f value).StopsOn (left ++ rest) stop) :
    (p >>= f).StopsOn (text ++ (blanks ++ rest)) stop := by
  obtain ⟨taken, left, rfl, haccepts⟩ := hp
  have hstops := haccepts.bind_stopsOn (hf left (List.suffix_append _ _))
  simpa only [List.append_assoc] using hstops

/-- A parser that reads nothing there goes on after one that may have taken some of the blanks. -/
theorem AcceptsLoosely.bind_nil {p : Parser α} {f : α → Parser β} {text blanks rest : List Char}
    {value : α} {value' : β} (hp : p.AcceptsLoosely text value blanks rest)
    (hf : ∀ left, left <:+ blanks → (f value).Accepts [] value' (left ++ rest)) :
    (p >>= f).AcceptsLoosely text value' blanks rest := by
  obtain ⟨taken, left, rfl, haccepts⟩ := hp
  exact ⟨taken, left, rfl, haccepts.bind_nil (hf left (List.suffix_append _ _))⟩

/-- Three parsers in a row may be grouped in either way. -/
theorem bind_assoc {γ : Type} (p : Parser α) (f : α → Parser β) (g : β → Parser γ) :
    p >>= f >>= g = p >>= fun value => f value >>= g := by
  funext c
  show Parser.bind (Parser.bind p f) g c = Parser.bind p (fun value => Parser.bind (f value) g) c
  unfold Parser.bind
  cases p c <;> rfl

/-- One more step in front of a repetition. -/
theorem Accepts.many_cons {p : Parser α} [Advances p] {s t after : List Char}
    {value : α} {values : List α} (hp : p.Accepts s value (t ++ after))
    (hlater : (many p).Accepts t values after) :
    (many p).Accepts (s ++ t) (value :: values) after := by
  intro offset
  have hstep := hp offset
  obtain ⟨text, hreads, hne⟩ := Advances.reads hstep
  have hsteps := steps_of_many (fun _ _ _ hok => Advances.reads hok) (hlater (offset + s.length))
  rw [List.append_assoc, many_of_steps (.step hstep hreads hne hsteps), List.length_append,
    Nat.add_assoc]

/-- A repetition takes nothing where its parser rejects the text. -/
theorem Rejects.many {p : Parser α} {after : List Char} (h : p.Rejects after) :
    (many p).Accepts [] [] after := by
  intro offset
  obtain ⟨failure, hfailed⟩ := h offset
  exact many_of_steps (.stop hfailed)

section
variable {ι : Type} {p : Parser α} [Advances p] (text : ι → List Char) (value : ι → α)
  (gap mark : List Char) (Next : ι → List Char → List Char → Prop) {blanks rest : List Char}

/-- The later items of a chain, each behind its mark. -/
theorem many_acceptsLoosely {x : ι} {xs : List ι}
    (hstep : ∀ y ∈ x :: xs, ∀ lead, lead <:+ gap → ∀ b r, Next y b r →
      p.AcceptsLoosely (lead ++ (mark ++ text y)) (value y) b r)
    (hnext : ∀ y ∈ (x :: xs).dropLast, ∀ r, Next y gap (mark ++ r))
    (hend : ∀ y ∈ (x :: xs).getLast?, Next y blanks rest)
    (hstop : ∀ left, left <:+ blanks → p.Rejects (left ++ rest))
    {lead : List Char} (hlead : lead <:+ gap) :
    (many p).AcceptsLoosely
      (lead ++ (mark ++ text x) ++ xs.flatMap fun y => gap ++ (mark ++ text y))
      ((x :: xs).map value) blanks rest := by
  induction xs generalizing x lead with
  | nil =>
    obtain ⟨taken, left, rfl, haccepts⟩ :=
      hstep x (by simp) lead hlead blanks rest (hend x (by simp))
    refine ⟨taken, left, rfl, ?_⟩
    have hmany := (hstop left (List.suffix_append _ _)).many
    have hone := Accepts.many_cons (t := []) haccepts hmany
    simpa using hone
  | cons y ys ih =>
    obtain ⟨taken, left, hgap, haccepts⟩ := hstep x (by simp) lead hlead gap
      (mark ++ (text y ++ (ys.flatMap fun y => gap ++ (mark ++ text y)) ++ (blanks ++ rest)))
      (hnext x (by simp) _)
    have hleft : left <:+ gap := hgap ▸ List.suffix_append _ _
    have hlater := ih (x := y) (fun z hz => hstep z (List.mem_cons_of_mem _ hz))
      (fun z hz => hnext z (by
        rw [List.dropLast_cons_cons]
        exact List.mem_cons_of_mem _ hz))
      (fun z hz => hend z (by rwa [List.getLast?_cons_cons])) hleft
    obtain ⟨taken', left', rfl, hmany⟩ := hlater
    refine ⟨taken', left', rfl, ?_⟩
    have hafter : left ++ (mark ++ (text y ++ (ys.flatMap fun y => gap ++ (mark ++ text y)) ++
        (taken' ++ left' ++ rest))) = (left ++ (mark ++ text y) ++
        (ys.flatMap fun y => gap ++ (mark ++ text y)) ++ taken') ++ (left' ++ rest) := by
      simp only [List.append_assoc]
    rw [hafter] at haccepts
    have hall := haccepts.many_cons hmany
    have htext : lead ++ (mark ++ text x) ++ taken ++ (left ++ (mark ++ text y) ++
        (ys.flatMap fun y => gap ++ (mark ++ text y)) ++ taken') =
        lead ++ (mark ++ text x) ++ ((y :: ys).flatMap fun y => gap ++ (mark ++ text y)) ++
          taken' := by
      simp only [List.flatMap_cons, hgap, List.append_assoc]
    rwa [htext] at hall

/-- A chain of items: the first one, and the later ones behind their marks. An item may take some of
the blanks behind it, and a later one does not mind what is left of them. -/
theorem chain_acceptsLoosely {γ : Type} {first : Parser α} {f : α → List α → γ} {x : ι}
    {xs : List ι} {start : List Char}
    (hfirst : ∀ b r, Next x b r → first.AcceptsLoosely start (value x) b r)
    (hstep : ∀ y ∈ xs, ∀ lead, lead <:+ gap → ∀ b r, Next y b r →
      p.AcceptsLoosely (lead ++ (mark ++ text y)) (value y) b r)
    (hnext : ∀ y ∈ (x :: xs).dropLast, ∀ r, Next y gap (mark ++ r))
    (hend : ∀ y ∈ (x :: xs).getLast?, Next y blanks rest)
    (hstop : ∀ left, left <:+ blanks → p.Rejects (left ++ rest)) :
    (first >>= fun head => many p >>= fun later => pure (f head later)).AcceptsLoosely
      (start ++ xs.flatMap fun y => gap ++ (mark ++ text y)) (f (value x) (xs.map value))
      blanks rest := by
  cases xs with
  | nil =>
    obtain ⟨taken, left, rfl, haccepts⟩ := hfirst blanks rest (hend x (by simp))
    refine ⟨taken, left, rfl, ?_⟩
    have hmany := (hstop left (List.suffix_append _ _)).many
    simpa using haccepts.bind_nil (hmany.bind_pure (f := f (value x)))
  | cons y ys =>
    rw [List.flatMap_cons, List.append_assoc]
    refine AcceptsLoosely.bind_after_blanks (hfirst gap _ ?_) fun lead hlead => ?_
    · simp only [List.append_assoc]
      exact hnext x (by simp) _
    · have hlater := many_acceptsLoosely text value gap mark Next hstep (fun z hz => hnext z (by
          rw [List.dropLast_cons_cons]
          exact List.mem_cons_of_mem _ hz))
        (fun z hz => hend z (by rwa [List.getLast?_cons_cons])) hstop hlead
      rw [← List.append_assoc]
      exact hlater.bind_pure (f := f (value x))

end

end TypeScribe.Parser
