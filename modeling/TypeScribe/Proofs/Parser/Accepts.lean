import TypeScribe.Proofs.Parser.Reads

/-!
# What a parser accepts

The converse of `TypeScribe.Proofs.Parser.Reads`: on a text of a known shape a parser succeeds, with
a known value, and stops where the shape ends (`Accepts`), or it fails (`Rejects`). Since runs are
greedy, most parsers accept a text only when what comes after it stops the run (`StopsAt`).

That a parser fails is mostly shown indirectly: it does not succeed, because what it would read is
not there, and nothing stops it (`Unstopped`). A parser without recursion never finds the text too
deep (`Shallow`), but a numeral in it may be too long. Both say which stops a parser avoids, and the
instances of `Avoids` follow the shape of a parser, for any such stops at once.
-/

namespace TypeScribe.Parser

variable {α β : Type}

/-! ## Acceptance -/

/-- On the text, with `after` behind it, the parser answers the value and stops before `after`. -/
def Accepts (p : Parser α) (text : List Char) (value : α) (after : List Char) : Prop :=
  ∀ offset, p ⟨offset, text ++ after, false⟩ = .ok value ⟨offset + text.length, after, false⟩

/-- At the start of the text the parser fails. -/
def Rejects (p : Parser α) (text : List Char) : Prop :=
  ∀ offset, ∃ failure, p ⟨offset, text, false⟩ = .failed failure

theorem accepts_pure (value : α) (after : List Char) :
    (pure value : Parser α).Accepts [] value after :=
  fun _ => rfl

/-- One parser after another accepts the first text and then the second. -/
theorem Accepts.bind {p : Parser α} {f : α → Parser β} {s t after : List Char} {value : α}
    {value' : β} (hp : p.Accepts s value (t ++ after)) (hf : (f value).Accepts t value' after) :
    (p >>= f).Accepts (s ++ t) value' after := by
  intro offset
  rw [List.append_assoc, bind_of_ok (hp offset), hf, List.length_append, Nat.add_assoc]

/-- The second parser need not take anything. -/
theorem Accepts.bind_nil {p : Parser α} {f : α → Parser β} {text after : List Char} {value : α}
    {value' : β} (hp : p.Accepts text value after) (hf : (f value).Accepts [] value' after) :
    (p >>= f).Accepts text value' after := by
  intro offset
  rw [bind_of_ok (hp offset)]
  exact hf _

/-- Nor need the first one take anything. -/
theorem Accepts.nil_bind {p : Parser α} {f : α → Parser β} {text after : List Char} {value : α}
    {value' : β} (hp : p.Accepts [] value (text ++ after))
    (hf : (f value).Accepts text value' after) : (p >>= f).Accepts text value' after :=
  hp.bind hf

/-- A function of the value does not change what is read. -/
theorem Accepts.map {p : Parser α} {text after : List Char} {value : α} (f : α → β)
    (hp : p.Accepts text value after) : (f <$> p).Accepts text (f value) after := by
  intro offset
  rw [map_apply, hp offset]
  rfl

/-- A parser that ends by answering a value reads nothing for it. -/
theorem Accepts.bind_pure {p : Parser α} {f : α → β} {text after : List Char} {value : α}
    (hp : p.Accepts text value after) :
    (p >>= fun found => pure (f found)).Accepts text (f value) after := by
  intro offset
  rw [bind_of_ok (hp offset)]
  rfl

theorem Accepts.orElse {p : Parser α} {text after : List Char} {value : α}
    (hp : p.Accepts text value after) (q : Parser α) : (p <|> q).Accepts text value after :=
  fun offset => orElse_of_ok (hp offset)

/-- The second alternative is taken where the first rejects the text. -/
theorem Accepts.orElse_of_rejects {p q : Parser α} {text after : List Char} {value : α}
    (hp : p.Rejects (text ++ after)) (hq : q.Accepts text value after) :
    (p <|> q).Accepts text value after := by
  intro offset
  obtain ⟨failure, hfailed⟩ := hp offset
  show Parser.orElse p q _ = _
  rw [Parser.orElse, hfailed, hq offset]

/-- The first parser that succeeds is chosen, whatever failure was seen before. -/
theorem choiceAfter_of_firstOk {parsers : List (Parser α)} {failure : Failure} {c next : Cursor}
    {value : α} (h : FirstOk parsers c value next) :
    choiceAfter failure parsers c = .ok value next := by
  obtain ⟨before, p, after, rfl, hp, hbefore⟩ := h
  induction before generalizing failure with
  | nil => rw [List.nil_append, choiceAfter, hp]
  | cons q before ih =>
    obtain ⟨failure', hq⟩ := hbefore q List.mem_cons_self
    rw [List.cons_append, choiceAfter, hq]
    exact ih fun r hr => hbefore r (List.mem_cons_of_mem _ hr)

/-- A choice takes the first parser that succeeds. -/
theorem choice_of_firstOk {parsers : List (Parser α)} {c next : Cursor} {value : α}
    (h : FirstOk parsers c value next) : choice parsers c = .ok value next := by
  obtain ⟨before, p, after, rfl, hp, hbefore⟩ := h
  cases before with
  | nil => rw [List.nil_append, choice, hp]
  | cons q before =>
    obtain ⟨failure, hq⟩ := hbefore q List.mem_cons_self
    rw [List.cons_append, choice, hq]
    exact choiceAfter_of_firstOk
      ⟨before, p, after, rfl, hp, fun r hr => hbefore r (List.mem_cons_of_mem _ hr)⟩

/-- A choice accepts what its first parser accepts. -/
theorem Accepts.choice_head {p : Parser α} {text after : List Char} {value : α}
    (hp : p.Accepts text value after) (rest : List (Parser α)) :
    (choice (p :: rest)).Accepts text value after :=
  fun offset => choice_of_firstOk (.head (hp offset))

/-- A choice goes on behind a parser that rejects the text. -/
theorem Accepts.choice_tail {p : Parser α} {rest : List (Parser α)} {text after : List Char}
    {value : α} (hp : p.Rejects (text ++ after)) (h : (choice rest).Accepts text value after) :
    (choice (p :: rest)).Accepts text value after := by
  intro offset
  obtain ⟨failure, hfailed⟩ := hp offset
  exact choice_of_firstOk (.tail hfailed (choice_eq_ok (h offset)))

theorem Accepts.option? {p : Parser α} {text after : List Char} {value : α}
    (hp : p.Accepts text value after) : p.option?.Accepts text (some value) after :=
  (hp.map some).orElse _

/-- Where a parser rejects the text, its optional form takes nothing. -/
theorem Rejects.option? {p : Parser α} {after : List Char} (hp : p.Rejects after) :
    p.option?.Accepts [] none after := by
  refine Accepts.orElse_of_rejects ?_ (accepts_pure none after)
  intro offset
  obtain ⟨failure, hfailed⟩ := hp offset
  refine ⟨failure, ?_⟩
  rw [map_apply, List.nil_append, hfailed]
  rfl

theorem Rejects.option {p : Parser α} {after : List Char} (hp : p.Rejects after) (default : α) :
    (p.option default).Accepts [] default after :=
  Accepts.orElse_of_rejects hp (accepts_pure default after)

/-- A slice gives the text that was read as it stands. -/
theorem Accepts.slice {p : Parser α} {text after : List Char} {value : α}
    (hp : p.Accepts text value after) : (slice p).Accepts text (String.ofList text) after := by
  intro offset
  have hreads : Cursor.Reads ⟨offset, text ++ after, false⟩ text
      ⟨offset + text.length, after, false⟩ := ⟨rfl, rfl, id⟩
  rw [Parser.slice, hp offset]
  dsimp only
  rw [hreads.upTo_eq]

/-- On the text, with `blanks` and `rest` behind it, the parser answers the value; it may take some
of the blanks with it. -/
def AcceptsLoosely (p : Parser α) (text : List Char) (value : α) (blanks rest : List Char) : Prop :=
  ∃ taken left, blanks = taken ++ left ∧ p.Accepts (text ++ taken) value (left ++ rest)

/-- What is read up to the blanks is read loosely. -/
theorem Accepts.loosely {p : Parser α} {text blanks rest : List Char} {value : α}
    (h : p.Accepts text value (blanks ++ rest)) : p.AcceptsLoosely text value blanks rest := by
  refine ⟨[], blanks, rfl, ?_⟩
  rwa [List.append_nil]

/-- A function of the value does not change how blanks are taken. -/
theorem AcceptsLoosely.map {p : Parser α} {text blanks rest : List Char} {value : α} (f : α → β)
    (h : p.AcceptsLoosely text value blanks rest) :
    (f <$> p).AcceptsLoosely text (f value) blanks rest := by
  obtain ⟨taken, left, hblanks, haccepts⟩ := h
  exact ⟨taken, left, hblanks, haccepts.map f⟩

/-- The blanks are left to the last of two parsers. -/
theorem AcceptsLoosely.bind {p : Parser α} {f : α → Parser β} {s t blanks rest : List Char}
    {value : α} {value' : β} (hp : p.Accepts s value (t ++ (blanks ++ rest)))
    (hf : (f value).AcceptsLoosely t value' blanks rest) :
    (p >>= f).AcceptsLoosely (s ++ t) value' blanks rest := by
  obtain ⟨taken, left, rfl, haccepts⟩ := hf
  refine ⟨taken, left, rfl, ?_⟩
  rw [List.append_assoc] at hp ⊢
  rw [← List.append_assoc] at hp
  exact hp.bind haccepts

/-- Giving another value takes no more blanks. -/
theorem AcceptsLoosely.bind_pure {p : Parser α} {f : α → β} {text blanks rest : List Char}
    {value : α} (h : p.AcceptsLoosely text value blanks rest) :
    (p >>= fun found => pure (f found)).AcceptsLoosely text (f value) blanks rest := by
  obtain ⟨taken, left, hblanks, haccepts⟩ := h
  exact ⟨taken, left, hblanks, haccepts.bind_pure⟩

/-- The optional form of a parser accepts what the parser does. -/
theorem AcceptsLoosely.option? {p : Parser α} {text blanks rest : List Char} {value : α}
    (h : p.AcceptsLoosely text value blanks rest) :
    p.option?.AcceptsLoosely text (some value) blanks rest := by
  obtain ⟨taken, left, hblanks, haccepts⟩ := h
  exact ⟨taken, left, hblanks, haccepts.option?⟩

/-- A first alternative that accepts the text is taken. -/
theorem AcceptsLoosely.orElse {p : Parser α} {text blanks rest : List Char} {value : α}
    (h : p.AcceptsLoosely text value blanks rest) (q : Parser α) :
    (p <|> q).AcceptsLoosely text value blanks rest := by
  obtain ⟨taken, left, hblanks, haccepts⟩ := h
  exact ⟨taken, left, hblanks, haccepts.orElse q⟩

/-- A second alternative is taken where the first rejects the text. -/
theorem AcceptsLoosely.orElse_of_rejects {p q : Parser α} {text blanks rest : List Char} {value : α}
    (hp : p.Rejects (text ++ (blanks ++ rest))) (hq : q.AcceptsLoosely text value blanks rest) :
    (p <|> q).AcceptsLoosely text value blanks rest := by
  obtain ⟨taken, left, rfl, haccepts⟩ := hq
  refine ⟨taken, left, rfl, .orElse_of_rejects ?_ haccepts⟩
  rwa [List.append_assoc] at hp ⊢

/-- A choice accepts what its first parser accepts. -/
theorem AcceptsLoosely.choice_head {p : Parser α} {text blanks rest : List Char} {value : α}
    (h : p.AcceptsLoosely text value blanks rest) (later : List (Parser α)) :
    (choice (p :: later)).AcceptsLoosely text value blanks rest := by
  obtain ⟨taken, left, hblanks, haccepts⟩ := h
  exact ⟨taken, left, hblanks, haccepts.choice_head later⟩

/-- A choice goes on behind a parser that rejects the text. -/
theorem AcceptsLoosely.choice_tail {p : Parser α} {later : List (Parser α)}
    {text blanks rest : List Char} {value : α} (hp : p.Rejects (text ++ (blanks ++ rest)))
    (h : (choice later).AcceptsLoosely text value blanks rest) :
    (choice (p :: later)).AcceptsLoosely text value blanks rest := by
  obtain ⟨taken, left, rfl, haccepts⟩ := h
  refine ⟨taken, left, rfl, .choice_tail ?_ haccepts⟩
  rwa [List.append_assoc] at hp ⊢

/-- A choice goes on behind several parsers that reject the text. -/
theorem AcceptsLoosely.choice_append {before later : List (Parser α)} {text blanks rest : List Char}
    {value : α} (hbefore : ∀ p ∈ before, p.Rejects (text ++ (blanks ++ rest)))
    (h : (choice later).AcceptsLoosely text value blanks rest) :
    (choice (before ++ later)).AcceptsLoosely text value blanks rest := by
  induction before with
  | nil => exact h
  | cons p before ih =>
    obtain ⟨hp, hbefore⟩ := List.forall_mem_cons.1 hbefore
    exact .choice_tail hp (ih hbefore)

/-- Steps that read something, up to a place where the parser fails. -/
inductive Steps (p : Parser α) : Cursor → List α → Cursor → Prop
  | stop {c : Cursor} {failure : Failure} : p c = .failed failure → Steps p c [] c
  | step {c mid last : Cursor} {value : α} {values : List α} {text : List Char} :
      p c = .ok value mid → c.Reads text mid → text ≠ [] → Steps p mid values last →
      Steps p c (value :: values) last

/-- A repetition answers what its steps answer. -/
theorem many_of_steps {p : Parser α} {c last : Cursor} {values : List α}
    (h : Steps p c values last) : many p c = .ok values last := by
  suffices hwithin : ∀ budget : List Char, c.rest.length ≤ budget.length →
      manyWithin p budget c = .ok values last from hwithin c.rest le_rfl
  induction h with
  | stop hfailed =>
    intro budget _
    rw [manyWithin, hfailed]
  | @step c mid last value values text hok hreads hne _ ih =>
    intro budget hbudget
    have hlength := hreads.length_rest
    have hpos : 0 < text.length := List.length_pos_iff.2 hne
    have hoffset : mid.offset ≠ c.offset := by
      have := hreads.offset_eq
      omega
    cases budget with
    | nil => simp only [List.length_nil] at hbudget; omega
    | cons x budget =>
      rw [List.length_cons] at hbudget
      rw [manyWithin, hok]
      dsimp only
      rw [if_neg hoffset, ih budget (by omega)]
      rfl

/-- At least one turn of a repetition is what `many1` asks for. -/
theorem many1_of_steps {p : Parser α} {c last : Cursor} {values : List α}
    (h : Steps p c values last) (hne : values ≠ []) : many1 p c = .ok values last := by
  cases h with
  | stop _ => exact absurd rfl hne
  | step hok _ _ hsteps =>
    rw [many1, bind_of_ok hok, bind_of_ok (many_of_steps hsteps)]
    rfl

/-- On the text the parser can be repeated: it accepts the values one by one, and rejects `rest`,
which they leave. -/
inductive Repeats (p : Parser α) : List Char → List α → List Char → Prop
  | stop {rest : List Char} : p.Rejects rest → Repeats p rest [] rest
  | step {text mid rest : List Char} {value : α} {values : List α} : p.Accepts text value mid →
      text ≠ [] → Repeats p mid values rest → Repeats p (text ++ mid) (value :: values) rest

/-- A repetition reads as many turns as there are, up to where the next one is rejected. -/
theorem Repeats.many {p : Parser α} {text rest : List Char} {values : List α}
    (h : Repeats p text values rest) :
    ∃ read, text = read ++ rest ∧ (many p).Accepts read values rest := by
  suffices hsteps : ∃ read, text = read ++ rest ∧ ∀ offset,
      Steps p ⟨offset, text, false⟩ values ⟨offset + read.length, rest, false⟩ by
    obtain ⟨read, rfl, hsteps⟩ := hsteps
    exact ⟨read, rfl, fun offset => many_of_steps (hsteps offset)⟩
  induction h with
  | stop hrejects =>
    refine ⟨[], rfl, fun offset => ?_⟩
    obtain ⟨failure, hfailed⟩ := hrejects offset
    exact .stop hfailed
  | @step text mid rest value values haccepts hne _ ih =>
    obtain ⟨read, rfl, hsteps⟩ := ih
    refine ⟨text ++ read, (List.append_assoc ..).symm, fun offset => ?_⟩
    rw [List.length_append, ← Nat.add_assoc]
    exact .step (haccepts offset) ⟨rfl, rfl, id⟩ hne (hsteps _)

/-- So does `many1`, if there is a turn. -/
theorem Repeats.many1 {p : Parser α} {text rest : List Char} {values : List α}
    (h : Repeats p text values rest) (hne : values ≠ []) :
    ∃ read, text = read ++ rest ∧ (many1 p).Accepts read values rest := by
  cases h with
  | stop _ => exact absurd rfl hne
  | step haccepts _ hlater =>
    obtain ⟨read, rfl, hmany⟩ := hlater.many
    exact ⟨_, (List.append_assoc ..).symm, haccepts.bind hmany.bind_pure⟩

/-- The turns of a repetition read one stretch of the text. -/
theorem Steps.reads {p : Parser α} {c last : Cursor} {values : List α} (h : Steps p c values last) :
    ∃ text, c.Reads text last := by
  induction h with
  | stop _ => exact ⟨[], .nil _⟩
  | step _ hreads _ _ ih =>
    obtain ⟨text, hlater⟩ := ih
    exact ⟨_, hreads.append hlater⟩

/-! ## Rejection -/

/-- What rejects a text rejects it with whatever follows. -/
theorem Rejects.bind {p : Parser α} {text : List Char} (hp : p.Rejects text) (f : α → Parser β) :
    (p >>= f).Rejects text := by
  intro offset
  obtain ⟨failure, hfailed⟩ := hp offset
  exact ⟨failure, bind_of_failed hfailed⟩

/-- One parser after another rejects a text if the second rejects what the first leaves. -/
theorem Accepts.bind_rejects {p : Parser α} {f : α → Parser β} {text after : List Char} {value : α}
    (hp : p.Accepts text value after) (hf : (f value).Rejects after) :
    (p >>= f).Rejects (text ++ after) := by
  intro offset
  obtain ⟨failure, hfailed⟩ := hf (offset + text.length)
  exact ⟨failure, by rw [bind_of_ok (hp offset), hfailed]⟩

/-- A parser that fails after a part that reads nothing. -/
theorem Accepts.nil_bind_rejects {p : Parser α} {f : α → Parser β} {text : List Char} {value : α}
    (hp : p.Accepts [] value text) (hf : (f value).Rejects text) : (p >>= f).Rejects text :=
  hp.bind_rejects hf

/-- A function of the value does not change what is rejected. -/
theorem Rejects.map {p : Parser α} {text : List Char} (hp : p.Rejects text) (f : α → β) :
    (f <$> p).Rejects text := by
  intro offset
  obtain ⟨failure, hfailed⟩ := hp offset
  exact ⟨failure, by rw [map_apply, hfailed]; rfl⟩

/-- Two alternatives reject what both of them reject. -/
theorem Rejects.orElse {p q : Parser α} {text : List Char} (hp : p.Rejects text)
    (hq : q.Rejects text) : (p <|> q).Rejects text := by
  intro offset
  obtain ⟨failure, hfailed⟩ := hp offset
  obtain ⟨failure', hfailed'⟩ := hq offset
  refine ⟨failure.furthest failure', ?_⟩
  show Parser.orElse p q _ = _
  rw [Parser.orElse, hfailed, hfailed']

/-- A choice rejects what all of its parsers reject. -/
theorem Rejects.choice {parsers : List (Parser α)} {text : List Char}
    (h : ∀ p ∈ parsers, p.Rejects text) : (choice parsers).Rejects text := by
  have hafter : ∀ {parsers : List (Parser α)} {offset : Nat}, (∀ p ∈ parsers, p.Rejects text) →
      ∀ failure, ∃ failure',
        choiceAfter failure parsers ⟨offset, text, false⟩ = .failed failure' := by
    intro parsers offset h
    induction parsers with
    | nil => exact fun failure => ⟨failure, rfl⟩
    | cons p rest ih =>
      intro failure
      obtain ⟨failure', hfailed⟩ := h p List.mem_cons_self offset
      rw [choiceAfter, hfailed]
      exact ih (fun q hq => h q (List.mem_cons_of_mem _ hq)) _
  intro offset
  cases parsers with
  | nil => exact ⟨_, rfl⟩
  | cons p rest =>
    obtain ⟨failure, hfailed⟩ := h p List.mem_cons_self offset
    rw [Parser.choice, hfailed]
    exact hafter (fun q hq => h q (List.mem_cons_of_mem _ hq)) _

/-- A slice rejects what its parser rejects. -/
theorem Rejects.slice {p : Parser α} {text : List Char} (hp : p.Rejects text) :
    (slice p).Rejects text := by
  intro offset
  obtain ⟨failure, hfailed⟩ := hp offset
  exact ⟨failure, by rw [Parser.slice, hfailed]⟩

/-! ## Stopping -/

/-- At the start of the text the parser stops the run. -/
def StopsOn (p : Parser α) (text : List Char) (stop : Stop) : Prop :=
  ∀ offset, p ⟨offset, text, false⟩ = .stopped stop

section
variable {p q : Parser α} {text after : List Char} {value : α} {stop : Stop}

theorem StopsOn.bind (h : p.StopsOn text stop) (f : α → Parser β) : (p >>= f).StopsOn text stop :=
  fun offset => bind_of_stopped (h offset)

theorem Accepts.bind_stopsOn {f : α → Parser β} (hp : p.Accepts text value after)
    (hf : (f value).StopsOn after stop) : (p >>= f).StopsOn (text ++ after) stop :=
  fun offset => (bind_of_ok (hp offset)).trans (hf _)

theorem StopsOn.map (h : p.StopsOn text stop) (f : α → β) : (f <$> p).StopsOn text stop :=
  fun offset => by rw [map_apply, h offset, Reply.map]

theorem StopsOn.orElse (h : p.StopsOn text stop) (q : Parser α) : (p <|> q).StopsOn text stop :=
  fun offset => orElse_of_stopped (h offset)

/-- A second alternative stops the run where the first rejects the text. -/
theorem StopsOn.orElse_of_rejects (hp : p.Rejects text) (h : q.StopsOn text stop) :
    (p <|> q).StopsOn text stop := by
  intro offset
  obtain ⟨failure, hfailed⟩ := hp offset
  show Parser.orElse p q _ = _
  rw [Parser.orElse, hfailed, h offset]

/-- A choice is stopped the same way whatever failure was seen before. -/
theorem choiceAfter_stopped {parsers : List (Parser α)} {failure : Failure} {c : Cursor}
    (h : choiceAfter failure parsers c = .stopped stop) (failure' : Failure) :
    choiceAfter failure' parsers c = .stopped stop := by
  induction parsers generalizing failure failure' with
  | nil => cases h
  | cons p rest ih =>
    rw [choiceAfter] at h ⊢
    split at h
    · exact ih h _
    · exact h

/-- A choice is stopped where its first parser is. -/
theorem StopsOn.choice_head (h : p.StopsOn text stop) (rest : List (Parser α)) :
    (choice (p :: rest)).StopsOn text stop := by
  intro offset
  rw [choice, h offset]

/-- Or where a later one is, if those before it reject the text. -/
theorem StopsOn.choice_tail {rest : List (Parser α)} (hp : p.Rejects text)
    (h : (choice rest).StopsOn text stop) : (choice (p :: rest)).StopsOn text stop := by
  intro offset
  obtain ⟨failure, hfailed⟩ := hp offset
  have hrest := h offset
  rw [choice, hfailed]
  cases rest with
  | nil => cases hrest
  | cons q rest =>
    rw [choice] at hrest
    show choiceAfter failure (q :: rest) _ = _
    rw [choiceAfter]
    split at hrest
    · exact choiceAfter_stopped hrest _
    · exact hrest

/-- The same behind several parsers that reject the text. -/
theorem StopsOn.choice_append {before rest : List (Parser α)}
    (hbefore : ∀ p ∈ before, p.Rejects text) (h : (choice rest).StopsOn text stop) :
    (choice (before ++ rest)).StopsOn text stop := by
  induction before with
  | nil => exact h
  | cons p before ih =>
    obtain ⟨hp, hbefore⟩ := List.forall_mem_cons.1 hbefore
    exact .choice_tail hp (ih hbefore)

theorem StopsOn.option? (h : p.StopsOn text stop) : p.option?.StopsOn text stop :=
  (h.map some).orElse _

theorem StopsOn.slice (h : p.StopsOn text stop) : (slice p).StopsOn text stop :=
  fun offset => by rw [Parser.slice, h offset]

/-- A repetition is stopped in its first step. -/
theorem StopsOn.many (h : p.StopsOn text stop) : (many p).StopsOn text stop := by
  intro offset
  rw [Parser.many, manyWithin, h offset]

end

/-- The parser is never stopped for one of the reasons. -/
class Avoids (stops : Stop → Prop) (p : Parser α) : Prop where
  ne_stopped : ∀ c stop, stops stop → p c ≠ .stopped stop

/-- The parser never finds the text too deep. -/
abbrev Shallow (p : Parser α) : Prop := Avoids (· = .tooDeep) p

/-- The parser is never stopped. -/
abbrev Unstopped (p : Parser α) : Prop := Avoids (fun _ => True) p

theorem Shallow.ne_tooDeep {p : Parser α} [Shallow p] (c : Cursor) : p c ≠ .stopped .tooDeep :=
  @Avoids.ne_stopped _ (· = .tooDeep) p _ c .tooDeep rfl

theorem Unstopped.ne_stopped {p : Parser α} [Unstopped p] (c : Cursor) (stop : Stop) :
    p c ≠ .stopped stop :=
  @Avoids.ne_stopped _ (fun _ => True) p _ c stop trivial

/-- What a parser that is never stopped does not accept, it rejects. -/
theorem Unstopped.rejects {p : Parser α} [Unstopped p] {text : List Char}
    (h : ∀ offset value next, p ⟨offset, text, false⟩ ≠ .ok value next) : p.Rejects text := by
  intro offset
  cases hp : p ⟨offset, text, false⟩ with
  | ok value next => exact absurd hp (h offset value next)
  | failed failure => exact ⟨failure, rfl⟩
  | stopped stop => exact absurd hp (Unstopped.ne_stopped _ _)

/-- A parser that reads something whenever it succeeds can be repeated until it fails. -/
theorem exists_steps {p : Parser α} [Unstopped p]
    (hp : ∀ ⦃c next : Cursor⦄ ⦃value : α⦄, p c = .ok value next →
      ∃ text, c.Reads text next ∧ text ≠ []) (c : Cursor) :
    ∃ values last, Steps p c values last := by
  induction hlength : c.rest.length using Nat.strong_induction_on generalizing c with
  | _ n ih =>
    cases hok : p c with
    | ok value mid =>
      obtain ⟨text, hreads, hne⟩ := hp hok
      have hpos : 0 < text.length := List.length_pos_iff.2 hne
      have hlt : mid.rest.length < n := by
        rw [← hlength, hreads.length_rest]
        omega
      obtain ⟨values, last, hsteps⟩ := ih _ hlt mid rfl
      exact ⟨value :: values, last, .step hok hreads hne hsteps⟩
    | failed failure => exact ⟨[], c, .stop hok⟩
    | stopped stop => exact absurd hok (Unstopped.ne_stopped _ _)

/-- A repetition that has answered has taken steps up to a failure. -/
theorem steps_of_many {p : Parser α}
    (hp : ∀ ⦃c next : Cursor⦄ ⦃value : α⦄, p c = .ok value next →
      ∃ text, c.Reads text next ∧ text ≠ []) {c last : Cursor} {values : List α}
    (h : many p c = .ok values last) : Steps p c values last := by
  suffices hwithin : ∀ (budget : List Char) {c : Cursor} {values : List α},
      c.rest.length ≤ budget.length → manyWithin p budget c = .ok values last →
      Steps p c values last from hwithin c.rest le_rfl h
  intro budget c values hbudget h
  fun_induction manyWithin p budget c generalizing values with
  | case1 budget c failure hfailed =>
    cases h
    exact .stop hfailed
  | case2 => cases h
  | case3 budget c value next hok hstill =>
    obtain ⟨text, hreads, hne⟩ := hp hok
    have hpos := List.length_pos_iff.2 hne
    have hoffset := hreads.offset_eq
    omega
  | case4 c value next hok hmoved =>
    -- no characters are left, so this step has read nothing
    obtain ⟨text, hreads, hne⟩ := hp hok
    have hpos := List.length_pos_iff.2 hne
    have hlength := hreads.length_rest
    rw [List.length_nil] at hbudget
    omega
  | case5 c value next hok hmoved x budget ih =>
    obtain ⟨text, hreads, hne⟩ := hp hok
    have hpos := List.length_pos_iff.2 hne
    have hlength := hreads.length_rest
    rw [List.length_cons] at hbudget
    cases hlater : manyWithin p budget next with
    | ok later last' =>
      rw [hlater] at h
      cases h
      exact .step hok hreads hne (ih (by omega) hlater)
    | failed failure => rw [hlater] at h; cases h
    | stopped stop => rw [hlater] at h; cases h

/-- A repetition that has answered has taken steps up to a failure. -/
theorem steps_of_many1 {p : Parser α}
    (hp : ∀ ⦃c next : Cursor⦄ ⦃value : α⦄, p c = .ok value next →
      ∃ text, c.Reads text next ∧ text ≠ []) {c last : Cursor} {values : List α}
    (h : many1 p c = .ok values last) : Steps p c values last ∧ values ≠ [] := by
  obtain ⟨first, mid, hfirst, h⟩ := bind_eq_ok h
  obtain ⟨rest, mid', hrest, h⟩ := bind_eq_ok h
  obtain ⟨rfl, rfl⟩ := pure_eq_ok h
  obtain ⟨text, hreads, hne⟩ := hp hfirst
  exact ⟨.step hfirst hreads hne (steps_of_many hp hrest), List.cons_ne_nil _ _⟩

section
variable {stops : Stop → Prop} {p q : Parser α}

instance (value : α) : Avoids stops (pure value : Parser α) := ⟨fun _ _ _ h => nomatch h⟩

instance {f : α → Parser β} [Avoids stops p] [∀ value, Avoids stops (f value)] :
    Avoids stops (p >>= f) where
  ne_stopped c stop hstop := by
    show Parser.bind p f c ≠ .stopped stop
    unfold Parser.bind
    split
    · exact Avoids.ne_stopped _ _ hstop
    · exact fun h => nomatch h
    · next hp =>
      rintro ⟨⟩
      exact absurd hp (Avoids.ne_stopped _ _ hstop)

instance {f : α → β} [Avoids stops p] : Avoids stops (f <$> p) where
  ne_stopped c stop hstop := by
    rw [map_apply]
    cases hp : p c with
    | ok value next => exact fun h => nomatch h
    | failed failure => exact fun h => nomatch h
    | stopped reason =>
      rintro ⟨⟩
      exact absurd hp (Avoids.ne_stopped _ _ hstop)

instance [Avoids stops p] [Avoids stops q] : Avoids stops (p <|> q) where
  ne_stopped c stop hstop := by
    show Parser.orElse p q c ≠ .stopped stop
    unfold Parser.orElse
    split
    · split
      · exact fun h => nomatch h
      · exact Avoids.ne_stopped _ _ hstop
    · exact Avoids.ne_stopped _ _ hstop

/-- A choice is not stopped where none of its parsers is, whatever failure was seen before. -/
theorem choiceAfter_ne_stopped {parsers : List (Parser α)} (h : ∀ p ∈ parsers, Avoids stops p)
    (failure : Failure) (c : Cursor) {stop : Stop} (hstop : stops stop) :
    choiceAfter failure parsers c ≠ .stopped stop := by
  induction parsers generalizing failure with
  | nil => exact fun h => nomatch h
  | cons p rest ih =>
    have := h p List.mem_cons_self
    rw [choiceAfter]
    split
    · exact ih (fun q hq => h q (List.mem_cons_of_mem _ hq)) _
    · exact Avoids.ne_stopped _ _ hstop

/-- A choice is not stopped where none of its parsers is. -/
theorem avoids_choice {parsers : List (Parser α)} (h : ∀ p ∈ parsers, Avoids stops p) :
    Avoids stops (choice parsers) where
  ne_stopped c stop hstop := by
    cases parsers with
    | nil => exact fun h => nomatch h
    | cons p rest =>
      have := h p List.mem_cons_self
      rw [choice]
      split
      · exact choiceAfter_ne_stopped (fun q hq => h q (List.mem_cons_of_mem _ hq)) _ _ hstop
      · exact Avoids.ne_stopped _ _ hstop

instance [Avoids stops p] : Avoids stops (many p) where
  ne_stopped c stop hstop := by
    suffices hwithin : ∀ (budget : List Char) (c : Cursor),
        manyWithin p budget c ≠ .stopped stop from hwithin c.rest c
    intro budget c
    fun_induction manyWithin p budget c with
    | case1 | case3 | case4 => exact fun h => nomatch h
    | case2 budget c reason hp =>
      rintro ⟨⟩
      exact absurd hp (Avoids.ne_stopped _ _ hstop)
    | case5 c value next hp hmoved x budget ih =>
      cases hlater : manyWithin p budget next with
      | ok later last => exact fun h => nomatch h
      | failed failure => exact fun h => nomatch h
      | stopped reason =>
        rintro ⟨⟩
        exact absurd hlater ih

instance [Avoids stops p] : Avoids stops (many1 p) :=
  inferInstanceAs (Avoids stops (p >>= fun first => many p >>= fun rest => pure (first :: rest)))

instance [Avoids stops p] {default : α} : Avoids stops (p.option default) :=
  inferInstanceAs (Avoids stops (p <|> pure default))

instance [Avoids stops p] : Avoids stops p.option? :=
  inferInstanceAs (Avoids stops (some <$> p <|> pure none))

instance [Avoids stops p] : Avoids stops (slice p) where
  ne_stopped c stop hstop := by
    unfold slice
    split
    · exact fun h => nomatch h
    · exact fun h => nomatch h
    · next hp =>
      rintro ⟨⟩
      exact absurd hp (Avoids.ne_stopped _ _ hstop)

end

/-- The optional form of a parser that is never stopped always succeeds. -/
theorem option?_total {p : Parser α} [Unstopped p] (c : Cursor) :
    ∃ value next, p.option? c = .ok value next := by
  cases hp : p c with
  | ok value next => exact ⟨some value, next, orElse_of_ok (by rw [map_apply, hp]; rfl)⟩
  | failed failure =>
    refine ⟨none, c, ?_⟩
    show Parser.orElse (some <$> p) (pure none) c = _
    rw [Parser.orElse, map_apply, hp]
    rfl
  | stopped stop => exact absurd hp (Unstopped.ne_stopped _ _)

/-! ## Characters and runs -/

/-- The text is empty, or its first character does not satisfy the predicate. -/
def StopsAt (predicate : Char → Bool) (text : List Char) : Prop :=
  ∀ x ∈ text.head?, predicate x = false

theorem stopsAt_nil (predicate : Char → Bool) : StopsAt predicate [] := by
  simp [StopsAt]

theorem stopsAt_cons {predicate : Char → Bool} {x : Char} {rest : List Char} :
    StopsAt predicate (x :: rest) ↔ predicate x = false := by
  simp [StopsAt]

/-- A text at which a class of characters stops also stops a smaller class. -/
theorem StopsAt.mono {predicate predicate' : Char → Bool} {text : List Char}
    (h : StopsAt predicate text) (hle : ∀ x, predicate' x = true → predicate x = true) :
    StopsAt predicate' text := by
  intro x hx
  have hx' := h x hx
  rw [Bool.eq_false_iff] at hx' ⊢
  exact fun hpos => hx' (hle x hpos)

/-- Only the first character matters. -/
theorem StopsAt.append {predicate : Char → Bool} {text : List Char} (h : StopsAt predicate text)
    (hne : text ≠ []) (after : List Char) : StopsAt predicate (text ++ after) := by
  obtain ⟨x, rest, rfl⟩ := List.exists_cons_of_ne_nil hne
  exact stopsAt_cons.2 (stopsAt_cons.1 h)

/-- What is left behind a run of characters stops the run. -/
theorem stopsAt_dropWhile (predicate : Char → Bool) (text : List Char) :
    StopsAt predicate (text.dropWhile predicate) := by
  intro x hx
  have hhead := List.head?_dropWhile_not predicate text
  rw [Option.mem_def.1 hx] at hhead
  exact hhead

/-- A run of characters ends where the text goes on with another one. -/
theorem takeWhile_append_of_stopsAt {predicate : Char → Bool} {text after : List Char}
    (htext : ∀ x ∈ text, predicate x = true) (hafter : StopsAt predicate after) :
    (text ++ after).takeWhile predicate = text ∧ (text ++ after).dropWhile predicate = after := by
  have hstop : after.takeWhile predicate = [] ∧ after.dropWhile predicate = after := by
    cases after with
    | nil => exact ⟨rfl, rfl⟩
    | cons x rest =>
      have hx : ¬predicate x = true := by rw [stopsAt_cons.1 hafter]; decide
      exact ⟨List.takeWhile_cons_of_neg hx, List.dropWhile_cons_of_neg hx⟩
  rw [List.takeWhile_append_of_pos htext, List.dropWhile_append_of_pos htext, hstop.1, hstop.2]
  exact ⟨List.append_nil text, rfl⟩

/-- A run of characters is read up to where it stops. -/
theorem takeWhile_accepts {predicate : Char → Bool} {text after : List Char}
    (htext : ∀ x ∈ text, predicate x = true) (hafter : StopsAt predicate after) :
    (takeWhile predicate).Accepts text (String.ofList text) after := by
  intro offset
  obtain ⟨htake, hdrop⟩ := takeWhile_append_of_stopsAt htext hafter
  simp only [takeWhile, Cursor.advance, htake, hdrop]

/-- So is a run that must not be empty. -/
theorem takeWhile1_accepts {predicate : Char → Bool} {expected : String} {text after : List Char}
    (hne : text ≠ []) (htext : ∀ x ∈ text, predicate x = true) (hafter : StopsAt predicate after) :
    (takeWhile1 predicate expected).Accepts text (String.ofList text) after := by
  intro offset
  obtain ⟨htake, hdrop⟩ := takeWhile_append_of_stopsAt htext hafter
  simp only [takeWhile1, Cursor.advance, htake, hdrop]

/-- Blanks are skipped up to what is none. -/
theorem skipSpaces_accepts {blanks after : List Char} (hblanks : ∀ x ∈ blanks, isSpace x = true)
    (hafter : StopsAt isSpace after) : skipSpaces.Accepts blanks () after := by
  intro offset
  obtain ⟨htake, hdrop⟩ := takeWhile_append_of_stopsAt hblanks hafter
  simp only [skipSpaces, Cursor.advance, htake, hdrop]

/-- No blank is left behind skipped blanks. -/
theorem skipSpaces_stops {c next : Cursor} {value : Unit} (h : skipSpaces c = .ok value next) :
    StopsAt isSpace next.rest := by
  cases h
  exact stopsAt_dropWhile isSpace c.rest

/-- A character that satisfies the predicate is read, whatever follows it. -/
theorem satisfy_accepts {predicate : Char → Bool} {expected : String} {x : Char}
    (hx : predicate x = true) (after : List Char) :
    (satisfy predicate expected).Accepts [x] x after := by
  intro offset
  simp only [satisfy, List.cons_append, hx, if_true]
  rfl

/-- A literal is read where it stands. -/
theorem token_accepts (literal : String) (after : List Char) :
    (token literal).Accepts literal.toList literal after := by
  intro offset
  have hafter : Cursor.after? ⟨offset, literal.toList ++ after, false⟩ literal.toList =
      some ⟨offset + literal.toList.length, after, false⟩ := by
    rw [Cursor.after?, List.isPrefixOf?_eq_some_iff_append_eq.2 rfl]
    rfl
  rw [token, hafter]

instance {stops : Stop → Prop} (predicate : Char → Bool) (expected : String) :
    Avoids stops (satisfy predicate expected) where
  ne_stopped c stop _ := by
    unfold satisfy
    split
    · exact fun h => nomatch h
    · split <;> exact fun h => nomatch h

instance {stops : Stop → Prop} (predicate : Char → Bool) : Avoids stops (takeWhile predicate) :=
  ⟨fun _ _ _ h => nomatch h⟩

instance {stops : Stop → Prop} (predicate : Char → Bool) (expected : String) :
    Avoids stops (takeWhile1 predicate expected) where
  ne_stopped c stop _ := by
    unfold takeWhile1
    split <;> exact fun h => nomatch h

instance {stops : Stop → Prop} : Avoids stops skipSpaces := ⟨fun _ _ _ h => nomatch h⟩

instance {stops : Stop → Prop} (literal : String) : Avoids stops (token literal) where
  ne_stopped c stop _ := by
    unfold token
    split <;> exact fun h => nomatch h

/-- A literal is rejected where the text does not go on with it. -/
theorem token_rejects {literal : String} {text : List Char} (h : ¬literal.toList <+: text) :
    (token literal).Rejects text :=
  Unstopped.rejects fun _ _ _ hok => h ⟨_, (token_reads hok).1.rest_eq.symm⟩

theorem stopsAt_beq {x y : Char} (h : y ≠ x) (rest : List Char) : StopsAt (· == x) (y :: rest) :=
  stopsAt_cons.2 (beq_false_of_ne h)

/-- A character of a class is not one that is outside the class. -/
theorem stopsAt_beq_of_pos {predicate : Char → Bool} {x y : Char} (hy : predicate y = true)
    (hx : predicate x = false) (rest : List Char) : StopsAt (· == x) (y :: rest) := by
  refine stopsAt_beq ?_ rest
  rintro rfl
  rw [hy] at hx
  cases hx

/-- A word does not start with a character that no word starts with. -/
theorem IsWord.stopsAt {first later : Char → Bool} {text : List Char} {x : Char}
    (h : IsWord first later text) (hx : first x = false) (after : List Char) :
    StopsAt (· == x) (text ++ after) := by
  cases text with
  | nil => exact h.elim
  | cons head tail => exact stopsAt_beq_of_pos h.1 hx _

/-- A run that must not be empty is rejected where it would stop at once. -/
theorem takeWhile1_rejects {predicate : Char → Bool} {text : List Char}
    (h : StopsAt predicate text) (expected : String) :
    (takeWhile1 predicate expected).Rejects text := by
  intro offset
  have hrun := (takeWhile_append_of_stopsAt (List.forall_mem_nil _) h).1
  rw [List.nil_append] at hrun
  exact ⟨⟨offset, expected⟩, by simp only [takeWhile1, hrun]⟩

/-- A literal is rejected where its first character does not stand. -/
theorem token_rejects_of_head {literal : String} {x : Char} {text : List Char}
    (hliteral : literal.toList.head? = some x) (h : StopsAt (· == x) text) :
    (token literal).Rejects text := by
  refine token_rejects ?_
  rintro ⟨rest, rfl⟩
  have hx := h x (by simp [List.head?_append, hliteral])
  simp at hx

/-! ## Whole texts -/

/-- Does the parser read the whole text? -/
def consumes (p : Parser α) (text : String) : Bool :=
  match p (.start text.toList) with
  | .ok _ next => next.rest.isEmpty
  | _ => false

/-- Does the parser fail at the start of the text? -/
def fails (p : Parser α) (text : String) : Bool :=
  match p (.start text.toList) with
  | .failed _ => true
  | _ => false

/-- The parser fails at the start of the text, if that is the whole text. -/
def Fails (p : Parser α) (text : List Char) : Prop := ∃ failure, p (.start text) = .failed failure

/-- What fails on a text does not succeed on it. -/
theorem Fails.ne_ok {p : Parser α} {text : List Char} (h : p.Fails text) {value : α}
    {next : Cursor} : p (.start text) ≠ .ok value next := by
  obtain ⟨failure, hfailed⟩ := h
  simp [hfailed]

/-- A parser that consumes a text succeeds on it and leaves nothing. -/
theorem exists_of_consumes {p : Parser α} {text : String} (h : p.consumes text = true) :
    ∃ value next, p (.start text.toList) = .ok value next ∧ next.rest = [] := by
  unfold consumes at h
  split at h
  · next value next hok => exact ⟨value, next, hok, List.isEmpty_iff.1 h⟩
  · cases h

/-- The test of a failure decides it. -/
theorem fails_iff {p : Parser α} {text : String} :
    p.fails text = true ↔ p.Fails text.toList := by
  rw [fails, Fails]
  cases p (.start text.toList) <;> simp

/-- A slice fails only as its parser does. -/
theorem slice_eq_failed {p : Parser α} {c : Cursor} {failure : Failure}
    (h : slice p c = .failed failure) : p c = .failed failure := by
  unfold slice at h
  split at h
  · cases h
  · next hp =>
    cases h
    exact hp
  · cases h

theorem fails_of_slice_failed {p : Parser α} {text : List Char}
    (h : ∃ failure, slice p (.start text) = .failed failure) : p.Fails text :=
  h.imp fun _ => slice_eq_failed

/-! ## Words, numbers and quoted text -/

/-- A word is read up to where no later character of a word stands. -/
theorem word_accepts {first later : Char → Bool} {expected : String} {text after : List Char}
    (htext : IsWord first later text) (hafter : StopsAt later after) :
    (word first later expected).Accepts text (String.ofList text) after := by
  obtain _ | ⟨head, tail⟩ := text
  · exact htext.elim
  have hvalue : String.ofList (head :: tail) = head.toString ++ String.ofList tail := by
    rw [← String.toList_inj, String.toList_append, Char.toString_eq_singleton,
      String.toList_singleton, String.toList_ofList, String.toList_ofList]
    rfl
  rw [hvalue]
  exact (satisfy_accepts htext.1 _).bind (s := [head]) (takeWhile_accepts htext.2 hafter).bind_pure

theorem keyword_accepts {text after : List Char} (htext : IsKeyword text)
    (hafter : StopsAt isKeywordChar after) : keyword.Accepts text (String.ofList text) after :=
  word_accepts htext hafter

/-- A numeral is read up to where no digit stands. -/
theorem number_accepts {digits after : List Char} (hdigits : IsNumeral digits)
    (hafter : StopsAt Char.isDigit after) :
    number.Accepts digits (ofAsciiDigits digits) after := by
  obtain ⟨hne, hall, hlength⟩ := hdigits
  have hrun : (takeWhile1 Char.isDigit "number").Accepts digits (String.ofList digits) after :=
    takeWhile1_accepts hne hall hafter
  refine hrun.bind_nil fun offset => ?_
  rw [String.length_ofList, if_neg (by omega), String.toList_ofList]
  rfl

/-- A number stops the run where too many digits stand. -/
theorem number_stopsOn {digits after : List Char} (hdigits : IsOverlong digits)
    (hafter : StopsAt Char.isDigit after) :
    number.StopsOn (digits ++ after) (.notANumeral (String.ofList digits)) := by
  have hne := List.ne_nil_of_length_pos (Nat.zero_lt_of_lt hdigits.length_lt)
  have hlong := hdigits.length_lt
  refine (takeWhile1_accepts hne hdigits.isDigit hafter).bind_stopsOn fun offset => ?_
  rw [String.length_ofList, if_pos hlong]
  rfl

/-- So it does whatever follows the digits, which may be more of them. -/
theorem exists_number_stopsOn {digits : List Char} (h : IsOverlong digits) (rest : List Char) :
    ∃ stop, number.StopsOn (digits ++ rest) stop := by
  have hlonger : IsOverlong (digits ++ rest.takeWhile Char.isDigit) := by
    refine ⟨List.forall_mem_append.2 ⟨h.isDigit, fun _ hx => List.mem_takeWhile_imp hx⟩, ?_⟩
    exact List.length_append ▸ Nat.lt_add_right _ h.length_lt
  have hstops := number_stopsOn hlonger (stopsAt_dropWhile _ rest)
  rw [List.append_assoc, List.takeWhile_append_dropWhile] at hstops
  exact ⟨_, hstops⟩

/-- No digit is left behind a numeral. -/
theorem number_stops {c next : Cursor} {value : Nat} (h : number c = .ok value next) :
    StopsAt Char.isDigit next.rest := by
  obtain ⟨digits, mid, hdigits, h⟩ := bind_eq_ok h
  split at h
  · cases h
  obtain ⟨rfl, rfl⟩ := pure_eq_ok h
  unfold takeWhile1 at hdigits
  split at hdigits
  · cases hdigits
  · cases hdigits
    exact stopsAt_dropWhile Char.isDigit c.rest

/-- What can be quoted is read between its quotes, whatever follows them. -/
theorem quoted_accepts {quote : Char} {escapes : Bool} {text : List Char}
    (htext : Quotable quote escapes text) (after : List Char) :
    (quoted quote escapes).Accepts (quote :: text ++ [quote]) (String.ofList text) after := by
  intro offset
  have hsplit : splitAtQuote quote escapes (text ++ quote :: after) = some (text, after) :=
    splitAtQuote_eq_some_iff.2 ⟨rfl, htext⟩
  have hrest : quote :: text ++ [quote] ++ after = quote :: (text ++ quote :: after) := by simp
  rw [hrest]
  simp only [quoted, if_true, hsplit, Cursor.advance]
  simp

instance {stops : Stop → Prop} (first later : Char → Bool) (expected : String) :
    Avoids stops (word first later expected) := by
  unfold word
  infer_instance

instance {stops : Stop → Prop} : Avoids stops keyword := by
  unfold keyword
  infer_instance

instance : Shallow number where
  ne_stopped c stop hstop := by
    intro h
    obtain ⟨digits, -, -, hdigits⟩ := number_eq_stopped h
    cases hstop.symm.trans hdigits

instance {stops : Stop → Prop} (quote : Char) (escapes : Bool) :
    Avoids stops (quoted quote escapes) where
  ne_stopped c stop _ := by
    unfold quoted
    split
    · exact fun h => nomatch h
    · split
      · split <;> exact fun h => nomatch h
      · exact fun h => nomatch h

/-- Quoted text is rejected where no quote stands. -/
theorem quoted_rejects {quote : Char} {escapes : Bool} {text : List Char}
    (h : StopsAt (· == quote) text) : (quoted quote escapes).Rejects text := by
  refine Unstopped.rejects fun offset value next hok => ?_
  obtain rfl : text = _ := (quoted_reads hok).1.rest_eq
  have hquote := stopsAt_cons.1 h
  simp at hquote

/-- A keyword is rejected where no character of a word stands. -/
theorem keyword_rejects {text : List Char} (h : StopsAt isWordChar text) :
    keyword.Rejects text := by
  refine Unstopped.rejects fun offset value next hok => ?_
  obtain ⟨⟨hrest, -, -⟩, hword⟩ := keyword_reads hok
  cases hvalue : value.toList with
  | nil => rw [hvalue] at hword; exact hword.elim
  | cons head tail =>
    rw [hvalue] at hword hrest
    simp only [List.cons_append] at hrest
    have hhead := hword.1
    rw [h head (by simp [hrest])] at hhead
    cases hhead

end TypeScribe.Parser
