import TypeScribe.Proofs.Dump.Lexemes
import TypeScribe.Proofs.Parser.Built
import TypeScribe.Proofs.Parser.Recursion

/-!
# Parsers stay in the text

Where a parser of the library succeeds, it has read a stretch of the text, and where it fails, it
blames a place between its start and the end of the text; a numeral that stops it stands there too
(`Bounded`). Each combinator keeps this (`Bounded.bind`, `Bounded.orElse`, `Bounded.choice`,
`Bounded.many`), so it holds of every parser that is `Built`, and of a run from any place in a text:
`runAt_endsBetween`. A dump that cannot be read is therefore blamed at a place in its text, unless a
numeral in it is too long.
-/

namespace TypeScribe

/-- The place lies between the cursor and the end of the text. -/
def Cursor.Spans (c : Cursor) (offset : Nat) : Prop :=
  c.offset ≤ offset ∧ offset ≤ c.offset + c.rest.length

theorem Cursor.spans_self (c : Cursor) : c.Spans c.offset :=
  ⟨Nat.le_refl _, Nat.le_add_right _ _⟩

/-- What lies ahead of a later cursor lies ahead of an earlier one. -/
theorem Cursor.Reads.spans {c next : Cursor} {text : List Char} {offset : Nat}
    (h : c.Reads text next) (hspans : next.Spans offset) : c.Spans offset := by
  obtain ⟨hfirst, hlast⟩ := hspans
  have hoffset := h.offset_eq
  have hlength := h.length_rest
  exact ⟨by omega, by omega⟩

theorem Cursor.Reads.spans_offset {c next : Cursor} {text : List Char} (h : c.Reads text next) :
    c.Spans next.offset :=
  h.spans next.spans_self

/-- The digits stand ahead, and they are too many for a numeral. -/
structure Cursor.HasOverlong (c : Cursor) (digits : String) : Prop where
  overlong : Parser.IsOverlong digits.toList
  ahead : digits.toList <:+: c.rest

/-- A numeral that is too long at a later place stands in the text of an earlier one. -/
theorem Cursor.Reads.hasOverlong {c next : Cursor} {text : List Char} {digits : String}
    (h : c.Reads text next) (hdigits : next.HasOverlong digits) : c.HasOverlong digits := by
  refine ⟨hdigits.overlong, hdigits.ahead.trans ?_⟩
  rw [h.rest_eq]
  exact (List.suffix_append _ _).isInfix

/-- Of two failures one is reported. -/
theorem Failure.furthest_eq (left right : Failure) :
    left.furthest right = left ∨ left.furthest right = right := by
  unfold Failure.furthest
  split
  · exact .inl rfl
  · exact .inr rfl

namespace Parser

variable {α β : Type}

/-! ## How composed parsers fail -/

/-- An alternative fails when both its parts do. -/
theorem orElse_eq_failed {p q : Parser α} {c : Cursor} {failure : Failure}
    (h : (p <|> q) c = .failed failure) :
    ∃ left right, p c = .failed left ∧ q c = .failed right ∧ failure = left.furthest right := by
  change Parser.orElse p q c = .failed failure at h
  unfold Parser.orElse at h
  split at h
  · next left hp =>
    split at h
    · next right hq =>
      cases h
      exact ⟨left, right, hp, hq, rfl⟩
    · next hq => exact absurd h (hq failure)
  · next hp => exact absurd h (hp failure)

/-- A choice fails as one of its parsers does, or as was seen before. -/
theorem choiceAfter_eq_failed {parsers : List (Parser α)} {c : Cursor} {before failure : Failure}
    (h : choiceAfter before parsers c = .failed failure) :
    failure = before ∨ ∃ p ∈ parsers, p c = .failed failure := by
  induction parsers generalizing before with
  | nil =>
    cases h
    exact .inl rfl
  | cons p rest ih =>
    rw [choiceAfter] at h
    split at h
    · next next hp =>
      rcases ih h with rfl | ⟨q, hq, hfailed⟩
      · rcases before.furthest_eq next with heq | heq <;> rw [heq]
        · exact .inl rfl
        · exact .inr ⟨p, List.mem_cons_self, hp⟩
      · exact .inr ⟨q, List.mem_cons_of_mem _ hq, hfailed⟩
    · next hp => exact absurd h (hp failure)

/-- A choice reports the failure of one of its parsers; of none, it fails where it is. -/
theorem choice_eq_failed {parsers : List (Parser α)} {c : Cursor} {failure : Failure}
    (h : choice parsers c = .failed failure) :
    failure.offset = c.offset ∨ ∃ p ∈ parsers, p c = .failed failure := by
  cases parsers with
  | nil =>
    cases h
    exact .inl rfl
  | cons p rest =>
    rw [choice] at h
    split at h
    · next first hp =>
      rcases choiceAfter_eq_failed h with rfl | ⟨q, hq, hfailed⟩
      · exact .inr ⟨p, List.mem_cons_self, hp⟩
      · exact .inr ⟨q, List.mem_cons_of_mem _ hq, hfailed⟩
    · next hp => exact absurd h (hp failure)

/-- A repetition never fails. -/
theorem many_ne_failed {p : Parser α} {c : Cursor} {failure : Failure} :
    many p c ≠ .failed failure := by
  suffices hwithin : ∀ (budget : List Char) (c : Cursor), manyWithin p budget c ≠ .failed failure
    from hwithin c.rest c
  intro budget c
  fun_induction manyWithin p budget c with
  | case1 | case2 | case3 | case4 => rintro ⟨⟩
  | case5 c value next hp hmoved x budget ih =>
    cases hlater : manyWithin p budget next with
    | ok later last => rintro ⟨⟩
    | failed failure' =>
      intro h
      cases h
      exact ih hlater
    | stopped stop => rintro ⟨⟩

/-- A checked parser gives what its parser gives. -/
theorem checked_eq_ok {p : Parser α} {test : α → Bool} {expected : String} {c next : Cursor}
    {value : α} (h : checked p test expected c = .ok value next) : p c = .ok value next := by
  unfold checked at h
  split at h
  · next hp =>
    split at h
    · cases h
      exact hp
    · cases h
  · exact h

/-- A check fails where it started, or as its parser does. -/
theorem checked_eq_failed {p : Parser α} {test : α → Bool} {expected : String} {c : Cursor}
    {failure : Failure} (h : checked p test expected c = .failed failure) :
    failure.offset = c.offset ∨ p c = .failed failure := by
  unfold checked at h
  split at h
  · split at h
    · cases h
    · cases h
      exact .inl rfl
  · exact .inr h

/-! ## How composed parsers are stopped -/

/-- An alternative is stopped when one of its parts is. -/
theorem orElse_eq_stopped {p q : Parser α} {c : Cursor} {stop : Stop}
    (h : (p <|> q) c = .stopped stop) : p c = .stopped stop ∨ q c = .stopped stop := by
  change Parser.orElse p q c = .stopped stop at h
  unfold Parser.orElse at h
  split at h
  · split at h
    · cases h
    · exact .inr h
  · exact .inl h

/-- A choice is stopped as one of its parsers is. -/
theorem choiceAfter_eq_stopped {parsers : List (Parser α)} {c : Cursor} {failure : Failure}
    {stop : Stop} (h : choiceAfter failure parsers c = .stopped stop) :
    ∃ p ∈ parsers, p c = .stopped stop := by
  induction parsers generalizing failure with
  | nil => cases h
  | cons p rest ih =>
    rw [choiceAfter] at h
    split at h
    · obtain ⟨q, hq, hstopped⟩ := ih h
      exact ⟨q, List.mem_cons_of_mem _ hq, hstopped⟩
    · exact ⟨p, List.mem_cons_self, h⟩

/-- A choice is stopped when one of its parsers is. -/
theorem choice_eq_stopped {parsers : List (Parser α)} {c : Cursor} {stop : Stop}
    (h : choice parsers c = .stopped stop) : ∃ p ∈ parsers, p c = .stopped stop := by
  cases parsers with
  | nil => cases h
  | cons p rest =>
    rw [choice] at h
    split at h
    · obtain ⟨q, hq, hstopped⟩ := choiceAfter_eq_stopped h
      exact ⟨q, List.mem_cons_of_mem _ hq, hstopped⟩
    · exact ⟨p, List.mem_cons_self, h⟩

/-- A repetition is stopped when one of its steps is. -/
theorem many_eq_stopped {p : Parser α} [Forward p] {c : Cursor} {stop : Stop}
    (h : many p c = .stopped stop) :
    ∃ text mid, c.Reads text mid ∧ p mid = .stopped stop := by
  suffices hwithin : ∀ (budget : List Char) {c : Cursor}, manyWithin p budget c = .stopped stop →
      ∃ text mid, c.Reads text mid ∧ p mid = .stopped stop from hwithin c.rest h
  intro budget c h
  fun_induction manyWithin p budget c with
  | case1 | case3 | case4 => cases h
  | case2 budget c reason hp =>
    cases h
    exact ⟨[], c, .nil c, hp⟩
  | case5 c value next hp hmoved x budget ih =>
    cases hlater : manyWithin p budget next with
    | ok later last => rw [hlater] at h; cases h
    | failed failure => rw [hlater] at h; cases h
    | stopped reason =>
      rw [hlater] at h
      cases h
      obtain ⟨s, hs⟩ := Forward.reads hp
      obtain ⟨t, mid, ht, hstopped⟩ := ih hlater
      exact ⟨s ++ t, mid, hs.append ht, hstopped⟩

/-- A slice is stopped as its parser is. -/
theorem slice_eq_stopped {p : Parser α} {c : Cursor} {stop : Stop}
    (h : slice p c = .stopped stop) : p c = .stopped stop := by
  unfold slice at h
  split at h
  · cases h
  · cases h
  · next hp =>
    cases h
    exact hp

/-- A checked parser is stopped as its parser is. -/
theorem checked_eq_stopped {p : Parser α} {test : α → Bool} {expected : String} {c : Cursor}
    {stop : Stop} (h : checked p test expected c = .stopped stop) : p c = .stopped stop := by
  unfold checked at h
  split at h
  · split at h <;> cases h
  · exact h

/-! ## How parsers of characters fail -/

/-- A character that is not read is blamed where it stands. -/
theorem satisfy_eq_failed {predicate : Char → Bool} {expected : String} {c : Cursor}
    {failure : Failure} (h : satisfy predicate expected c = .failed failure) :
    failure.offset = c.offset := by
  unfold satisfy at h
  split at h
  · cases h
    rfl
  · split at h
    · cases h
    · cases h
      rfl

/-- An empty run is blamed where it stands. -/
theorem takeWhile1_eq_failed {predicate : Char → Bool} {expected : String} {c : Cursor}
    {failure : Failure} (h : takeWhile1 predicate expected c = .failed failure) :
    failure.offset = c.offset := by
  unfold takeWhile1 at h
  split at h
  · cases h
    rfl
  · cases h

/-- A missing numeral is blamed where it should start. -/
theorem number_eq_failed {c : Cursor} {failure : Failure} (h : number c = .failed failure) :
    failure.offset = c.offset := by
  rcases bind_eq_failed h with hdigits | ⟨digits, mid, -, h⟩
  · exact takeWhile1_eq_failed hdigits
  · split at h <;> cases h

/-- A missing literal is blamed where it should start. -/
theorem token_eq_failed {literal : String} {c : Cursor} {failure : Failure}
    (h : token literal c = .failed failure) : failure.offset = c.offset := by
  unfold token at h
  split at h
  · cases h
  · cases h
    rfl

/-- A quote that is missing or not closed is blamed where it should start. -/
theorem quoted_eq_failed {quote : Char} {escapes : Bool} {c : Cursor} {failure : Failure}
    (h : quoted quote escapes c = .failed failure) : failure.offset = c.offset := by
  unfold quoted at h
  split at h
  · cases h
    rfl
  · split at h
    · split at h
      · cases h
      · cases h
        rfl
    · cases h
      rfl

/-- What is left over is blamed where it starts. -/
theorem endOfInput_eq_failed {c : Cursor} {failure : Failure}
    (h : endOfInput c = .failed failure) : failure.offset = c.offset := by
  unfold endOfInput at h
  split at h
  · cases h
  · cases h
    rfl

/-- The scan for a balanced end fails at a parenthesis that closes nothing, or at the end of the
text. -/
theorem closeBalancedFrom_eq_failed {closing : Char} {offset depth : Nat} {chars : List Char}
    {failure : Failure}
    (h : Dump.Grammar.closeBalancedFrom closing offset depth chars = .failed failure) :
    offset ≤ failure.offset ∧ failure.offset ≤ offset + chars.length := by
  have hends := Dump.Grammar.scanEnds closing offset depth chars
  rw [h] at hends
  cases hends with
  | sinks _ hchars _ =>
    rw [hchars, List.length_append]
    exact ⟨Nat.le_add_right _ _, Nat.add_le_add_left (Nat.le_add_right _ _) _⟩
  | runsOut _ => exact ⟨Nat.le_add_right _ _, Nat.le_refl _⟩

/-! ## Staying in the text -/

/-- Where the parser succeeds it has read a stretch of the text, where it fails it blames a place
between its start and the end of the text, and the numerals that stop it stand there. -/
structure Bounded (p : Parser α) : Prop where
  forward : Forward p
  spans : ∀ ⦃c : Cursor⦄ ⦃failure : Failure⦄, p c = .failed failure → c.Spans failure.offset
  hasOverlong : ∀ ⦃c : Cursor⦄ ⦃digits : String⦄, p c = .stopped (.notANumeral digits) →
    c.HasOverlong digits

/-- A parser that fails only where it starts and is never stopped. -/
theorem Bounded.of_fails_at_start {p : Parser α} [Unstopped p] (hforward : Forward p)
    (h : ∀ ⦃c : Cursor⦄ ⦃failure : Failure⦄, p c = .failed failure → failure.offset = c.offset) :
    Bounded p where
  forward := hforward
  spans c _ hfailed := h hfailed ▸ c.spans_self
  hasOverlong c _ hstopped := absurd hstopped (Unstopped.ne_stopped c _)

/-- A parser that always succeeds. -/
theorem Bounded.of_total {p : Parser α} (hforward : Forward p)
    (h : ∀ c, ∃ value next, p c = .ok value next) : Bounded p where
  forward := hforward
  spans c _ hfailed := by
    obtain ⟨value, next, hok⟩ := h c
    cases hok.symm.trans hfailed
  hasOverlong c _ hstopped := by
    obtain ⟨value, next, hok⟩ := h c
    cases hok.symm.trans hstopped

/-- One parser after another stays in the text if both do. -/
theorem Bounded.bind {p : Parser α} {f : α → Parser β} (hp : Bounded p)
    (hf : ∀ value, Bounded (f value)) : Bounded (p >>= f) where
  forward := by
    have := hp.forward
    have := fun value => (hf value).forward
    infer_instance
  spans c failure h := by
    rcases bind_eq_failed h with hfailed | ⟨value, mid, hok, hfailed⟩
    · exact hp.spans hfailed
    · obtain ⟨text, hreads⟩ := hp.forward.reads hok
      exact hreads.spans ((hf value).spans hfailed)
  hasOverlong c digits h := by
    rcases bind_eq_stopped h with hstopped | ⟨value, mid, hok, hstopped⟩
    · exact hp.hasOverlong hstopped
    · obtain ⟨text, hreads⟩ := hp.forward.reads hok
      exact hreads.hasOverlong ((hf value).hasOverlong hstopped)

/-- Alternatives stay in the text if both do. -/
theorem Bounded.orElse {p q : Parser α} (hp : Bounded p) (hq : Bounded q) :
    Bounded (p <|> q) where
  forward := by
    have := hp.forward
    have := hq.forward
    infer_instance
  spans c failure h := by
    obtain ⟨left, right, hleft, hright, rfl⟩ := orElse_eq_failed h
    rcases left.furthest_eq right with heq | heq <;> rw [heq]
    · exact hp.spans hleft
    · exact hq.spans hright
  hasOverlong c digits h := by
    rcases orElse_eq_stopped h with hstopped | hstopped
    · exact hp.hasOverlong hstopped
    · exact hq.hasOverlong hstopped

/-- A choice stays in the text if all of its parsers do. -/
theorem Bounded.choice {parsers : List (Parser α)} (h : ∀ p ∈ parsers, Bounded p) :
    Bounded (choice parsers) where
  forward := forward_choice fun p hp => (h p hp).forward
  spans c failure hfailed := by
    rcases choice_eq_failed hfailed with heq | ⟨p, hp, hfailed⟩
    · exact heq ▸ c.spans_self
    · exact (h p hp).spans hfailed
  hasOverlong c digits hstopped := by
    obtain ⟨p, hp, hstopped⟩ := choice_eq_stopped hstopped
    exact (h p hp).hasOverlong hstopped

/-- A repetition stays in the text if its parser does. -/
theorem Bounded.many {p : Parser α} (h : Bounded p) : Bounded (many p) where
  forward := by
    have := h.forward
    infer_instance
  spans _ _ hfailed := absurd hfailed many_ne_failed
  hasOverlong c digits hstopped := by
    have := h.forward
    obtain ⟨text, mid, hreads, hstopped⟩ := many_eq_stopped hstopped
    exact hreads.hasOverlong (h.hasOverlong hstopped)

/-- Every parser of the library stays in the text. -/
theorem Built.bounded {p : Parser α} (h : Built p) : Bounded p := by
  induction h with
  | pure value => exact .of_total inferInstance fun c => ⟨value, c, rfl⟩
  | fail expected =>
    refine ⟨⟨fun _ _ _ h => nomatch h⟩, fun c _ h => ?_, (fun _ _ h => nomatch h)⟩
    cases h
    exact c.spans_self
  | satisfy predicate expected =>
    exact .of_fails_at_start inferInstance fun _ _ => satisfy_eq_failed
  | takeWhile predicate => exact .of_total inferInstance fun c => ⟨_, _, rfl⟩
  | takeWhile1 predicate expected =>
    exact .of_fails_at_start inferInstance fun _ _ => takeWhile1_eq_failed
  | skipSpaces => exact .of_total inferInstance fun c => ⟨_, _, rfl⟩
  | token literal => exact .of_fails_at_start inferInstance fun _ _ => token_eq_failed
  | quoted quote escapes =>
    exact .of_fails_at_start ⟨fun _ _ _ h => ⟨_, (quoted_reads h).1⟩⟩ fun _ _ => quoted_eq_failed
  | number =>
    refine ⟨⟨fun c _ _ h => ?_⟩, fun c _ h => number_eq_failed h ▸ c.spans_self, fun c _ h => ?_⟩
    · obtain ⟨text, hreads, -⟩ := number_reads h
      exact ⟨text, hreads⟩
    · obtain ⟨digits, hstands, hlong, heq⟩ := number_eq_stopped h
      cases heq
      exact ⟨hlong, hstands.isInfix⟩
  | endOfInput =>
    refine .of_fails_at_start ⟨fun c _ _ h => ?_⟩ fun _ _ => endOfInput_eq_failed
    obtain ⟨rfl, -⟩ := endOfInput_reads h
    exact ⟨[], .nil _⟩
  | closeBalanced closing =>
    refine ⟨⟨fun c next _ h => ?_⟩, fun _ _ => closeBalancedFrom_eq_failed,
      fun c _ h => absurd h (Unstopped.ne_stopped c _)⟩
    obtain ⟨text, hrest, hnext, -⟩ := Dump.Grammar.closeBalancedFrom_eq_ok h
    exact ⟨text, hrest, by rw [hnext], fun _ => by rw [hnext]⟩
  | bind _ _ ihp ihf => exact ihp.bind ihf
  | orElse _ _ ihp ihq => exact ihp.orElse ihq
  | choice _ ih => exact .choice ih
  | many _ ih => exact ih.many
  | slice _ ih =>
    refine ⟨⟨fun _ _ _ h => ⟨_, slice_reads ih.forward.reads h⟩⟩, fun _ _ h => ?_, fun _ _ h => ?_⟩
    · exact ih.spans (slice_eq_failed h)
    · exact ih.hasOverlong (slice_eq_stopped h)
  | checked test expected _ ih =>
    refine ⟨⟨fun _ _ _ h => ih.forward.reads (checked_eq_ok h)⟩, fun c _ h => ?_,
      fun _ _ h => ih.hasOverlong (checked_eq_stopped h)⟩
    rcases checked_eq_failed h with heq | hfailed
    · exact heq ▸ c.spans_self
    · exact ih.spans hfailed
  | stop =>
    exact ⟨⟨fun _ _ _ h => nomatch h⟩, (fun _ _ h => nomatch h), (fun _ _ h => nomatch h)⟩

theorem Built.forward {p : Parser α} (h : Built p) : Forward p := h.bounded.forward

end Parser

/-! ## Runs on a text -/

/-- If the run ends, it ends or fails between the two offsets. -/
structure Reply.EndsBetween {α : Type} (first last : Nat) (reply : Reply α) : Prop where
  ok : ∀ value next, reply = .ok value next → first ≤ next.offset ∧ next.offset ≤ last
  failed : ∀ failure, reply = .failed failure → first ≤ failure.offset ∧ failure.offset ≤ last

theorem Cursor.length_rest_within (text : List Char) (offset : Nat) :
    (within text offset).rest.length = text.length - offset :=
  List.length_drop

/-- What is read from a place in a text leads to a place in it. -/
theorem Cursor.Reads.eq_within {text read : List Char} {offset : Nat} {next : Cursor}
    (h : (Cursor.within text offset).Reads read next) (hoffset : offset ≤ text.length) :
    next = .within text (offset + read.length) ∧ offset + read.length ≤ text.length := by
  have hlength : text.length - offset = read.length + next.rest.length := by
    rw [← Cursor.length_rest_within, h.length_rest]
  have hrest : text.drop (offset + read.length) = next.rest := by
    rw [← List.drop_drop, show text.drop offset = _ from h.rest_eq, List.drop_left]
  have hinside : next.pastEnd = false := h.inside (decide_eq_false (by omega))
  refine ⟨?_, by omega⟩
  obtain ⟨nextOffset, nextRest, nextPastEnd⟩ := next
  obtain rfl : nextOffset = offset + read.length := h.offset_eq
  obtain rfl : nextPastEnd = false := hinside
  rw [Cursor.within, hrest, decide_eq_false (by omega)]

/-- What stands at a place of a text is the stretch from there. -/
theorem extract_of_drop_eq {α : Type} {text read rest : List α} {start : Nat}
    (h : text.drop start = read ++ rest) : text.extract start (start + read.length) = read := by
  rw [List.extract_eq_take_drop, h, Nat.add_sub_cancel_left, List.take_left]

/-- A text from one place on is what stands before a later one and what stands behind it. -/
theorem drop_eq_extract_append {α : Type} {text : List α} {start stop : Nat}
    (h : start ≤ stop) : text.drop start = text.extract start stop ++ text.drop stop := by
  have hdrop : (text.drop start).drop (stop - start) = text.drop stop := by
    rw [List.drop_drop, Nat.add_sub_of_le h]
  rw [List.extract_eq_take_drop, ← hdrop, List.take_append_drop]

/-- A stretch of a text stands where it starts, and its length says where it ends. -/
theorem drop_eq_of_extract_eq {α : Type} {text read : List α} {start stop : Nat}
    (h : text.extract start stop = read) (hne : read ≠ []) (hstop : stop ≤ text.length) :
    text.drop start = read ++ text.drop stop ∧ stop = start + read.length := by
  have hlength := congrArg List.length h
  have hpos := List.length_pos_of_ne_nil hne
  rw [List.extract_eq_take_drop, List.length_take, List.length_drop] at hlength
  refine ⟨?_, by omega⟩
  rw [← h]
  exact drop_eq_extract_append (by omega)

/-- A parser accepts a stretch of a text where it stands. -/
theorem Parser.Accepts.runAt {α : Type} {p : Parser α} {text : String} {offset : Nat}
    {read after : List Char} {value : α} (h : p.Accepts read value after)
    (hdrop : text.toList.drop offset = read ++ after) (hoffset : offset ≤ text.length) :
    p.runAt text offset = .ok value (.within text.toList (offset + read.length)) := by
  rw [← String.length_toList] at hoffset
  have hreads : (Cursor.within text.toList offset).Reads read
      ⟨offset + read.length, after, false⟩ := ⟨hdrop, rfl, fun _ => rfl⟩
  rw [← (hreads.eq_within hoffset).1, ← h offset, Parser.runAt, Cursor.within, hdrop,
    decide_eq_false (by omega)]

/-- What lies ahead of a place in a text lies in the text. -/
theorem Cursor.spans_within_iff {text : List Char} {first offset : Nat} (h : first ≤ text.length) :
    (Cursor.within text first).Spans offset ↔ first ≤ offset ∧ offset ≤ text.length := by
  rw [Cursor.Spans, Cursor.length_rest_within]
  show first ≤ offset ∧ offset ≤ first + (text.length - first) ↔ _
  rw [Nat.add_sub_of_le h]

/-- Run from a place in a text, such a parser ends between there and the end of the text. -/
theorem Parser.Bounded.endsBetween {α : Type} {p : Parser α} (h : Bounded p) {text : String}
    {offset : Nat} (hoffset : offset ≤ text.length) :
    (p.runAt text offset).EndsBetween offset text.length := by
  rw [← String.length_toList] at hoffset ⊢
  refine ⟨fun value next hok => ?_, fun failure hfailed => ?_⟩
  · obtain ⟨read, hreads⟩ := h.forward.reads hok
    exact (Cursor.spans_within_iff hoffset).1 hreads.spans_offset
  · exact (Cursor.spans_within_iff hoffset).1 (h.spans hfailed)

open TypeScribe.Parser Dump in
/-- A dump is read, or blamed at a place in the text; or digits that stand in the text are too many
for a numeral. -/
theorem Dump.RawNode.parse_endsBetween [CallStack] (text : String) :
    (∃ raw, RawNode.parse text = .ok raw) ∨
    (∃ reason, RawNode.parse text = .error (.malformed reason) ∧ 0 ≤ reason.offset ∧
      reason.offset ≤ text.length) ∨
    ∃ digits, RawNode.parse text = .error (.notANumeral digits) ∧
      IsOverlong digits.toList ∧ digits.toList <:+: text.toList := by
  have hdocument : Built Grammar.document := inferInstance
  have hrun := hdocument.bounded.endsBetween (Nat.zero_le text.length)
  rw [runAt, Cursor.within_zero] at hrun
  unfold RawNode.parse
  cases hreply : Grammar.document (.start text.toList) with
  | ok root next => exact .inl ⟨root, rfl⟩
  | failed failure => exact .inr (.inl ⟨_, rfl, hrun.failed failure hreply⟩)
  | stopped stop =>
    cases stop with
    | tooDeep => exact .inr (.inl ⟨_, rfl, Nat.zero_le _, Nat.zero_le _⟩)
    | notANumeral digits =>
      obtain ⟨hlong, hstands⟩ := hdocument.bounded.hasOverlong hreply
      exact .inr (.inr ⟨digits, rfl, hlong, hstands⟩)

open TypeScribe.Parser Dump in
/-- Parsers stay in the text. Run from any place in a text, a parser of the library or a rule of the
grammars succeeds or fails at a place between there and the end of the text, if its run ends. So a
text that is no dump is blamed at a place in it; or digits that stand in it are too many for a
numeral, and then it is not blamed at all. -/
theorem runAt_endsBetween [CallStack] (text : String) :
    (∀ {α : Type} (p : Parser α), Built p ∨ IsRule p → ∀ offset ≤ text.length,
      (p.runAt text offset).EndsBetween offset text.length) ∧
    ((∃ raw, RawNode.parse text = .ok raw) ∨
      (∃ reason, RawNode.parse text = .error (.malformed reason) ∧ 0 ≤ reason.offset ∧
        reason.offset ≤ text.length) ∨
      ∃ digits, RawNode.parse text = .error (.notANumeral digits) ∧
        IsOverlong digits.toList ∧ digits.toList <:+: text.toList) := by
  refine ⟨fun p h offset hoffset => ?_, RawNode.parse_endsBetween text⟩
  have hbuilt : Built p := h.elim id IsRule.built
  exact hbuilt.bounded.endsBetween hoffset

/-- The failure that a run ends with. -/
def Reply.failure? {α : Type} : Reply α → Option Failure
  | .failed failure => some failure
  | _ => none

theorem Reply.failure?_eq_some_iff {α : Type} {reply : Reply α} {failure : Failure} :
    reply.failure? = some failure ↔ reply = .failed failure := by
  cases reply <;> simp [failure?]

/-- A node inside another one, with a quote that is not closed. -/
theorem runAt_endsBetween_unclosed :
    ∃ failure, (Dump.Grammar.nodeWithin 3).runAt "(a (b \"x" 3 = .failed failure ∧
      3 ≤ failure.offset ∧ failure.offset ≤ "(a (b \"x".length := by
  let _ := CallStack.uniform 3
  have hends := (runAt_endsBetween "(a (b \"x").1 (Dump.Grammar.nodeWithin 3) (.inr (.node 3)) 3
    (by decide)
  have hfailed : ((Dump.Grammar.nodeWithin 3).runAt "(a (b \"x" 3).failure? = some ⟨6, "')'"⟩ := by
    decide +kernel
  rw [Reply.failure?_eq_some_iff] at hfailed
  exact ⟨_, hfailed, hends.failed _ hfailed⟩

/-! ## A numeral that is too long -/

/-- A dump of one node, at a line of the given digits. -/
def Dump.atLine (digits : List Char) : String :=
  "(n location=f:" ++ String.ofList digits ++ ":2)"

open TypeScribe.Parser Dump.Grammar in
/-- A point stops the run where its line has too many digits. -/
theorem point_stopsOn {file digits : List Char} (hne : file ≠ [])
    (hfile : ∀ x ∈ file, isFileChar x = true) (hdigits : IsOverlong digits) {after : List Char}
    (hafter : StopsAt Char.isDigit after) :
    point.StopsOn (file ++ (':' :: (digits ++ after))) (.notANumeral (String.ofList digits)) := by
  refine (takeWhile1_accepts hne hfile (stopsAt_cons.2 rfl)).bind_stopsOn ?_
  exact (token_accepts ":" _).bind_stopsOn ((number_stopsOn hdigits hafter).bind _)

open TypeScribe.Parser Dump.Grammar in
/-- A location stops the run as its point does. -/
theorem attr_stopsOn {text : List Char} {stop : Stop} (h : point.StopsOn text stop) :
    attr.StopsOn ("location=".toList ++ text) stop := by
  refine .choice_tail ((token_rejects_of_head rfl (stopsAt_beq (by decide) _)).bind _) ?_
  refine .choice_tail ((token_rejects_of_head rfl (stopsAt_beq (by decide) _)).bind _) ?_
  exact ((token_accepts "location=" _).bind_stopsOn (h.bind _)).choice_head _

open TypeScribe.Parser Dump Dump.Grammar in
/-- A node stops the run as its first entry does. -/
theorem nodeOf_stopsOn {node : Parser RawNode} {blanks text : List Char} {stop : Stop}
    (h : (entryOf node).StopsOn text stop) (hblanks : ∀ x ∈ blanks, isSpace x = true)
    (hkeyword : StopsAt isKeywordChar (blanks ++ text)) (hspace : StopsAt isSpace text)
    (hquote : StopsAt (· == '"') text) :
    (nodeOf node).StopsOn ("(".toList ++ ("n".toList ++ (blanks ++ text))) stop := by
  refine (token_accepts "(" _).bind_stopsOn ?_
  refine (keyword_accepts (by decide) hkeyword).bind_stopsOn ?_
  refine (skipSpaces_accepts hblanks hspace).bind_stopsOn ?_
  refine (quoted_rejects hquote).option?.bind_stopsOn (StopsOn.bind (.many ?_) _)
  exact (skipSpaces_accepts (List.forall_mem_nil _) hspace).bind_stopsOn (h.bind _)

open TypeScribe.Parser Dump Dump.Grammar in
/-- A line of too many digits stops the run, if there is room for the node. -/
theorem parse_atLine [CallStack] (hroom : 0 < CallStack.nodes) {digits : List Char}
    (hdigits : IsOverlong digits) :
    RawNode.parse (atLine digits) = .error (.notANumeral (String.ofList digits)) := by
  have hpoint : point.StopsOn ("f".toList ++ (':' :: (digits ++ ":2)".toList)))
      (.notANumeral (String.ofList digits)) :=
    point_stopsOn (List.cons_ne_nil _ _) (List.forall_mem_singleton.2 rfl) hdigits
      (stopsAt_cons.2 rfl)
  have hnode (below : Parser RawNode) :
      (nodeOf below).StopsOn ("(".toList ++ ("n".toList ++ ([' '] ++
        ("location=".toList ++ ("f".toList ++ (':' :: (digits ++ ":2)".toList)))))))
        (.notANumeral (String.ofList digits)) :=
    nodeOf_stopsOn (((attr_stopsOn hpoint).map _).orElse _) (by simp [isSpace])
      (stopsAt_cons.2 rfl) (stopsAt_cons.2 rfl) (stopsAt_beq (by decide) _)
  have htext : (atLine digits).toList = "(".toList ++ ("n".toList ++ (" ".toList ++
      ("location=".toList ++ ("f".toList ++ (':' :: (digits ++ ":2)".toList)))))) := by
    have hparts (before after : String) : (before ++ String.ofList digits ++ after).toList =
        before.toList ++ (digits ++ after.toList) := by simp
    exact hparts "(n location=f:" ":2)"
  have hdocument : document.StopsOn (atLine digits).toList
      (.notANumeral (String.ofList digits)) := by
    obtain ⟨depth, hdepth⟩ := Nat.exists_eq_add_one_of_ne_zero (Nat.pos_iff_ne_zero.1 hroom)
    rw [htext]
    refine (skipSpaces_accepts (List.forall_mem_nil _) (stopsAt_cons.2 rfl)).bind_stopsOn ?_
    rw [node, hdepth]
    exact (hnode (nodeWithin depth)).bind _
  have hstopped := hdocument 0
  rw [RawNode.parse, Cursor.start, hstopped]

/-- More digits than a numeral may have. -/
def manyDigits : List Char := List.replicate 4301 '1'

theorem isOverlong_manyDigits : Parser.IsOverlong manyDigits where
  isDigit _ hx := List.eq_of_mem_replicate hx ▸ rfl
  length_lt := by rw [manyDigits, List.length_replicate]; decide

/-- A line of so many digits is neither read nor blamed. -/
theorem not_runAt_endsBetween_of_manyDigits :
    letI := CallStack.uniform 1
    Dump.RawNode.parse (Dump.atLine manyDigits) =
        .error (.notANumeral (String.ofList manyDigits)) ∧
      ¬((∃ raw, Dump.RawNode.parse (Dump.atLine manyDigits) = .ok raw) ∨
        ∃ reason, Dump.RawNode.parse (Dump.atLine manyDigits) = .error (.malformed reason)) := by
  let _ := CallStack.uniform 1
  have hparse := parse_atLine (show 0 < CallStack.nodes by decide) isOverlong_manyDigits
  refine ⟨hparse, ?_⟩
  rintro (⟨raw, hok⟩ | ⟨reason, hreason⟩)
  · cases hparse.symm.trans hok
  · cases hparse.symm.trans hreason

end TypeScribe
