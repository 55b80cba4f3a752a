import Mathlib.Data.List.Forall2
import Mathlib.Data.List.TakeWhile
import TypeScribe.Parser.Text

/-!
# What a parser has read

When a parser succeeds, a stretch of the text lies between the cursor it started at and the cursor
it stopped at (`Cursor.Reads`). This module takes the success of a composed parser apart into the
successes of its parts (`bind_eq_ok`, `orElse_eq_ok`, `choice_eq_ok`, `many_reads`), and says for
each parser of characters and words what the stretch is and which value stands for it.

The texts of words, numerals and quoted texts are described on their own (`IsWord`, `IsNumeral`,
`Quotable`), so that the same descriptions serve for what a parser accepts.
-/

namespace TypeScribe

/-! ## Stretches of text -/

/-- Between the two cursors lies the text. A cursor inside the text does not leave it. -/
structure Cursor.Reads (c : Cursor) (text : List Char) (next : Cursor) : Prop where
  rest_eq : c.rest = text ++ next.rest
  offset_eq : next.offset = c.offset + text.length
  inside : c.pastEnd = false → next.pastEnd = false

namespace Cursor

theorem Reads.nil (c : Cursor) : c.Reads [] c := ⟨rfl, rfl, id⟩

/-- Two stretches read one after the other are one stretch. -/
theorem Reads.append {c mid next : Cursor} {s t : List Char} (h : c.Reads s mid)
    (h' : mid.Reads t next) : c.Reads (s ++ t) next := by
  refine ⟨?_, ?_, fun hc => h'.inside (h.inside hc)⟩
  · rw [h.rest_eq, h'.rest_eq, List.append_assoc]
  · rw [h'.offset_eq, h.offset_eq, List.length_append, Nat.add_assoc]

/-- The text that lies between determines where it ends. -/
theorem Reads.next_eq {offset : Nat} {text after : List Char} {next : Cursor}
    (h : Cursor.Reads ⟨offset, text ++ after, false⟩ text next) :
    next = ⟨offset + text.length, after, false⟩ := by
  obtain ⟨hrest, hoffset, hinside⟩ := h
  obtain ⟨offset', rest', pastEnd'⟩ := next
  obtain rfl : after = rest' := List.append_cancel_left hrest
  obtain rfl : pastEnd' = false := hinside rfl
  cases hoffset
  rfl

/-- The text up to a later cursor is the text between the two. -/
theorem Reads.upTo_eq {c next : Cursor} {text : List Char} (h : c.Reads text next) :
    c.upTo next = text := by
  rw [upTo, h.rest_eq, h.offset_eq, Nat.add_sub_cancel_left, List.take_left]

/-- A text that is read to its end is what is read. -/
theorem Reads.eq_of_start {text read : List Char} {next : Cursor}
    (h : (Cursor.start text).Reads read next) (hend : next.rest = []) : text = read := by
  have hrest := h.rest_eq
  rwa [hend, List.append_nil] at hrest

theorem Reads.length_rest {c next : Cursor} {text : List Char} (h : c.Reads text next) :
    c.rest.length = text.length + next.rest.length := by
  rw [h.rest_eq, List.length_append]

theorem Reads.unique {c next : Cursor} {s t : List Char} (h : c.Reads s next)
    (h' : c.Reads t next) : s = t := by
  rw [← h.upTo_eq, h'.upTo_eq]

/-- What stands at the later cursor stands behind the text at the earlier one. -/
theorem Reads.stands {c next : Cursor} {text later : List Char} (h : c.Reads text next)
    (hlater : later <+: next.rest) : text ++ later <+: c.rest := by
  rw [h.rest_eq]
  exact (List.prefix_append_right_inj text).2 hlater

/-- A cursor that has not moved has read nothing. -/
theorem Reads.eq_nil_of_offset_eq {c next : Cursor} {text : List Char} (h : c.Reads text next)
    (heq : next.offset = c.offset) : text = [] := by
  have hlength := h.offset_eq
  exact List.eq_nil_of_length_eq_zero (by omega)

end Cursor

namespace Parser

variable {α β : Type}

/-! ## Composed parsers -/

/-- If one parser after another succeeds, so do both, the second where the first ended. -/
theorem bind_eq_ok {p : Parser α} {f : α → Parser β} {c next : Cursor} {value : β}
    (h : (p >>= f) c = .ok value next) :
    ∃ first mid, p c = .ok first mid ∧ f first mid = .ok value next := by
  change Parser.bind p f c = .ok value next at h
  unfold Parser.bind at h
  split at h
  · next first mid hp => exact ⟨first, mid, hp, h⟩
  · cases h
  · cases h

/-- If one parser after another is stopped, one of the two is. -/
theorem bind_eq_stopped {p : Parser α} {f : α → Parser β} {c : Cursor} {stop : Stop}
    (h : (p >>= f) c = .stopped stop) :
    p c = .stopped stop ∨ ∃ first mid, p c = .ok first mid ∧ f first mid = .stopped stop := by
  change Parser.bind p f c = .stopped stop at h
  unfold Parser.bind at h
  split at h
  · next first mid hp => exact .inr ⟨first, mid, hp, h⟩
  · cases h
  · next hp =>
    cases h
    exact .inl hp

/-- A sequence fails by its first part, or by its second after the first has succeeded. -/
theorem bind_eq_failed {p : Parser α} {f : α → Parser β} {c : Cursor} {failure : Failure}
    (h : (p >>= f) c = .failed failure) :
    p c = .failed failure ∨ ∃ value mid, p c = .ok value mid ∧ f value mid = .failed failure := by
  change Parser.bind p f c = .failed failure at h
  unfold Parser.bind at h
  split at h
  · next value mid hp => exact .inr ⟨value, mid, hp, h⟩
  · next hp =>
    cases h
    exact .inl hp
  · cases h

/-- A pure parser reads nothing. -/
theorem pure_eq_ok {value value' : α} {c next : Cursor}
    (h : (pure value : Parser α) c = .ok value' next) : value' = value ∧ next = c := by
  cases h
  exact ⟨rfl, rfl⟩

/-- A function of the value applies to what its parser gives. -/
theorem map_eq_ok {p : Parser α} {f : α → β} {c next : Cursor} {value : β}
    (h : (f <$> p) c = .ok value next) : ∃ first, p c = .ok first next ∧ value = f first := by
  rw [map_apply] at h
  cases hp : p c with
  | ok first mid =>
    rw [hp] at h
    cases h
    exact ⟨first, rfl, rfl⟩
  | failed failure => rw [hp] at h; cases h
  | stopped stop => rw [hp] at h; cases h

/-- An alternative succeeds by its first part, or by its second after the first has failed. -/
theorem orElse_eq_ok {p q : Parser α} {c next : Cursor} {value : α}
    (h : (p <|> q) c = .ok value next) :
    p c = .ok value next ∨ (∃ failure, p c = .failed failure) ∧ q c = .ok value next := by
  change Parser.orElse p q c = .ok value next at h
  unfold Parser.orElse at h
  split at h
  · next failure hp =>
    refine .inr ⟨⟨failure, hp⟩, ?_⟩
    split at h
    · cases h
    · exact h
  · exact .inl h

/-- An optional parser gives what its parser gives, or nothing where that fails. -/
theorem option?_eq_ok {p : Parser α} {c next : Cursor} {value : Option α}
    (h : p.option? c = .ok value next) :
    (∃ found, value = some found ∧ p c = .ok found next) ∨
      value = none ∧ next = c ∧ ∃ failure, p c = .failed failure := by
  rcases orElse_eq_ok h with h | ⟨⟨failure, hfailed⟩, h⟩
  · obtain ⟨found, hp, rfl⟩ := map_eq_ok h
    exact .inl ⟨found, rfl, hp⟩
  · obtain ⟨rfl, rfl⟩ := pure_eq_ok h
    rw [map_apply] at hfailed
    refine .inr ⟨rfl, rfl, ?_⟩
    cases hp : p next with
    | ok found mid => rw [hp] at hfailed; cases hfailed
    | failed failure' => exact ⟨failure', rfl⟩
    | stopped stop => rw [hp] at hfailed; cases hfailed

/-- An optional parser with a default gives it in that case. -/
theorem option_eq_ok {p : Parser α} {default : α} {c next : Cursor} {value : α}
    (h : p.option default c = .ok value next) :
    p c = .ok value next ∨ value = default ∧ next = c := by
  rcases orElse_eq_ok h with h | ⟨-, h⟩
  · exact .inl h
  · exact .inr (pure_eq_ok h)

/-- The first of the parsers that does not fail gives the value. -/
def FirstOk (parsers : List (Parser α)) (c : Cursor) (value : α) (next : Cursor) : Prop :=
  ∃ before p after, parsers = before ++ p :: after ∧ p c = .ok value next ∧
    ∀ q ∈ before, ∃ failure, q c = .failed failure

theorem FirstOk.head {p : Parser α} {rest : List (Parser α)} {c next : Cursor} {value : α}
    (h : p c = .ok value next) : FirstOk (p :: rest) c value next :=
  ⟨[], p, rest, rfl, h, by simp⟩

/-- A parser that fails can be put in front of those tried. -/
theorem FirstOk.tail {p : Parser α} {rest : List (Parser α)} {c next : Cursor} {value : α}
    {failure : Failure} (hp : p c = .failed failure) (h : FirstOk rest c value next) :
    FirstOk (p :: rest) c value next := by
  obtain ⟨before, q, after, rfl, hq, hbefore⟩ := h
  refine ⟨p :: before, q, after, rfl, hq, fun r hr => ?_⟩
  rcases List.mem_cons.1 hr with rfl | hr
  · exact ⟨failure, hp⟩
  · exact hbefore r hr

/-- The first parser that succeeds is the one in front, or that fails and it is among the others. -/
theorem FirstOk.cons_cases {p : Parser α} {rest : List (Parser α)} {c next : Cursor} {value : α}
    (h : FirstOk (p :: rest) c value next) :
    p c = .ok value next ∨ (∃ failure, p c = .failed failure) ∧ FirstOk rest c value next := by
  obtain ⟨before, q, after, heq, hq, hbefore⟩ := h
  cases before with
  | nil =>
    cases heq
    exact .inl hq
  | cons r before =>
    cases heq
    refine .inr ⟨hbefore p List.mem_cons_self, before, q, after, rfl, hq, ?_⟩
    exact fun r hr => hbefore r (List.mem_cons_of_mem _ hr)

/-- What a choice gives, the first parser gives that succeeds. -/
theorem choiceAfter_eq_ok {parsers : List (Parser α)} {failure : Failure} {c next : Cursor}
    {value : α} (h : choiceAfter failure parsers c = .ok value next) :
    FirstOk parsers c value next := by
  induction parsers generalizing failure with
  | nil => cases h
  | cons p rest ih =>
    rw [choiceAfter] at h
    split at h
    · next hp => exact .tail hp (ih h)
    · exact .head h

/-- A choice succeeds by one of its parsers, after those before it have failed. -/
theorem choice_eq_ok {parsers : List (Parser α)} {c next : Cursor} {value : α}
    (h : choice parsers c = .ok value next) : FirstOk parsers c value next := by
  cases parsers with
  | nil => cases h
  | cons p rest =>
    rw [choice] at h
    split at h
    · next hp => exact .tail hp (choiceAfter_eq_ok h)
    · exact .head h

/-- What all parsers of a choice guarantee, the choice guarantees. -/
theorem choice_eq_ok_of_forall {parsers : List (Parser α)} {c next : Cursor} {value : α}
    {P : Prop} (h : choice parsers c = .ok value next)
    (hparsers : ∀ p ∈ parsers, p c = .ok value next → P) : P := by
  obtain ⟨before, p, after, rfl, hp, -⟩ := choice_eq_ok h
  exact hparsers p (by simp) hp

/-- What a slice gives is the text between the two places of its parser. -/
theorem slice_eq_ok {p : Parser α} {c next : Cursor} {value : String}
    (h : slice p c = .ok value next) :
    ∃ found, p c = .ok found next ∧ value = String.ofList (c.upTo next) := by
  unfold slice at h
  split at h
  · next found mid hp =>
    cases h
    exact ⟨found, hp, rfl⟩
  · cases h
  · cases h

/-- A slice is the text that its parser reads. -/
theorem slice_reads {p : Parser α}
    (hp : ∀ ⦃c next : Cursor⦄ ⦃value : α⦄, p c = .ok value next → ∃ text, c.Reads text next)
    {c next : Cursor} {value : String} (h : slice p c = .ok value next) :
    c.Reads value.toList next := by
  obtain ⟨found, hok, rfl⟩ := slice_eq_ok h
  obtain ⟨text, hreads⟩ := hp hok
  rwa [hreads.upTo_eq, String.toList_ofList]

/-- The text of a repetition is made of the texts of its steps, in their order. A step that does not
move has read nothing. -/
theorem many_reads {p : Parser α} {P : α → List Char → Prop}
    (hp : ∀ ⦃c next : Cursor⦄ ⦃value : α⦄, p c = .ok value next →
      ∃ text, c.Reads text next ∧ P value text)
    {c next : Cursor} {values : List α} (h : many p c = .ok values next) :
    ∃ texts, List.Forall₂ P values texts ∧ c.Reads texts.flatten next := by
  suffices hwithin : ∀ (budget : List Char) {c next : Cursor} {values : List α},
      manyWithin p budget c = .ok values next →
      ∃ texts, List.Forall₂ P values texts ∧ c.Reads texts.flatten next from hwithin c.rest h
  intro budget c next values h
  fun_induction manyWithin p budget c generalizing values with
  | case1 budget c failure hfailed => cases h; exact ⟨[], .nil, .nil _⟩
  | case2 budget c hdeep => cases h
  | case3 budget c value mid hstep hstill =>
    obtain ⟨text, hreads, hvalue⟩ := hp hstep
    rw [hreads.eq_nil_of_offset_eq hstill] at hvalue
    cases h
    exact ⟨[[]], .cons hvalue .nil, .nil _⟩
  | case4 c value mid hstep hmoved =>
    obtain ⟨text, hreads, hvalue⟩ := hp hstep
    cases h
    exact ⟨[text], .cons hvalue .nil, by simpa using hreads⟩
  | case5 c value mid hstep hmoved x budget ih =>
    obtain ⟨text, hreads, hvalue⟩ := hp hstep
    cases hlater : manyWithin p budget mid with
    | ok later next' =>
      rw [hlater] at h
      cases h
      obtain ⟨texts, hall, hreads'⟩ := ih hlater
      exact ⟨text :: texts, .cons hvalue hall, hreads.append hreads'⟩
    | failed failure => rw [hlater] at h; cases h
    | stopped stop => rw [hlater] at h; cases h

/-- `many1` reads one stretch for each of its values, and at least one. -/
theorem many1_reads {p : Parser α} {P : α → List Char → Prop}
    (hp : ∀ ⦃c next : Cursor⦄ ⦃value : α⦄, p c = .ok value next →
      ∃ text, c.Reads text next ∧ P value text)
    {c next : Cursor} {values : List α} (h : many1 p c = .ok values next) :
    ∃ texts, values ≠ [] ∧ List.Forall₂ P values texts ∧ c.Reads texts.flatten next := by
  obtain ⟨first, mid, hfirst, h⟩ := bind_eq_ok h
  obtain ⟨rest, mid', hrest, h⟩ := bind_eq_ok h
  obtain ⟨rfl, rfl⟩ := pure_eq_ok h
  obtain ⟨text, hreads, hvalue⟩ := hp hfirst
  obtain ⟨texts, hall, hreads'⟩ := many_reads hp hrest
  exact ⟨text :: texts, by simp, .cons hvalue hall, hreads.append hreads'⟩

/-! ## Characters and runs -/

/-- One character is read, and it satisfies the predicate. -/
theorem satisfy_reads {predicate : Char → Bool} {expected : String} {c next : Cursor} {x : Char}
    (h : satisfy predicate expected c = .ok x next) :
    c.Reads [x] next ∧ predicate x = true := by
  unfold satisfy at h
  split at h
  · cases h
  · next y rest hrest =>
    split at h
    · next hy =>
      cases h
      exact ⟨⟨hrest, rfl, id⟩, hy⟩
    · cases h

/-- A run of characters is read that satisfy the predicate. -/
theorem takeWhile_reads {predicate : Char → Bool} {c next : Cursor} {value : String}
    (h : takeWhile predicate c = .ok value next) :
    c.Reads value.toList next ∧ ∀ x ∈ value.toList, predicate x = true := by
  cases h
  rw [String.toList_ofList]
  exact ⟨⟨List.takeWhile_append_dropWhile.symm, rfl, id⟩, fun x hx => List.mem_takeWhile_imp hx⟩

/-- The run is not empty. -/
theorem takeWhile1_reads {predicate : Char → Bool} {expected : String} {c next : Cursor}
    {value : String} (h : takeWhile1 predicate expected c = .ok value next) :
    c.Reads value.toList next ∧ value.toList ≠ [] ∧ ∀ x ∈ value.toList, predicate x = true := by
  unfold takeWhile1 at h
  split at h
  · cases h
  · next hne =>
    cases h
    rw [String.toList_ofList]
    exact ⟨⟨List.takeWhile_append_dropWhile.symm, rfl, id⟩, hne,
      fun x hx => List.mem_takeWhile_imp hx⟩

/-- Only blanks are skipped. -/
theorem skipSpaces_reads {c next : Cursor} {value : Unit} (h : skipSpaces c = .ok value next) :
    ∃ blanks, c.Reads blanks next ∧ ∀ x ∈ blanks, isSpace x = true := by
  cases h
  exact ⟨c.rest.takeWhile isSpace, ⟨List.takeWhile_append_dropWhile.symm, rfl, id⟩,
    fun x hx => List.mem_takeWhile_imp hx⟩

/-- A literal is read as it is written. -/
theorem token_reads {literal value : String} {c next : Cursor}
    (h : token literal c = .ok value next) : c.Reads literal.toList next ∧ value = literal := by
  unfold token at h
  split at h
  · next mid hafter =>
    cases h
    unfold Cursor.after? at hafter
    split at hafter
    · cases hafter
    · obtain ⟨rest, hrest, rfl⟩ := Option.map_eq_some_iff.1 hafter
      exact ⟨⟨(List.isPrefixOf?_eq_some_iff_append_eq.1 hrest).symm, rfl, fun _ => rfl⟩, rfl⟩
  · cases h

/-- At the end of the text nothing is left, and nothing is read. -/
theorem endOfInput_reads {c next : Cursor} {value : Unit} (h : endOfInput c = .ok value next) :
    next = c ∧ c.rest = [] := by
  unfold endOfInput at h
  split at h
  · next hend =>
    cases h
    simp only [Cursor.atEnd, Bool.and_eq_true, List.isEmpty_iff] at hend
    exact ⟨rfl, hend.1⟩
  · cases h

/-! ## Words and numbers -/

/-- A character that satisfies `first`, and after it characters that satisfy `later`. -/
def IsWord (first later : Char → Bool) : List Char → Prop
  | [] => False
  | head :: tail => first head = true ∧ ∀ x ∈ tail, later x = true

instance (first later : Char → Bool) : DecidablePred (IsWord first later)
  | [] => inferInstanceAs (Decidable False)
  | head :: tail => decidable_of_iff (first head = true ∧ tail.all later = true) <| by
    rw [List.all_eq_true]
    exact Iff.rfl

/-- A word has a first character. -/
theorem IsWord.ne_nil {first later : Char → Bool} {text : List Char}
    (h : IsWord first later text) : text ≠ [] := by
  rintro rfl
  exact h.elim

/-- A word can be prolonged by characters that may stand later in it. -/
theorem IsWord.append {first later : Char → Bool} {text more : List Char}
    (h : IsWord first later text) (hmore : ∀ x ∈ more, later x = true) :
    IsWord first later (text ++ more) := by
  cases text with
  | nil => exact h.elim
  | cons head tail =>
    refine ⟨h.1, fun x hx => ?_⟩
    rcases List.mem_append.1 hx with hx | hx
    · exact h.2 x hx
    · exact hmore x hx

/-- Where a first character may also stand later, all characters of a word may. -/
theorem IsWord.forall_later {first later : Char → Bool} {text : List Char}
    (h : IsWord first later text) (hle : ∀ x, first x = true → later x = true) :
    ∀ x ∈ text, later x = true := by
  cases text with
  | nil => exact h.elim
  | cons head tail =>
    intro x hx
    rcases List.mem_cons.1 hx with rfl | hx
    · exact hle x h.1
    · exact h.2 x hx

/-- A keyword of the dump. -/
def IsKeyword (text : List Char) : Prop := IsWord isWordChar isKeywordChar text

instance : DecidablePred IsKeyword :=
  inferInstanceAs (DecidablePred (IsWord isWordChar isKeywordChar))

/-- Some digits, no more than a numeral may have. -/
structure IsNumeral (text : List Char) : Prop where
  ne_nil : text ≠ []
  isDigit : ∀ x ∈ text, x.isDigit = true
  length_le : text.length ≤ Text.longestNumeral

/-- Some digits, more than a numeral may have. -/
structure IsOverlong (text : List Char) : Prop where
  isDigit : ∀ x ∈ text, x.isDigit = true
  length_lt : Text.longestNumeral < text.length

/-- What is read as a word is one. -/
theorem word_reads {first later : Char → Bool} {expected : String} {c next : Cursor}
    {value : String} (h : word first later expected c = .ok value next) :
    c.Reads value.toList next ∧ IsWord first later value.toList := by
  obtain ⟨head, mid, hhead, h⟩ := bind_eq_ok h
  obtain ⟨tail, mid', htail, h⟩ := bind_eq_ok h
  obtain ⟨rfl, rfl⟩ := pure_eq_ok h
  obtain ⟨hreads, hfirst⟩ := satisfy_reads hhead
  obtain ⟨hreads', hlater⟩ := takeWhile_reads htail
  have htext : (head.toString ++ tail).toList = head :: tail.toList := by
    rw [String.toList_append, Char.toString_eq_singleton, String.toList_singleton]
    rfl
  rw [htext]
  exact ⟨hreads.append hreads', hfirst, hlater⟩

theorem keyword_reads {c next : Cursor} {value : String} (h : keyword c = .ok value next) :
    c.Reads value.toList next ∧ IsKeyword value.toList := word_reads h

/-- What is read as a number is the value of the numeral that stands there. -/
theorem number_reads {c next : Cursor} {value : Nat} (h : number c = .ok value next) :
    ∃ digits, c.Reads digits next ∧ IsNumeral digits ∧ value = ofAsciiDigits digits := by
  obtain ⟨digits, mid, hdigits, h⟩ := bind_eq_ok h
  obtain ⟨hreads, hne, hall⟩ := takeWhile1_reads hdigits
  split at h
  · cases h
  · next hlong =>
    obtain ⟨rfl, rfl⟩ := pure_eq_ok h
    exact ⟨digits.toList, hreads, ⟨hne, hall, Nat.not_lt.1 hlong⟩, rfl⟩

/-- A number stops the run at too many digits. -/
theorem number_eq_stopped {c : Cursor} {stop : Stop} (h : number c = .stopped stop) :
    ∃ digits, digits.toList <+: c.rest ∧ IsOverlong digits.toList ∧
      stop = .notANumeral digits := by
  rcases bind_eq_stopped h with hdigits | ⟨digits, mid, hdigits, h⟩
  · unfold takeWhile1 at hdigits
    split at hdigits <;> cases hdigits
  · obtain ⟨hreads, -, hall⟩ := takeWhile1_reads hdigits
    split at h
    · next hlong =>
      cases h
      exact ⟨digits, ⟨_, hreads.rest_eq.symm⟩, ⟨hall, by rwa [String.length_toList]⟩, rfl⟩
    · cases h

/-! ## Quoted text -/

/-- A text that may stand between quotes: it holds no quote, and with `escapes`, a backslash
protects the character after it, which must be there. -/
inductive Quotable (quote : Char) (escapes : Bool) : List Char → Prop
  | nil : Quotable quote escapes []
  | plain {x : Char} {rest : List Char} : x ≠ quote → (escapes && x == '\\') = false →
      Quotable quote escapes rest → Quotable quote escapes (x :: rest)
  | escaped {x y : Char} {rest : List Char} : x ≠ quote → (escapes && x == '\\') = true →
      Quotable quote escapes rest → Quotable quote escapes (x :: y :: rest)

/-- Where nothing is protected, a text without the quote may stand between quotes. -/
theorem quotable_of_notMem {quote : Char} {text : List Char} (h : quote ∉ text) :
    Quotable quote false text := by
  induction text with
  | nil => exact .nil
  | cons x rest ih =>
    rw [List.mem_cons, not_or] at h
    exact .plain (Ne.symm h.1) rfl (ih h.2)

/-- A text is split at the first quote that nothing protects. -/
theorem splitAtQuote_eq_some_iff {quote : Char} {escapes : Bool} {chars text rest : List Char} :
    splitAtQuote quote escapes chars = some (text, rest) ↔
      chars = text ++ quote :: rest ∧ Quotable quote escapes text := by
  constructor
  · intro h
    fun_induction splitAtQuote quote escapes chars generalizing text with
    | case1 => cases h
    | case2 tail =>
      cases h
      exact ⟨rfl, .nil⟩
    | case3 x hx hescape => cases h
    | case4 x hx hescape y tail ih =>
      obtain ⟨⟨text', rest'⟩, hsplit, heq⟩ := Option.map_eq_some_iff.1 h
      cases heq
      obtain ⟨rfl, htext⟩ := ih hsplit
      exact ⟨rfl, .escaped hx hescape htext⟩
    | case5 x tail hx hescape ih =>
      obtain ⟨⟨text', rest'⟩, hsplit, heq⟩ := Option.map_eq_some_iff.1 h
      cases heq
      obtain ⟨rfl, htext⟩ := ih hsplit
      exact ⟨rfl, .plain hx (by simpa using hescape) htext⟩
  · rintro ⟨rfl, htext⟩
    induction htext with
    | nil => rw [List.nil_append, splitAtQuote.eq_def]; simp
    | plain hx hescape _ ih => rw [List.cons_append, splitAtQuote.eq_def]; simp [hx, hescape, ih]
    | escaped hx hescape _ ih =>
      rw [List.cons_append, List.cons_append, splitAtQuote.eq_def]; simp [hx, hescape, ih]

instance (quote : Char) (escapes : Bool) : DecidablePred (Quotable quote escapes) := fun text =>
  decidable_of_iff (splitAtQuote quote escapes (text ++ [quote]) = some (text, [])) <| by
    rw [splitAtQuote_eq_some_iff]
    exact and_iff_right rfl

/-- What is read as quoted stands between two quotes and can be quoted. -/
theorem quoted_reads {quote : Char} {escapes : Bool} {c next : Cursor} {value : String}
    (h : quoted quote escapes c = .ok value next) :
    c.Reads (quote :: value.toList ++ [quote]) next ∧ Quotable quote escapes value.toList := by
  unfold quoted at h
  split at h
  · cases h
  · next x rest hrest =>
    split at h
    case isFalse => cases h
    next hx =>
    split at h
    · next text rest' hsplit =>
      cases h
      obtain ⟨rfl, htext⟩ := splitAtQuote_eq_some_iff.1 hsplit
      rw [String.toList_ofList]
      refine ⟨⟨?_, ?_, id⟩, htext⟩
      · rw [hrest, hx]
        simp [Cursor.advance]
      · simp [Cursor.advance]
    · cases h

end Parser

end TypeScribe
