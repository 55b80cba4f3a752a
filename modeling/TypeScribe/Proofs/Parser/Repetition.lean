import TypeScribe.Proofs.Parser.Bounds

/-!
# Repetition

A parser that stays in a text (`StaysIn`), run over and over, takes a course through it (`Course`):
each step runs from where the one before it has ended, and all but the last move forward. A
repetition takes this course as far as it goes (`many_takes_course`). It keeps the value of a step
that has not moved, and nothing of a step that fails, so it never fails itself.
-/

namespace TypeScribe.Parser

variable {α : Type} {p : Parser α} {text : String}

/-- Where the parser succeeds in the text, it has stopped there or further on in the text. -/
def StaysIn (p : Parser α) (text : String) : Prop :=
  ∀ ⦃offset : Nat⦄ ⦃value : α⦄ ⦃next : Cursor⦄, offset ≤ text.length →
    p.runAt text offset = .ok value next →
    ∃ stop, next = .within text.toList stop ∧ offset ≤ stop ∧ stop ≤ text.length

/-- A parser that reads a stretch of whatever it is given stays in every text. -/
theorem staysIn_of_forward (p : Parser α) [Forward p] (text : String) : p.StaysIn text := by
  intro offset value next hoffset hok
  obtain ⟨read, hreads⟩ := Forward.reads hok
  rw [← String.length_toList] at hoffset ⊢
  obtain ⟨hnext, hle⟩ := hreads.eq_within hoffset
  exact ⟨offset + read.length, hnext, Nat.le_add_right _ _, hle⟩

/-- The parser, run again and again through the text, gives the values one by one. The steps start
and end at the places, of which the first is `start`. -/
structure Course (p : Parser α) (text : String) (start : Nat) (place : Nat → Nat)
    (values : List α) : Prop where
  start_eq : place 0 = start
  /-- Each step runs from where the one before it has ended. -/
  step : ∀ i (h : i < values.length),
    p.runAt text (place i) = .ok values[i] (.within text.toList (place (i + 1)))
  /-- Every step but possibly the last moves forward. -/
  moves : ∀ i, i + 1 < values.length → place i < place (i + 1)

/-- How a repetition ends after the steps of a course. -/
inductive EndsAfter (p : Parser α) (text : String) (place : Nat → Nat) (values : List α) :
    Reply (List α) → Prop
  /-- The parser fails where the last step has ended. -/
  | failed {failure : Failure} : p.runAt text (place values.length) = .failed failure →
      EndsAfter p text place values (.ok values (.within text.toList (place values.length)))
  /-- The last step has not moved. -/
  | still {i : Nat} : i + 1 = values.length → place i = place (i + 1) →
      EndsAfter p text place values (.ok values (.within text.toList (place values.length)))
  /-- The parser stops the run where the last step has ended. -/
  | stopped {stop : Stop} : p.runAt text (place values.length) = .stopped stop →
      EndsAfter p text place values (.stopped stop)

/-! ## Steps of a course -/

/-- The places of a course with one more in front. -/
def placesFrom (start : Nat) (place : Nat → Nat) : Nat → Nat
  | 0 => start
  | i + 1 => place i

/-- No step has been taken yet. -/
theorem course_nil (p : Parser α) (text : String) (start : Nat) :
    Course p text start (fun _ => start) [] where
  start_eq := rfl
  step i h := absurd h (Nat.not_lt_zero i)
  moves i h := absurd h (Nat.not_lt_zero (i + 1))

/-- One step, which may stand still. -/
theorem course_singleton {start stop : Nat} {value : α}
    (h : p.runAt text start = .ok value (.within text.toList stop)) :
    Course p text start (placesFrom start fun _ => stop) [value] where
  start_eq := rfl
  step i hi := by
    obtain rfl : i = 0 := Nat.lt_one_iff.1 hi
    exact h
  moves i hi := absurd hi (by simp)

/-- A turn in front prolongs a course. -/
theorem Course.cons {start mid : Nat} {value : α} {place : Nat → Nat} {values : List α}
    (h : Course p text mid place values)
    (hstep : p.runAt text start = .ok value (.within text.toList mid)) (hmoves : start < mid) :
    Course p text start (placesFrom start place) (value :: values) where
  start_eq := rfl
  step i hi := by
    cases i with
    | zero => rw [← h.start_eq] at hstep; exact hstep
    | succ i => exact h.step i (Nat.lt_of_succ_lt_succ hi)
  moves i hi := by
    cases i with
    | zero => rw [← h.start_eq] at hmoves; exact hmoves
    | succ i => exact h.moves i (Nat.lt_of_succ_lt_succ hi)

/-- A course ends the same way with a turn in front. -/
theorem EndsAfter.cons {place : Nat → Nat} {values : List α} {reply : Reply (List α)}
    (h : EndsAfter p text place values reply) (start : Nat) (value : α) :
    EndsAfter p text (placesFrom start place) (value :: values) (reply.map (value :: ·)) := by
  cases h with
  | failed hfailed => exact .failed hfailed
  | still hlast hstill => exact .still (congrArg (· + 1) hlast) hstill
  | stopped hstopped => exact .stopped hstopped

/-- A repetition takes a course to its end, if its budget suffices. -/
theorem exists_course_manyWithin (hp : p.StaysIn text) (budget : List Char) {start : Nat}
    (hstart : start ≤ text.length) (hbudget : text.length - start ≤ budget.length) :
    ∃ place values, Course p text start place values ∧
      values.length ≤ text.length - start + 1 ∧
      EndsAfter p text place values (manyWithin p budget (.within text.toList start)) := by
  generalize hc : Cursor.within text.toList start = c
  fun_induction manyWithin p budget c generalizing start with
  | case1 budget c failure hfailed =>
    subst hc
    exact ⟨_, _, course_nil p text start, Nat.zero_le _, .failed hfailed⟩
  | case2 budget c stop hstopped =>
    subst hc
    exact ⟨_, _, course_nil p text start, Nat.zero_le _, .stopped hstopped⟩
  | case3 budget c value next hrun hstill =>
    subst hc
    obtain ⟨stop, rfl, -, -⟩ := hp hstart hrun
    obtain rfl : stop = start := hstill
    exact ⟨_, _, course_singleton hrun, Nat.le_add_left .., .still (i := 0) rfl rfl⟩
  | case4 c value next hrun hmoved =>
    -- nothing is ahead, so no step moves
    subst hc
    obtain ⟨stop, rfl, hle, hstop⟩ := hp hstart hrun
    rw [List.length_nil] at hbudget
    exact absurd (show stop = start by omega) hmoved
  | case5 c value next hrun hmoved x budget ih =>
    subst hc
    obtain ⟨stop, rfl, hle, hstop⟩ := hp hstart hrun
    have hlt : start < stop := Nat.lt_of_le_of_ne hle (Ne.symm hmoved)
    rw [List.length_cons] at hbudget
    obtain ⟨place, values, hcourse, hlength, hends⟩ := ih hstop (by omega) rfl
    refine ⟨_, _, hcourse.cons hrun hlt, ?_, hends.cons start value⟩
    rw [List.length_cons]
    omega

/-- A repetition never fails. From a place in the text, a parser that stays in the text takes steps,
each from where the one before it has ended and all but the last moving forward, at most one more
than there are characters ahead. The repetition gives the values of the steps, in their order, and
ends where the last of them has ended: there the parser fails, or the last step has not moved. Only
where the parser itself stops the run after some steps is there no value. -/
theorem many_takes_course {α : Type} {p : Parser α} {text : String} (hp : p.StaysIn text)
    {position : Nat} (hposition : position ≤ text.length) :
    ∃ place values, Course p text position place values ∧
      values.length ≤ text.length - position + 1 ∧
      (((many p).runAt text position = .ok values (.within text.toList (place values.length)) ∧
          ((∃ failure, p.runAt text (place values.length) = .failed failure) ∨
            ∃ i, i + 1 = values.length ∧ place i = place (i + 1))) ∨
        ∃ stop, (many p).runAt text position = .stopped stop ∧
          p.runAt text (place values.length) = .stopped stop) := by
  have hbudget : text.length - position ≤ (Cursor.within text.toList position).rest.length := by
    rw [Cursor.length_rest_within, String.length_toList]
  obtain ⟨place, values, hcourse, hlength, hends⟩ :=
    exists_course_manyWithin hp _ hposition hbudget
  refine ⟨place, values, hcourse, hlength, ?_⟩
  change EndsAfter p text place values ((many p).runAt text position) at hends
  generalize (many p).runAt text position = reply at hends ⊢
  cases hends with
  | failed hfailed => exact .inl ⟨rfl, .inl ⟨_, hfailed⟩⟩
  | still hlast hstill => exact .inl ⟨rfl, .inr ⟨_, hlast, hstill⟩⟩
  | stopped hstopped => exact .inr ⟨_, rfl, hstopped⟩

/-- Runs of a letter: the first step reads both letters, the second one reads nothing and is the
last. -/
theorem many_takes_course_letters :
    (takeWhile (· == 'a')).StaysIn "aab" ∧ 0 ≤ "aab".length ∧
    ∃ place, Course (takeWhile (· == 'a')) "aab" 0 place ["aa", ""] ∧ 2 ≤ "aab".length - 0 + 1 ∧
      (many (takeWhile (· == 'a'))).runAt "aab" 0 =
        .ok ["aa", ""] (.within "aab".toList (place 2)) := by
  have hstays := staysIn_of_forward (takeWhile (· == 'a')) "aab"
  have hrun : (many (takeWhile (· == 'a'))).runAt "aab" 0 =
      .ok ["aa", ""] (.within "aab".toList 2) := by rfl
  obtain ⟨place, values, hcourse, hlength, ⟨hok, -⟩ | ⟨_, hstopped, -⟩⟩ :=
    many_takes_course hstays (Nat.zero_le _)
  · obtain ⟨rfl, -⟩ := Reply.ok.inj (hrun.symm.trans hok)
    exact ⟨hstays, Nat.zero_le _, place, hcourse, hlength, hok⟩
  · cases hrun.symm.trans hstopped

end TypeScribe.Parser
