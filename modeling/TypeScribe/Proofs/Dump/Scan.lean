import TypeScribe.Dump.Grammar

/-!
# The scan for a closing character

The scan for a closing character counts the parentheses that are open. `Scans` says what it passes
over, one case for each kind of character, and `scanEnds` how it ends: at the closing character, at
a parenthesis that closes nothing, or at the end of the text. What is known of the scan follows from
these two, so nothing else is proved by going through its steps.
-/

namespace TypeScribe.Dump.Grammar

/-- The scan passes over the text, with `depth` parentheses open before it and `left` after it. -/
inductive Scans (closing : Char) : Nat → List Char → Nat → Prop
  | nil {depth : Nat} : Scans closing depth [] depth
  | opens {depth left : Nat} {text : List Char} : ('(' = closing → 0 < depth) →
      Scans closing (depth + 1) text left → Scans closing depth ('(' :: text) left
  | closes {depth left : Nat} {text : List Char} :
      Scans closing depth text left → Scans closing (depth + 1) (')' :: text) left
  | other {depth left : Nat} {x : Char} {text : List Char} : x ≠ '(' → x ≠ ')' →
      (x = closing → 0 < depth) → Scans closing depth text left →
      Scans closing depth (x :: text) left

namespace Scans

variable {closing : Char} {depth left : Nat} {text s t : List Char}

/-- What is opened and not closed is left open. -/
theorem count_eq (h : Scans closing depth text left) :
    depth + text.count '(' = left + text.count ')' := by
  induction h with
  | nil => rfl
  | opens _ _ ih =>
    simp
    omega
  | closes _ ih =>
    simp
    omega
  | other hopen hclose _ _ ih =>
    rwa [List.count_cons_of_ne hopen, List.count_cons_of_ne hclose]

/-- What is scanned is scanned piece by piece. -/
theorem split (h : Scans closing depth (s ++ t) left) :
    ∃ mid, Scans closing depth s mid ∧ Scans closing mid t left := by
  induction s generalizing depth with
  | nil => exact ⟨depth, .nil, h⟩
  | cons x s ih =>
    rw [List.cons_append] at h
    cases h with
    | opens hopen hlater =>
      obtain ⟨mid, hs, ht⟩ := ih hlater
      exact ⟨mid, .opens hopen hs, ht⟩
    | closes hlater =>
      obtain ⟨mid, hs, ht⟩ := ih hlater
      exact ⟨mid, .closes hs, ht⟩
    | other hopen hclose hclosing hlater =>
      obtain ⟨mid, hs, ht⟩ := ih hlater
      exact ⟨mid, .other hopen hclose hclosing hs, ht⟩

/-- No parenthesis is closed that is not open. -/
theorem count_le (h : Scans closing depth (s ++ t) left) :
    s.count ')' ≤ depth + s.count '(' := by
  obtain ⟨mid, hs, -⟩ := h.split
  have hcount := hs.count_eq
  omega

/-- The closing character is passed over inside parentheses only. -/
theorem pos (h : Scans closing depth (closing :: text) left) : 0 < depth := by
  cases h with
  | opens hopen _ => exact hopen rfl
  | closes _ => exact Nat.succ_pos _
  | other _ _ hclosing _ => exact hclosing rfl

/-- Before a sign that closes, less is closed than opened. -/
theorem count_lt (h : Scans closing depth (s ++ closing :: t) left) :
    s.count ')' < depth + s.count '(' := by
  obtain ⟨mid, hs, ht⟩ := h.split
  have hcount := hs.count_eq
  have hpos := ht.pos
  omega

end Scans

variable {closing : Char} {depth left : Nat} {text : List Char}

/-- Behind a text that it passes over, the scan goes on with the parentheses that are left open. -/
theorem closeBalancedFrom_append (h : Scans closing depth text left) (offset : Nat)
    (rest : List Char) :
    closeBalancedFrom closing offset depth (text ++ rest) =
      closeBalancedFrom closing (offset + text.length) left rest := by
  induction h generalizing offset with
  | nil => rfl
  | opens hclosing _ ih =>
    rw [List.cons_append, closeBalancedFrom.eq_def]
    dsimp only
    rw [if_neg (by simpa [Nat.pos_iff_ne_zero] using hclosing), if_pos rfl, ih,
      List.length_cons, Nat.add_right_comm, Nat.add_assoc]
  | closes _ ih =>
    rw [List.cons_append, closeBalancedFrom.eq_def]
    dsimp only
    rw [if_neg (by simp), if_neg (by decide), if_pos rfl, ih, List.length_cons,
      Nat.add_right_comm, Nat.add_assoc]
  | other hopen hclose hclosing _ ih =>
    rw [List.cons_append, closeBalancedFrom.eq_def]
    dsimp only
    rw [if_neg (by simpa [Nat.pos_iff_ne_zero] using hclosing), if_neg hopen, if_neg hclose, ih,
      List.length_cons, Nat.add_right_comm, Nat.add_assoc]

/-- The scan passes over what comes before the first character that ends it. -/
theorem exists_scans (closing : Char) (depth : Nat) (chars : List Char) :
    ∃ text rest left, chars = text ++ rest ∧ Scans closing depth text left ∧
      ∀ x after, rest = x :: after → left = 0 ∧ (x = closing ∨ x = ')') := by
  induction chars generalizing depth with
  | nil => exact ⟨[], [], depth, rfl, .nil, nofun⟩
  | cons x chars ih =>
    by_cases hstop : depth = 0 ∧ (x = closing ∨ x = ')')
    · refine ⟨[], x :: chars, depth, rfl, .nil, fun _ _ heq => ?_⟩
      cases heq
      exact hstop
    have hpos : x = closing ∨ x = ')' → 0 < depth := fun hx =>
      Nat.pos_of_ne_zero fun hdepth => hstop ⟨hdepth, hx⟩
    by_cases hopen : x = '('
    · subst hopen
      obtain ⟨text, rest, left, rfl, hscans, hends⟩ := ih (depth + 1)
      exact ⟨_ :: text, rest, left, rfl, .opens (fun h => hpos (.inl h)) hscans, hends⟩
    by_cases hclose : x = ')'
    · subst hclose
      obtain ⟨below, rfl⟩ := Nat.exists_eq_add_one.2 (hpos (.inr rfl))
      obtain ⟨text, rest, left, rfl, hscans, hends⟩ := ih below
      exact ⟨_ :: text, rest, left, rfl, .closes hscans, hends⟩
    · obtain ⟨text, rest, left, rfl, hscans, hends⟩ := ih depth
      exact ⟨x :: text, rest, left, rfl,
        .other hopen hclose (fun h => hpos (.inl h)) hscans, hends⟩

/-- How a scan ends, with `depth` parentheses open at its start. -/
inductive ScanEnds (closing : Char) (offset depth : Nat) (chars : List Char) : Reply Unit → Prop
  | closes {text rest : List Char} : chars = text ++ closing :: rest →
      Scans closing depth text 0 →
      ScanEnds closing offset depth chars (.ok () ⟨offset + text.length + 1, rest, false⟩)
  | sinks {text rest : List Char} : closing ≠ ')' → chars = text ++ ')' :: rest →
      Scans closing depth text 0 →
      ScanEnds closing offset depth chars
        (.failed ⟨offset + text.length, "balanced parentheses"⟩)
  | runsOut {left : Nat} : Scans closing depth chars left →
      ScanEnds closing offset depth chars
        (.failed ⟨offset + chars.length, "'" ++ closing.toString ++ "'"⟩)

/-- A scan ends where its depth comes to nothing, where it sinks below, or at the end. -/
theorem scanEnds (closing : Char) (offset depth : Nat) (chars : List Char) :
    ScanEnds closing offset depth chars (closeBalancedFrom closing offset depth chars) := by
  obtain ⟨text, rest, left, rfl, hscans, hends⟩ := exists_scans closing depth chars
  rw [closeBalancedFrom_append hscans]
  cases rest with
  | nil =>
    rw [List.append_nil, closeBalancedFrom]
    exact .runsOut hscans
  | cons x rest =>
    obtain ⟨rfl, hx⟩ := hends x rest rfl
    rw [closeBalancedFrom]
    by_cases hclosing : x = closing
    · subst hclosing
      rw [if_pos (by simp)]
      exact .closes rfl hscans
    · obtain rfl : x = ')' := hx.resolve_left hclosing
      rw [if_neg (by simpa using hclosing), if_neg (by decide), if_pos rfl]
      exact .sinks (Ne.symm hclosing) rfl hscans

end TypeScribe.Dump.Grammar
