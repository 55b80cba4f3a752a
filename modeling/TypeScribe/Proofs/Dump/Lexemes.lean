import Mathlib.Data.List.Induction
import TypeScribe.Proofs.Dump.Scan
import TypeScribe.Proofs.Parser.Accepts

/-!
# The small texts of a dump

The texts that the grammar reads below the level of an attribute: points, ranges, bracketed and
balanced text, and raw text. Each has a description that does not mention the parser (`PointText`,
`RangeText`, `IsRaw`) or is the text that the parser returns; the parser reads only such texts, and
accepts them wherever what follows does not prolong them. What follows an entry of a node never does
(`EntryEnd`).
-/

namespace TypeScribe.Dump.Grammar

open TypeScribe.Parser

/-- Where a character stands for the first time, a text without it ends before it. -/
theorem append_eq_append_cons {s t s' t' : List Char} {x : Char} (h : s ++ t = s' ++ x :: t')
    (hx : x ∉ s) : ∃ m, s' = s ++ m ∧ t = m ++ x :: t' := by
  rcases List.append_eq_append_iff.1 h with ⟨m, rfl, rfl⟩ | ⟨m, rfl, hm⟩
  · exact ⟨m, rfl, rfl⟩
  · cases m with
    | nil => exact ⟨[], by simp, hm.symm⟩
    | cons y m =>
      rw [List.cons_append, List.cons.injEq] at hm
      rw [← hm.1] at hx
      simp at hx

/-! ## What follows an entry -/

/-- What may stand behind an entry: nothing, a blank that starts a gap, or the end of the node
around it, with the same behind it. -/
inductive EntryEnd : List Char → Prop
  | nil : EntryEnd []
  | gap {x : Char} {rest : List Char} : x = ' ' ∨ x = '\n' → EntryEnd (x :: rest)
  | close {rest : List Char} : EntryEnd rest → EntryEnd (')' :: rest)

/-- Where an entry may end, nothing goes on but blanks and parentheses. -/
theorem EntryEnd.stopsAt {predicate : Char → Bool} {after : List Char} (h : EntryEnd after)
    (hspace : predicate ' ' = false) (hline : predicate '\n' = false)
    (hclose : predicate ')' = false) : StopsAt predicate after := by
  cases h with
  | nil => exact stopsAt_nil predicate
  | gap hx =>
    rcases hx with rfl | rfl
    · exact stopsAt_cons.2 hspace
    · exact stopsAt_cons.2 hline
  | close _ => exact stopsAt_cons.2 hclose

theorem EntryEnd.stopsAt_isKeywordChar {after : List Char} (h : EntryEnd after) :
    StopsAt isKeywordChar after :=
  h.stopsAt rfl rfl rfl

/-- Up to the first gap there are only closing parentheses. -/
theorem EntryEnd.eq_close {s t : List Char} (h : EntryEnd (s ++ t))
    (hs : ∀ x ∈ s, x ≠ ' ' ∧ x ≠ '\n') : ∀ x ∈ s, x = ')' := by
  induction s with
  | nil => exact fun _ hx => nomatch hx
  | cons y s ih =>
    have hy := hs y List.mem_cons_self
    cases h with
    | gap hgap => exact absurd hgap (by simp [hy])
    | close h =>
      intro x hx
      rcases List.mem_cons.1 hx with rfl | hx
      · rfl
      · exact ih h (fun z hz => hs z (List.mem_cons_of_mem _ hz)) x hx

/-- A literal that starts before the end of an entry ends before it. -/
theorem EntryEnd.literal_before {literal text after : List Char} (hafter : EntryEnd after)
    (hliteral : ' ' ∉ literal ∧ '\n' ∉ literal ∧ ')' ∉ literal) (h : literal <+: text ++ after) :
    literal <+: text := by
  obtain ⟨rest, heq⟩ := h
  rcases List.append_eq_append_iff.1 heq with ⟨m, rfl, -⟩ | ⟨m, rfl, rfl⟩
  · exact List.prefix_append _ _
  · cases m with
    | nil => simp
    | cons x m =>
      exfalso
      cases hafter with
      | gap hgap => rcases hgap with rfl | rfl <;> simp at hliteral
      | close _ => simp at hliteral

/-! ## Numerals -/

/-- One more digit makes the earlier ones worth ten times as much. -/
theorem ofAsciiDigits_append (digits : List Char) (d : Char) :
    ofAsciiDigits (digits ++ [d]) = 10 * ofAsciiDigits digits + (d.toNat - '0'.toNat) := by
  rw [ofAsciiDigits, List.foldl_append]
  rfl

/-- A digit is the digit of its value, which is less than ten. -/
theorem digitChar_of_isDigit {d : Char} (h : d.isDigit = true) :
    d.toNat - '0'.toNat < 10 ∧ Nat.digitChar (d.toNat - '0'.toNat) = d := by
  have hrange : ∀ n < 10, Nat.digitChar n = Char.ofNat (48 + n) := by decide
  simp only [Char.isDigit, ge_iff_le, Bool.and_eq_true, decide_eq_true_eq] at h
  have hlow : 48 ≤ d.toNat := h.1
  have hhigh : d.toNat ≤ 57 := h.2
  have hvalue : d.toNat - '0'.toNat = d.toNat - 48 := rfl
  refine ⟨by omega, ?_⟩
  rw [hvalue, hrange _ (by omega), Nat.add_sub_cancel' hlow, Char.ofNat_toNat]

/-- Digits that do not start with a zero are the print of their value, which is not zero. -/
theorem toDigits_ofAsciiDigits {digits : List Char} (hne : digits ≠ [])
    (hall : ∀ x ∈ digits, x.isDigit = true) (hzero : digits.head? ≠ some '0') :
    0 < ofAsciiDigits digits ∧ Nat.toDigits 10 (ofAsciiDigits digits) = digits := by
  induction digits using List.reverseRecOn with
  | nil => exact absurd rfl hne
  | append_singleton digits d ih =>
    obtain ⟨hlt, hchar⟩ := digitChar_of_isDigit (hall d (by simp))
    rw [ofAsciiDigits_append]
    by_cases hnil : digits = []
    · subst hnil
      have hpos : 0 < d.toNat - '0'.toNat := by
        refine Nat.pos_of_ne_zero fun h => hzero ?_
        rw [h] at hchar
        rw [← hchar]
        rfl
      have hvalue : 10 * ofAsciiDigits [] + (d.toNat - '0'.toNat) = d.toNat - '0'.toNat :=
        Nat.zero_add _
      rw [hvalue, Nat.toDigits_of_lt_base hlt, hchar]
      exact ⟨hpos, rfl⟩
    · have hhead : digits.head? ≠ some '0' := by
        rwa [List.head?_append_of_ne_nil _ hnil] at hzero
      obtain ⟨hpos, hprint⟩ := ih hnil (fun x hx => hall x (by simp [hx])) hhead
      refine ⟨by omega, ?_⟩
      rw [← Nat.toDigits_append_toDigits (by omega) hpos hlt, hprint,
        Nat.toDigits_of_lt_base hlt, hchar]

theorem isNumeral_toDigits {n : Nat} (h : (Nat.toDigits 10 n).length ≤ Text.longestNumeral) :
    IsNumeral (Nat.toDigits 10 n) :=
  ⟨Nat.toDigits_ne_nil, fun _ hx => Nat.isDigit_of_mem_toDigits (by omega) (by omega) hx, h⟩

theorem ofAsciiDigits_toDigits (n : Nat) : ofAsciiDigits (Nat.toDigits 10 n) = n :=
  Nat.ofDigitChars_ten_toDigits

/-! ## Points and ranges -/

/-- A character of a file name. -/
def isFileChar (c : Char) : Bool := c != ':' && c != ' ' && c != '\n'

/-- The texts of a point: its numbers may have leading zeros. -/
inductive PointText : List Char → Point → Prop
  | mk {file line column : List Char} : file ≠ [] → (∀ x ∈ file, isFileChar x = true) →
      IsNumeral line → IsNumeral column →
      PointText (file ++ (':' :: line ++ (':' :: column)))
        ⟨String.ofList file, ofAsciiDigits line, ofAsciiDigits column⟩

/-- The texts of a range. -/
inductive RangeText : List Char → Range → Prop
  | mk {s t : List Char} {start stop : Point} : PointText s start → PointText t stop →
      RangeText ('[' :: s ++ (" - ".toList ++ t ++ [']'])) ⟨start, stop⟩

/-- A point is read from a text of it. -/
theorem point_reads {c next : Cursor} {value : Point} (h : point c = .ok value next) :
    ∃ text, c.Reads text next ∧ PointText text value := by
  obtain ⟨file, c₁, hfile, h⟩ := bind_eq_ok h
  obtain ⟨_, c₂, hcolon, h⟩ := bind_eq_ok h
  obtain ⟨line, c₃, hline, h⟩ := bind_eq_ok h
  obtain ⟨_, c₄, hcolon', h⟩ := bind_eq_ok h
  obtain ⟨column, c₅, hcolumn, h⟩ := bind_eq_ok h
  obtain ⟨rfl, rfl⟩ := pure_eq_ok h
  obtain ⟨hreads, hne, hall⟩ := takeWhile1_reads hfile
  obtain ⟨digits, hdigits, hnumeral, rfl⟩ := number_reads hline
  obtain ⟨digits', hdigits', hnumeral', rfl⟩ := number_reads hcolumn
  have hreads' := ((token_reads hcolon).1.append hdigits).append <|
    (token_reads hcolon').1.append hdigits'
  refine ⟨_, hreads.append hreads', ?_⟩
  have htext := PointText.mk hne hall hnumeral hnumeral'
  rwa [String.ofList_toList] at htext

/-- A range is read from a text of it. -/
theorem range_reads {c next : Cursor} {value : Range} (h : range c = .ok value next) :
    ∃ text, c.Reads text next ∧ RangeText text value := by
  obtain ⟨_, c₁, hopen, h⟩ := bind_eq_ok h
  obtain ⟨start, c₂, hstart, h⟩ := bind_eq_ok h
  obtain ⟨_, c₃, hdash, h⟩ := bind_eq_ok h
  obtain ⟨stop, c₄, hstop, h⟩ := bind_eq_ok h
  obtain ⟨_, c₅, hclose, h⟩ := bind_eq_ok h
  obtain ⟨rfl, rfl⟩ := pure_eq_ok h
  obtain ⟨s, hs, hstart⟩ := point_reads hstart
  obtain ⟨t, ht, hstop⟩ := point_reads hstop
  have hreads := ((token_reads hopen).1.append hs).append <|
    ((token_reads hdash).1.append ht).append (token_reads hclose).1
  exact ⟨_, hreads, .mk hstart hstop⟩

/-- A point is read up to where no digit stands. -/
theorem point_accepts {text after : List Char} {value : Point} (h : PointText text value)
    (hafter : StopsAt Char.isDigit after) : point.Accepts text value after := by
  obtain ⟨hne, hall, hline, hcolumn⟩ := h
  refine (takeWhile1_accepts hne hall ?_).bind ?_
  · exact stopsAt_cons.2 rfl
  refine ((token_accepts ":" _).bind (s := [':']) ?_)
  refine (number_accepts hline (stopsAt_cons.2 rfl)).bind ?_
  exact (token_accepts ":" _).bind (s := [':']) (number_accepts hcolumn hafter).bind_pure

/-- A range is read up to its bracket. -/
theorem range_accepts {text : List Char} {value : Range} (h : RangeText text value)
    (after : List Char) : range.Accepts text value after := by
  obtain ⟨hstart, hstop⟩ := h
  refine (token_accepts "[" _).bind (s := ['[']) ?_
  refine (point_accepts hstart (stopsAt_cons.2 rfl)).bind ?_
  refine (token_accepts " - " _).bind (s := " - ".toList) ?_
  refine (point_accepts hstop (stopsAt_cons.2 rfl)).bind ?_
  exact (token_accepts "]" _).bind_pure

/-- A text at which a point does not fail: its line has too many digits for a numeral, or there is
a column behind it. -/
inductive StartsPoint : List Char → Prop
  | line {file digits : List Char} : file ≠ [] → (∀ x ∈ file, isFileChar x = true) →
      IsOverlong digits → StartsPoint (file ++ ':' :: digits)
  | column {file line digits : List Char} : file ≠ [] → (∀ x ∈ file, isFileChar x = true) →
      IsNumeral line → digits ≠ [] → (∀ x ∈ digits, x.isDigit = true) →
      StartsPoint (file ++ (':' :: line ++ (':' :: digits)))

/-- A point starts with itself. -/
theorem PointText.startsPoint {text : List Char} {value : Point} (h : PointText text value) :
    StartsPoint text := by
  obtain ⟨hne, hall, hline, hcolumn⟩ := h
  exact .column hne hall hline hcolumn.ne_nil hcolumn.isDigit

/-- A point is stopped by too many digits of its line or its column. -/
theorem point_eq_stopped {c : Cursor} {stop : Stop} (h : point c = .stopped stop) :
    ∃ read, StartsPoint read ∧ read <+: c.rest := by
  rcases bind_eq_stopped h with h | ⟨file, c₁, hfile, h⟩
  · exact absurd h (Unstopped.ne_stopped c stop)
  rcases bind_eq_stopped h with h | ⟨_, c₂, hcolon, h⟩
  · exact absurd h (Unstopped.ne_stopped c₁ stop)
  obtain ⟨hreads, hne, hall⟩ := takeWhile1_reads hfile
  have hcolon := (token_reads hcolon).1
  rcases bind_eq_stopped h with h | ⟨line, c₃, hline, h⟩
  · obtain ⟨digits, hprefix, hlong, -⟩ := number_eq_stopped h
    exact ⟨_, .line hne hall hlong, hreads.stands (hcolon.stands hprefix)⟩
  rcases bind_eq_stopped h with h | ⟨_, c₄, hcolon', h⟩
  · exact absurd h (Unstopped.ne_stopped c₃ stop)
  obtain ⟨digits, hdigits, hnumeral, rfl⟩ := number_reads hline
  have hcolon' := (token_reads hcolon').1
  rcases bind_eq_stopped h with h | ⟨column, c₅, hcolumn, h⟩
  · obtain ⟨digits', hprefix, hlong, -⟩ := number_eq_stopped h
    have hne' : digits'.toList ≠ [] := List.ne_nil_of_length_pos (Nat.zero_lt_of_lt hlong.length_lt)
    exact ⟨_, .column hne hall hnumeral hne' hlong.isDigit,
      hreads.stands (hcolon.stands (hdigits.stands (hcolon'.stands hprefix)))⟩
  · cases h

/-- Where a point starts, one is read as far as the digits of its column go, or its line or column
has too many digits. -/
theorem StartsPoint.reads_or_stops {read : List Char} (h : StartsPoint read) (rest : List Char) :
    (∃ text after value, read ++ rest = text ++ after ∧ PointText text value ∧
      StopsAt Char.isDigit after) ∨ ∃ stop, point.StopsOn (read ++ rest) stop := by
  cases h with
  | line hne hall hlong =>
    obtain ⟨stop, hstopped⟩ := exists_number_stopsOn hlong rest
    refine .inr ⟨stop, ?_⟩
    rw [List.append_assoc]
    refine (takeWhile1_accepts hne hall (stopsAt_cons.2 rfl)).bind_stopsOn ?_
    exact (token_accepts ":" _).bind_stopsOn (hstopped.bind _)
  | @column file line digits hne hall hline hne' hdigits =>
    obtain ⟨run, after, rfl, hrun, hafter⟩ : ∃ run after, rest = run ++ after ∧
        (∀ x ∈ run, x.isDigit = true) ∧ StopsAt Char.isDigit after :=
      ⟨_, _, List.takeWhile_append_dropWhile.symm, fun _ hx => List.mem_takeWhile_imp hx,
        stopsAt_dropWhile _ rest⟩
    have hdigits : ∀ x ∈ digits ++ run, x.isDigit = true :=
      List.forall_mem_append.2 ⟨hdigits, hrun⟩
    have heq : file ++ (':' :: line ++ (':' :: digits)) ++ (run ++ after) =
        file ++ (':' :: (line ++ (':' :: (digits ++ run ++ after)))) := by
      simp
    rw [heq]
    by_cases hlength : (digits ++ run).length ≤ Text.longestNumeral
    · have hcolumn : IsNumeral (digits ++ run) :=
        ⟨List.append_ne_nil_of_left_ne_nil hne' _, hdigits, hlength⟩
      exact .inl ⟨_, after, _, by simp, .mk hne hall hline hcolumn, hafter⟩
    · have hstopped := number_stopsOn ⟨hdigits, Nat.lt_of_not_le hlength⟩ hafter
      refine .inr ⟨.notANumeral (String.ofList (digits ++ run)), ?_⟩
      refine (takeWhile1_accepts hne hall (stopsAt_cons.2 rfl)).bind_stopsOn ?_
      refine (token_accepts ":" _).bind_stopsOn ?_
      refine (number_accepts hline (stopsAt_cons.2 rfl)).bind_stopsOn ?_
      exact (token_accepts ":" _).bind_stopsOn (hstopped.bind _)

/-- A point does not fail where one starts. -/
theorem StartsPoint.ne_failed {read : List Char} (h : StartsPoint read) (rest : List Char)
    (offset : Nat) (failure : Failure) :
    point ⟨offset, read ++ rest, false⟩ ≠ .failed failure := by
  intro hfailed
  rcases h.reads_or_stops rest with ⟨text, after, value, heq, htext, hafter⟩ | ⟨stop, hstops⟩
  · rw [heq, point_accepts htext hafter] at hfailed
    cases hfailed
  · cases (hstops offset).symm.trans hfailed

/-- A point is rejected where none starts. -/
theorem point_rejects_iff {text : List Char} :
    point.Rejects text ↔ ∀ read, StartsPoint read → ¬read <+: text := by
  constructor
  · rintro h read hread ⟨rest, rfl⟩
    obtain ⟨failure, hfailed⟩ := h 0
    exact hread.ne_failed rest 0 failure hfailed
  · intro h offset
    cases hpoint : point ⟨offset, text, false⟩ with
    | ok value next =>
      obtain ⟨read, hreads, hread⟩ := point_reads hpoint
      exact absurd ⟨_, hreads.rest_eq.symm⟩ (h read hread.startsPoint)
    | failed failure => exact ⟨failure, rfl⟩
    | stopped stop =>
      obtain ⟨read, hread, hstands⟩ := point_eq_stopped hpoint
      exact absurd hstands (h read hread)

instance : Shallow point := by
  unfold point
  infer_instance

instance : Shallow range := by
  unfold range
  infer_instance

/-! ## Text between brackets and parentheses -/

/-- The text is read up to its first closing bracket. -/
theorem elements_reads {c next : Cursor} {value : List String} (h : elements c = .ok value next) :
    ∃ text, c.Reads ('[' :: text ++ [']']) next ∧ ∀ x ∈ text, x ≠ ']' := by
  obtain ⟨_, c₁, hopen, h⟩ := bind_eq_ok h
  obtain ⟨text, c₂, htext, h⟩ := bind_eq_ok h
  obtain ⟨_, c₃, hclose, h⟩ := bind_eq_ok h
  obtain ⟨rfl, rfl⟩ := pure_eq_ok h
  obtain ⟨hreads, hall⟩ := takeWhile_reads htext
  have hreads' := ((token_reads hopen).1.append hreads).append (token_reads hclose).1
  exact ⟨text.toList, hreads', fun x hx => by simpa using hall x hx⟩

/-- The elements of a list are read up to the first bracket that closes. -/
theorem elements_accepts {text : List Char} (h : ∀ x ∈ text, x ≠ ']') (after : List Char) :
    elements.Accepts ('[' :: text ++ [']']) [String.ofList text] after := by
  refine Accepts.bind (s := ['[']) (token_accepts "[" _) ?_
  refine Accepts.bind (takeWhile_accepts ?_ (stopsAt_cons.2 rfl)) ?_
  · intro x hx
    simpa using h x hx
  · exact (token_accepts "]" after).bind_pure

/-- The scan reads a text, and it would read the same text before anything else. -/
theorem closeBalancedFrom_eq_ok {closing : Char} {offset depth : Nat} {chars : List Char}
    {next : Cursor} {value : Unit}
    (h : closeBalancedFrom closing offset depth chars = .ok value next) :
    ∃ text, chars = text ++ next.rest ∧ next = ⟨offset + text.length, next.rest, false⟩ ∧
      ∀ offset' after, closeBalancedFrom closing offset' depth (text ++ after) =
        .ok () ⟨offset' + text.length, after, false⟩ := by
  have hends := scanEnds closing offset depth chars
  rw [h] at hends
  cases hends with
  | @closes text rest hchars hscans =>
    refine ⟨text ++ [closing], ?_, ?_, fun offset' after => ?_⟩
    · rw [hchars, List.append_assoc]
      rfl
    · rw [List.length_append]
      rfl
    · rw [List.append_assoc, closeBalancedFrom_append hscans, List.singleton_append,
        closeBalancedFrom, if_pos (by simp), List.length_append]
      rfl

/-- The scan for a closing sign is never stopped. -/
theorem closeBalancedFrom_ne_stopped (closing : Char) (offset depth : Nat) (chars : List Char)
    (stop : Stop) : closeBalancedFrom closing offset depth chars ≠ .stopped stop := by
  intro h
  have hends := scanEnds closing offset depth chars
  rw [h] at hends
  cases hends

instance {stops : Stop → Prop} (closing : Char) : Avoids stops (closeBalanced closing) :=
  ⟨fun c stop _ => closeBalancedFrom_ne_stopped closing c.offset 0 c.rest stop⟩

/-- A text that is scanned to its balanced end is kept as written, and it would be read in the same
way before anything else. -/
theorem balanced_reads {opening value : String} {closing : Char} {c next : Cursor}
    (h : slice (token opening >>= fun _ => closeBalanced closing) c = .ok value next) :
    c.Reads value.toList next ∧ opening.toList <+: value.toList ∧
      ∀ after, (slice (token opening >>= fun _ => closeBalanced closing)).Accepts
        value.toList value after := by
  obtain ⟨_, hscan, rfl⟩ := slice_eq_ok h
  obtain ⟨_, mid, hopen, hscan⟩ := bind_eq_ok hscan
  obtain ⟨hreads, -⟩ := token_reads hopen
  obtain ⟨text, hrest, hnext, haccepts⟩ := closeBalancedFrom_eq_ok hscan
  have hreads' : mid.Reads text next := ⟨hrest, by rw [hnext], fun _ => by rw [hnext]⟩
  have hclose : ∀ after, (closeBalanced closing).Accepts text () after :=
    fun after offset => haccepts offset after
  rw [(hreads.append hreads').upTo_eq, String.toList_ofList]
  exact ⟨hreads.append hreads', ⟨text, rfl⟩,
    fun after => ((token_accepts opening _).bind (hclose after)).slice⟩

/-- What is read as a substitution is one wherever it stands. -/
theorem substitution_reads {value : String} {c next : Cursor}
    (h : substitution c = .ok value next) :
    c.Reads value.toList next ∧ "[with".toList <+: value.toList ∧
      ∀ after, substitution.Accepts value.toList value after := balanced_reads h

theorem group_reads {value : String} {c next : Cursor} (h : group c = .ok value next) :
    c.Reads value.toList next ∧ "(".toList <+: value.toList ∧
      ∀ after, group.Accepts value.toList value after := balanced_reads h

instance {stops : Stop → Prop} : Avoids stops substitution := by
  unfold substitution
  infer_instance

instance {stops : Stop → Prop} : Avoids stops group := by
  unfold group
  infer_instance

/-! ## Raw text -/

/-- Text that needs no quotes. -/
def IsRaw (text : List Char) : Prop := IsWord isRawStart isRawChar text

instance : DecidablePred IsRaw := inferInstanceAs (DecidablePred (IsWord isRawStart isRawChar))

theorem isRawChar_of_isRawStart {x : Char} (h : isRawStart x = true) : isRawChar x = true := by
  simp only [isRawStart, Bool.and_eq_true] at h
  exact h.1.1.1

/-- What is read as raw is raw. -/
theorem rawText_reads {c next : Cursor} {value : String} (h : rawText c = .ok value next) :
    c.Reads value.toList next ∧ IsRaw value.toList := by
  obtain ⟨head, mid, hhead, h⟩ := bind_eq_ok h
  obtain ⟨tail, mid', htail, h⟩ := bind_eq_ok h
  obtain ⟨rfl, rfl⟩ := pure_eq_ok h
  obtain ⟨hreads, hne, hstart⟩ := takeWhile1_reads hhead
  obtain ⟨hreads', hlater⟩ := takeWhile_reads htail
  rw [String.toList_append]
  refine ⟨hreads.append hreads', ?_⟩
  cases htext : head.toList with
  | nil => exact absurd htext hne
  | cons x run =>
    rw [htext] at hstart
    refine ⟨hstart x List.mem_cons_self, fun y hy => ?_⟩
    rcases List.mem_append.1 hy with hy | hy
    · exact isRawChar_of_isRawStart (hstart y (List.mem_cons_of_mem _ hy))
    · exact hlater y hy

/-- A raw text is read up to where no raw character stands. -/
theorem rawText_accepts {text after : List Char} (h : IsRaw text)
    (hafter : StopsAt isRawChar after) : rawText.Accepts text (String.ofList text) after := by
  have hsplit : text.takeWhile isRawStart ++ text.dropWhile isRawStart = text :=
    List.takeWhile_append_dropWhile
  have hne : text.takeWhile isRawStart ≠ [] := by
    cases text with
    | nil => exact h.elim
    | cons head tail => rw [List.takeWhile_cons_of_pos h.1]; exact List.cons_ne_nil _ _
  -- the first run ends inside the text, or at its end, where nothing raw follows
  have hstop : StopsAt isRawStart (text.dropWhile isRawStart ++ after) := by
    cases hdrop : text.dropWhile isRawStart with
    | nil => exact hafter.mono fun _ => isRawChar_of_isRawStart
    | cons x rest =>
      have hstop := stopsAt_dropWhile isRawStart text
      rw [hdrop] at hstop
      exact stopsAt_cons.2 (stopsAt_cons.1 hstop)
  have htail : ∀ x ∈ text.dropWhile isRawStart, isRawChar x = true := fun x hx =>
    h.forall_later (fun _ => isRawChar_of_isRawStart) x ((List.dropWhile_sublist _).subset hx)
  have hhead : (takeWhile1 isRawStart "text").Accepts _ _ _ :=
    takeWhile1_accepts hne (fun _ hx => List.mem_takeWhile_imp hx) hstop
  have haccepts : rawText.Accepts _ _ after :=
    hhead.bind ((takeWhile_accepts htail hafter).bind_pure (f := fun tail => _ ++ tail))
  rwa [← String.ofList_append, hsplit] at haccepts

end TypeScribe.Dump.Grammar
