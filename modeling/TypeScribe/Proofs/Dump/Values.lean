import TypeScribe.Proofs.Dump.Declarations
import TypeScribe.Proofs.Dump.Printer

/-!
# Values of unknown attributes

A value that has no rule of its own is tried in eight ways, and the first that reads something wins.
A value that is read as a whole when it stands alone (`IsValue`) is read as a whole wherever an
entry may end (`unknownValue_accepts`): the way that wins for the value alone still reads it, and
the ways before it, which fail on the value alone, still fail. The second half is the harder one,
since a way may run past the end of the value. A file name runs over closing parentheses, but no
colon follows them; a signature could be closed by one, but a raw value has opened none. Only
brackets and quotes run on without end, so a value that starts with one has to end with its
counterpart.
-/

namespace TypeScribe.Dump.Grammar

open TypeScribe.Parser

/-! ## Points and ranges before the end of an entry -/

/-- What a point starts with has no spaces or line breaks. -/
theorem StartsPoint.ne_gap {text : List Char} {x : Char} (h : StartsPoint text) (hx : x ∈ text) :
    x ≠ ' ' ∧ x ≠ '\n' := by
  have hdigit : ∀ {x : Char}, x.isDigit = true → x ≠ ' ' ∧ x ≠ '\n' := by
    intro x hdigit
    refine ⟨?_, ?_⟩ <;> rintro rfl <;> cases hdigit
  have hfileChar : ∀ {x : Char}, isFileChar x = true → x ≠ ' ' ∧ x ≠ '\n' := by
    intro x hchar
    refine ⟨?_, ?_⟩ <;> rintro rfl <;> cases hchar
  cases h with
  | line _ hfile hlong =>
    simp only [List.mem_append, List.mem_cons] at hx
    rcases hx with hx | rfl | hx
    · exact hfileChar (hfile x hx)
    · decide
    · exact hdigit (hlong.isDigit x hx)
  | column _ hfile hline _ hcolumn =>
    simp only [List.mem_append, List.mem_cons] at hx
    rcases hx with hx | (rfl | hx) | rfl | hx
    · exact hfileChar (hfile x hx)
    · decide
    · exact hdigit (hline.isDigit x hx)
    · decide
    · exact hdigit (hcolumn x hx)

/-- What a point starts with ends with a digit. -/
theorem StartsPoint.getLast?_isDigit {text : List Char} (h : StartsPoint text) :
    ∃ d, text.getLast? = some d ∧ d.isDigit = true := by
  have hlast : ∀ {digits : List Char}, digits ≠ [] → (∀ x ∈ digits, x.isDigit = true) →
      ∃ d, digits.getLast? = some d ∧ d.isDigit = true := by
    intro digits hne hdigits
    obtain ⟨d, hd⟩ := Option.isSome_iff_exists.1 (List.getLast?_isSome.2 hne)
    exact ⟨d, hd, hdigits d (List.mem_of_getLast? hd)⟩
  cases h with
  | line _ _ hlong =>
    have hne := List.ne_nil_of_length_pos (Nat.zero_lt_of_lt hlong.length_lt)
    obtain ⟨d, hd, hdigit⟩ := hlast hne hlong.isDigit
    exact ⟨d, by simp [List.getLast?_append, List.getLast?_cons, hd], hdigit⟩
  | column _ _ _ hne hcolumn =>
    obtain ⟨d, hd, hdigit⟩ := hlast hne hcolumn
    exact ⟨d, by simp [List.getLast?_append, List.getLast?_cons, hd], hdigit⟩

/-- A point ends with a digit. -/
theorem PointText.getLast?_isDigit {text : List Char} {value : Point} (h : PointText text value) :
    ∃ d, text.getLast? = some d ∧ d.isDigit = true :=
  h.startsPoint.getLast?_isDigit

/-- A point does not start with a character that would have to be matched by its last one. -/
theorem PointText.stopsAt_head {text : List Char} {value : Point} {x y : Char}
    (h : PointText text value) (hlast : text.head? = some x → text.getLast? = some y)
    (hy : y.isDigit = false) (after : List Char) : StopsAt (· == x) (text ++ after) := by
  obtain ⟨d, hd, hdigit⟩ := h.getLast?_isDigit
  cases text with
  | nil => cases hd
  | cons z tail =>
    refine stopsAt_beq ?_ _
    rintro rfl
    rw [hlast rfl] at hd
    cases hd
    rw [hdigit] at hy
    cases hy

/-- The start of a point does not run past the end of an entry. -/
theorem StartsPoint.not_append {s t rest : List Char} {x : Char}
    (hafter : EntryEnd (x :: t ++ rest)) : ¬StartsPoint (s ++ x :: t) := by
  intro h
  have hclose := hafter.eq_close fun y hy => h.ne_gap (List.mem_append_right _ hy)
  obtain ⟨d, hlast, hdigit⟩ := h.getLast?_isDigit
  rw [List.getLast?_append_of_ne_nil _ (List.cons_ne_nil _ _)] at hlast
  rw [hclose d (List.mem_of_getLast? hlast)] at hdigit
  cases hdigit

/-- No digit is left behind a point. -/
theorem point_stops {c next : Cursor} {value : Point} (h : point c = .ok value next) :
    StopsAt Char.isDigit next.rest := by
  obtain ⟨file, c₁, hfile, h⟩ := bind_eq_ok h
  obtain ⟨_, c₂, hcolon, h⟩ := bind_eq_ok h
  obtain ⟨line, c₃, hline, h⟩ := bind_eq_ok h
  obtain ⟨_, c₄, hcolon', h⟩ := bind_eq_ok h
  obtain ⟨column, c₅, hcolumn, h⟩ := bind_eq_ok h
  obtain ⟨rfl, rfl⟩ := pure_eq_ok h
  exact number_stops hcolumn

/-- Where no point starts in a text, none starts by what follows an entry. -/
theorem point_rejects_append {text after : List Char} (hafter : EntryEnd after)
    (hfails : point.Fails text) : point.Rejects (text ++ after) := by
  obtain ⟨failure, hfailed⟩ := hfails
  refine point_rejects_iff.2 ?_
  rintro read hread ⟨rest, hrest⟩
  rcases List.append_eq_append_iff.1 hrest with ⟨m, rfl, -⟩ | ⟨m, rfl, rfl⟩
  · exact hread.ne_failed m 0 failure hfailed
  · cases m with
    | nil =>
      rw [List.append_nil] at hread
      have hne := hread.ne_failed [] 0 failure
      rw [List.append_nil] at hne
      exact hne hfailed
    | cons x m => exact StartsPoint.not_append hafter hread

/-- The start of a point between brackets ends between them. -/
theorem StartsPoint.in_brackets {text after s rest : List Char} (hs : StartsPoint s)
    (hafter : EntryEnd after) (heq : text ++ ']' :: after = s ++ rest) :
    ∃ m, text = s ++ m ∧ rest = m ++ ']' :: after := by
  rcases List.append_eq_append_iff.1 heq with ⟨m, rfl, hm⟩ | ⟨m, rfl, rfl⟩
  · cases m with
    | nil => exact ⟨[], by simp, hm.symm⟩
    | cons x m =>
      obtain ⟨rfl, rfl⟩ := List.cons.inj hm
      exfalso
      cases m with
      | nil =>
        obtain ⟨d, hlast, hdigit⟩ := hs.getLast?_isDigit
        simp only [List.getLast?_append, List.getLast?_singleton, Option.some_or] at hlast
        cases hlast
        cases hdigit
      | cons y m =>
        have hsplit : text ++ ']' :: y :: m = (text ++ [']']) ++ y :: m := by simp
        rw [hsplit] at hs
        exact StartsPoint.not_append hafter hs
  · exact ⟨m, rfl, rfl⟩

/-- What starts with a point and fails between brackets fails there, whatever follows the entry, if
what comes after the point does. -/
theorem point_bind_rejects {β : Type} {f : Point → Parser β} {text after : List Char} {offset : Nat}
    {failure : Failure} (hafter : EntryEnd after)
    (hfailed : (point >>= f) ⟨offset, text ++ [']'], false⟩ = .failed failure)
    (hlater : ∀ value m offset, m <:+ text → f value ⟨offset, m ++ [']'], false⟩ = .failed failure →
      (f value).Rejects (m ++ ']' :: after)) :
    (point >>= f).Rejects (text ++ ']' :: after) := by
  rcases bind_eq_failed hfailed with hpoint | ⟨value, next, hok, hrun⟩
  · refine Rejects.bind (point_rejects_iff.2 ?_) f
    rintro read hread ⟨rest, hrest⟩
    obtain ⟨m, rfl, -⟩ := hread.in_brackets hafter hrest.symm
    rw [List.append_assoc] at hpoint
    exact hread.ne_failed _ offset failure hpoint
  · obtain ⟨s, hreads, hs⟩ := point_reads hok
    obtain ⟨m, rfl, hrest⟩ := hs.startsPoint.in_brackets .nil hreads.rest_eq
    have hstops := point_stops hok
    rw [List.append_assoc] at hreads
    rw [hreads.next_eq] at hrun
    rw [hrest] at hstops
    have hstop : StopsAt Char.isDigit (m ++ ']' :: after) := by
      have hlonger := hstops.append (by simp) after
      rwa [List.append_assoc] at hlonger
    rw [List.append_assoc]
    exact (point_accepts hs hstop).bind_rejects (hlater value m _ (List.suffix_append _ _) hrun)

/-- Text between brackets that is not a range does not become one by what follows the entry. -/
theorem range_rejects_elements {text after : List Char} (htext : ']' ∉ text)
    (hafter : EntryEnd after)
    (hfails : range.Fails ('[' :: text ++ [']'])) :
    range.Rejects ('[' :: text ++ [']'] ++ after) := by
  obtain ⟨failure, hfailed⟩ := hfails
  change (token "[" >>= _) ⟨0, "[".toList ++ (text ++ [']']), false⟩ = _ at hfailed
  rw [bind_of_ok (token_accepts "[" _ 0)] at hfailed
  have hrest : '[' :: text ++ [']'] ++ after = "[".toList ++ (text ++ ']' :: after) := by simp
  rw [hrest]
  refine (token_accepts "[" _).bind_rejects (point_bind_rejects hafter hfailed ?_)
  intro start m offset hm hfailed
  by_cases hdash : " - ".toList <+: m ++ ']' :: after
  · obtain ⟨rest, hrest⟩ := hdash
    obtain ⟨m, rfl, rfl⟩ := append_eq_append_cons hrest (by decide)
    rw [List.append_assoc] at hfailed ⊢
    rw [bind_of_ok (token_accepts " - " _ offset)] at hfailed
    refine (token_accepts " - " _).bind_rejects (point_bind_rejects hafter hfailed ?_)
    intro stop m' offset' hm' hfailed
    cases m' with
    | nil =>
      rw [List.nil_append, show [']'] = "]".toList ++ [] from rfl,
        bind_of_ok (token_accepts "]" _ offset')] at hfailed
      cases hfailed
    | cons x m' =>
      refine (token_rejects_of_head rfl (stopsAt_beq ?_ _)).bind _
      rintro rfl
      exact htext (hm.subset (List.mem_append_right _ (hm'.subset List.mem_cons_self)))
  · exact (token_rejects hdash).bind _

/-! ## The ways in which a value is read -/

/-- A value that is read as a whole when it stands alone, by the way in which it is read. Of the
ways before that one it is said what later proofs need of their failure. -/
inductive ValueText : List Char → Prop
  | range {text : List Char} {found : Range} : RangeText text found → ValueText text
  | type {name : List Char} : Quotable '\'' false name → ValueText ('\'' :: name ++ ['\''])
  | point {text : List Char} {found : Point} : PointText text found → ValueText text
  | elements {text : List Char} : (∀ x ∈ text, x ≠ ']') → range.Fails ('[' :: text ++ [']']) →
      point.Fails ('[' :: text ++ [']']) → ValueText ('[' :: text ++ [']'])
  | decl {text : List Char} {found : Decl} {next : Cursor} :
      decl (.start text) = .ok found next → next.rest = [] → point.Fails text → ValueText text
  | doubleQuoted {text : List Char} : Quotable '"' true text →
      point.Fails ('"' :: text ++ ['"']) → ValueText ('"' :: text ++ ['"'])
  | group {text : List Char} : "(".toList <+: text →
      (∀ after, group.Accepts text (String.ofList text) after) → point.Fails text → ValueText text
  | raw {text : List Char} : IsRaw text → point.Fails text → elements.Fails text →
      decl.Fails text → ValueText text

/-- A value that is read as a whole, standing alone, has one of the shapes of a value. The choices
are tried in order, so a shape comes with the failure of those before it. -/
theorem valueText_of_consumes {value : String} (h : unknownValue.consumes value = true) :
    ValueText value.toList := by
  obtain ⟨_, next, hok, hend⟩ := exists_of_consumes h
  have hwhole : ∀ {text : List Char}, Cursor.Reads (.start value.toList) text next →
      value.toList = text := fun hreads => hreads.eq_of_start hend
  rcases (choice_eq_ok hok).cons_cases with hwin | ⟨hrange, hlater⟩
  · obtain ⟨found, hfound, -⟩ := slice_eq_ok hwin
    obtain ⟨text, hreads, htext⟩ := range_reads hfound
    exact .range (hwhole hreads ▸ htext)
  have hrange := fails_of_slice_failed hrange
  rcases hlater.cons_cases with hwin | ⟨-, hlater⟩
  · obtain ⟨found, hfound, -⟩ := slice_eq_ok hwin
    obtain ⟨hreads, htext⟩ := quoted_reads hfound
    exact hwhole hreads ▸ .type htext
  rcases hlater.cons_cases with hwin | ⟨hpoint, hlater⟩
  · obtain ⟨found, hfound, -⟩ := slice_eq_ok hwin
    obtain ⟨text, hreads, htext⟩ := point_reads hfound
    exact .point (hwhole hreads ▸ htext)
  have hpoint := fails_of_slice_failed hpoint
  rcases hlater.cons_cases with hwin | ⟨helements, hlater⟩
  · obtain ⟨found, hfound, -⟩ := slice_eq_ok hwin
    obtain ⟨text, hreads, htext⟩ := elements_reads hfound
    rw [hwhole hreads] at hrange hpoint ⊢
    exact .elements htext hrange hpoint
  have helements := fails_of_slice_failed helements
  rcases hlater.cons_cases with hwin | ⟨hdecl, hlater⟩
  · obtain ⟨found, hfound, -⟩ := slice_eq_ok hwin
    exact .decl hfound hend hpoint
  have hdecl := fails_of_slice_failed hdecl
  rcases hlater.cons_cases with hwin | ⟨-, hlater⟩
  · obtain ⟨found, hfound, -⟩ := slice_eq_ok hwin
    obtain ⟨hreads, htext⟩ := quoted_reads hfound
    rw [hwhole hreads] at hpoint ⊢
    exact .doubleQuoted htext hpoint
  rcases hlater.cons_cases with hwin | ⟨-, hlater⟩
  · obtain ⟨found, hfound, -⟩ := slice_eq_ok hwin
    obtain ⟨hreads, hopen, haccepts⟩ := group_reads hfound
    rw [← hwhole hreads] at hopen
    refine .group hopen (fun after => ?_) hpoint
    rw [hwhole hreads, String.ofList_toList]
    exact haccepts after
  rcases hlater.cons_cases with hwin | ⟨-, hlater⟩
  · obtain ⟨found, hfound, -⟩ := slice_eq_ok hwin
    obtain ⟨hreads, htext⟩ := rawText_reads hfound
    exact .raw (hwhole hreads ▸ htext) hpoint helements hdecl
  · obtain ⟨_, _, _, hnil, -⟩ := hlater
    simp at hnil

/-! ## Values -/

/-- A value that is read as a whole when it stands alone, that no blank ends, and that closes the
bracket or the quote it starts with. -/
structure IsValue (value : String) : Prop where
  consumed : unknownValue.consumes value = true
  trimmed : Text.trimEnd value.toList = value.toList
  bracket : value.toList.head? = some '[' → value.toList.getLast? = some ']'
  quote : value.toList.head? = some '\'' → value.toList.getLast? = some '\''

/-- Is the value, when it stands alone, a declaration without a substitution? -/
def readsOpenDecl (value : String) : Bool :=
  match decl (.start value.toList) with
  | .ok ⟨_, none⟩ next => next.rest.isEmpty
  | _ => false

theorem range_rejects {text : List Char} (h : StopsAt (· == '[') text) : range.Rejects text :=
  (token_rejects_of_head rfl h).bind _

theorem elements_rejects {text : List Char} (h : StopsAt (· == '[') text) :
    elements.Rejects text :=
  (token_rejects_of_head rfl h).bind _

theorem group_rejects {text : List Char} (h : StopsAt (· == '(') text) : group.Rejects text :=
  ((token_rejects_of_head rfl h).bind _).slice

/-- A text that starts with no bracket and no quote, and not with a point, is left to the later
ways. -/
theorem unknownValue_of_later {text rest : List Char} {value : String}
    (hbracket : StopsAt (· == '[') (text ++ rest)) (hquote : StopsAt (· == '\'') (text ++ rest))
    (hpoint : point.Rejects (text ++ rest))
    (h : (choice [slice decl, slice doubleQuoted, slice group, slice rawText]).Accepts
      text value rest) : unknownValue.Accepts text value rest := by
  refine .choice_tail (range_rejects hbracket).slice ?_
  refine .choice_tail (quoted_rejects hquote).slice ?_
  refine .choice_tail hpoint.slice ?_
  exact .choice_tail (elements_rejects hbracket).slice h

/-- Raw text that is neither a point nor a declaration, and that no bracket starts. -/
theorem unknownValue_raw {text after : List Char} (h : IsRaw text)
    (hbracket : text.head? ≠ some '[') (hafter : EntryEnd after) (hpoint : point.Fails text)
    (hdecl : decl.Fails text) :
    unknownValue.Accepts text (String.ofList text) after := by
  have hchars := h.forall_later fun _ => isRawChar_of_isRawStart
  obtain _ | ⟨x, tail⟩ := text
  · exact h.elim
  have hhead : ∀ {y : Char}, isRawStart y = false → StopsAt (· == y) (x :: tail ++ after) :=
    fun hy => h.stopsAt hy after
  have hspace : isSpace x = false := by
    have hx := hchars x List.mem_cons_self
    simp only [isRawChar, Bool.and_eq_true, Bool.not_eq_true'] at hx
    exact hx.1.1
  have hopen : '(' ∉ x :: tail := fun hmem => nomatch hchars _ hmem
  have hstop : StopsAt isRawChar after := hafter.stopsAt rfl rfl rfl
  refine unknownValue_of_later ?_ ?_ (point_rejects_append hafter hpoint) ?_
  · exact stopsAt_beq (fun hx => hbracket (by rw [hx]; rfl)) _
  · exact hhead rfl
  refine .choice_tail (decl_rejects_append hafter ⟨x, List.mem_cons_self, hspace⟩ hdecl
    (.inl hopen)).slice ?_
  refine .choice_tail (quoted_rejects (hhead rfl)).slice ?_
  refine .choice_tail (group_rejects (hhead rfl)).slice ?_
  exact (rawText_accepts h hstop).slice.choice_head _

/-- A declaration as a value, which takes the blanks behind it if it has no substitution. -/
theorem unknownValue_decl {text blanks rest : List Char} {found : Decl} {next : Cursor}
    (hok : decl (.start text) = .ok found next) (hend : next.rest = [])
    (hpoint : point.Fails text)
    (hblanks : ∀ x ∈ blanks, isSpace x = true) (hstop : StopsAt isSpace rest)
    (hafter : EntryEnd (blanks ++ rest))
    (hopen : found.substitution = none → declSignature.Rejects rest ∧ substitution.Rejects rest) :
    ∃ taken left, blanks = taken ++ left ∧
      unknownValue.Accepts (text ++ taken) (String.ofList (text ++ taken)) (left ++ rest) := by
  obtain ⟨signatures, hne, -, hrun⟩ := declText_of_ok hok hend
  have hpoint' := point_rejects_append hafter hpoint
  cases hsubstitution : found.substitution with
  | none =>
    rw [hsubstitution] at hrun
    obtain ⟨hsignature, hnone⟩ := hopen hsubstitution
    have haccepts := decl_accepts hrun hne hblanks hstop hafter hsignature hnone
    refine ⟨blanks, [], (List.append_nil _).symm, ?_⟩
    rw [← List.append_assoc] at hpoint'
    refine unknownValue_of_later ?_ ?_ hpoint' (haccepts.slice.choice_head _)
    · rw [List.append_assoc]
      exact hrun.stopsAt_head hne rfl rfl _
    · rw [List.append_assoc]
      exact hrun.stopsAt_head hne rfl rfl _
  | some written =>
    rw [hsubstitution] at hrun
    have haccepts := decl_accepts_substitution hrun hne hafter
    refine ⟨[], blanks, rfl, ?_⟩
    rw [List.append_nil]
    refine unknownValue_of_later ?_ ?_ hpoint' (haccepts.slice.choice_head _)
    · exact hrun.stopsAt_head hne rfl rfl _
    · exact hrun.stopsAt_head hne rfl rfl _

/-- A text that starts with a bracket and ends with one has text between brackets. -/
theorem not_elements_fails {text : List Char} (hhead : text.head? = some '[')
    (hlast : text.getLast? = some ']') : ¬elements.Fails text := by
  intro hfails
  obtain ⟨tail, rfl⟩ := List.head?_eq_some_iff.1 hhead
  have hmem : ']' ∈ tail := by
    rcases List.mem_cons.1 (List.mem_of_getLast? hlast) with hbracket | hmem
    · exact absurd hbracket (by decide)
    · exact hmem
  obtain ⟨s, t, rfl, hs⟩ := List.eq_append_cons_of_mem hmem
  have haccepts := @elements_accepts s (fun x hx hbracket => hs (hbracket ▸ hx)) t 0
  refine hfails.ne_ok (Eq.trans (congrArg _ ?_) haccepts)
  simp [Cursor.start]

/-- A value is read as it is read when it stands alone, wherever an entry may end; a declaration
without a substitution takes the blanks behind it. -/
theorem unknownValue_accepts {value : String} {blanks rest : List Char} (h : IsValue value)
    (hblanks : ∀ x ∈ blanks, isSpace x = true) (hstop : StopsAt isSpace rest)
    (hafter : EntryEnd (blanks ++ rest))
    (hopen : readsOpenDecl value = true → declSignature.Rejects rest ∧ substitution.Rejects rest) :
    ∃ taken left, blanks = taken ++ left ∧ unknownValue.Accepts (value.toList ++ taken)
      (String.ofList (value.toList ++ taken)) (left ++ rest) := by
  have htext := valueText_of_consumes h.consumed
  obtain ⟨-, -, hbracket, hquote⟩ := h
  unfold readsOpenDecl at hopen
  generalize value.toList = text at htext hbracket hquote hopen ⊢
  have hplain : unknownValue.Accepts text (String.ofList text) (blanks ++ rest) →
      ∃ taken left, blanks = taken ++ left ∧ unknownValue.Accepts (text ++ taken)
        (String.ofList (text ++ taken)) (left ++ rest) := by
    intro haccepts
    refine ⟨[], blanks, rfl, ?_⟩
    rwa [List.append_nil]
  cases htext with
  | range h => exact hplain ((range_accepts h _).slice.choice_head _)
  | type h =>
    refine hplain (.choice_tail (range_rejects (stopsAt_beq (by decide) _)).slice ?_)
    exact (quoted_accepts h _).slice.choice_head _
  | point h =>
    refine hplain (.choice_tail (range_rejects (h.stopsAt_head hbracket rfl _)).slice ?_)
    refine .choice_tail (quoted_rejects (h.stopsAt_head hquote rfl _)).slice ?_
    have hdigits : StopsAt Char.isDigit (blanks ++ rest) := hafter.stopsAt rfl rfl rfl
    exact (point_accepts h hdigits).slice.choice_head _
  | elements h hrange hpoint =>
    have hnot : ']' ∉ _ := fun hmem => h _ hmem rfl
    refine hplain (.choice_tail (range_rejects_elements hnot hafter hrange).slice ?_)
    refine .choice_tail (quoted_rejects (stopsAt_beq (by decide) _)).slice ?_
    refine .choice_tail (point_rejects_append hafter hpoint).slice ?_
    exact (elements_accepts h _).slice.choice_head _
  | @decl _ found next hok hend hpoint =>
    refine unknownValue_decl hok hend hpoint hblanks hstop hafter fun hnone => hopen ?_
    obtain ⟨signature, substitution⟩ := found
    cases hnone
    rw [hok]
    exact List.isEmpty_iff.2 hend
  | doubleQuoted h hpoint =>
    refine hplain (unknownValue_of_later (stopsAt_beq (by decide) _) (stopsAt_beq (by decide) _)
      (point_rejects_append hafter hpoint) ?_)
    refine .choice_tail (decl_rejects_of_head rfl rfl).slice ?_
    exact (quoted_accepts h _).slice.choice_head _
  | group h haccepts hpoint =>
    have hpoint' := point_rejects_append hafter hpoint
    have hgroup := haccepts (blanks ++ rest)
    obtain ⟨tail, rfl⟩ := h
    refine hplain (unknownValue_of_later (stopsAt_beq (by decide) _) (stopsAt_beq (by decide) _)
      hpoint' ?_)
    refine .choice_tail (decl_rejects_of_head rfl rfl).slice ?_
    refine .choice_tail (quoted_rejects (stopsAt_beq (by decide) _)).slice ?_
    exact hgroup.slice.choice_head _
  | raw h hpoint helements hdecl =>
    refine hplain (unknownValue_raw h (fun hhead => ?_) hafter hpoint hdecl)
    exact not_elements_fails hhead (hbracket hhead) helements

/-! ## The rules of known keywords -/

/-- A value is not blank. -/
theorem IsValue.exists_not_isSpace {value : String} (h : IsValue value) :
    ∃ x ∈ value.toList, isSpace x = false := by
  by_contra hall
  have hblank : ∀ x ∈ value.toList, isSpace x = true := by
    intro x hx
    by_contra hspace
    exact hall ⟨x, hx, Bool.eq_false_iff.2 hspace⟩
  have htrim : Text.trimEnd ([] ++ value.toList) = [] := trimEnd_append hblank
  rw [List.nil_append, h.trimmed] at htrim
  have hempty : value = "" := String.toList_eq_nil_iff.1 htrim
  have hconsumed := h.consumed
  rw [hempty] at hconsumed
  revert hconsumed
  decide

/-- A value that is not a range is not read as one before the end of an entry. -/
theorem IsValue.range_rejects {value : String} {after : List Char} (h : IsValue value)
    (hafter : EntryEnd after) (hfails : range.Fails value.toList) :
    range.Rejects (value.toList ++ after) := by
  have htext := valueText_of_consumes h.consumed
  obtain ⟨-, -, hbracket, -⟩ := h
  generalize value.toList = text at htext hbracket hfails ⊢
  cases htext with
  | range h =>
    have haccepts := range_accepts h [] 0
    rw [List.append_nil] at haccepts
    exact absurd haccepts hfails.ne_ok
  | type h => exact Grammar.range_rejects (stopsAt_beq (by decide) _)
  | point h => exact Grammar.range_rejects (h.stopsAt_head hbracket rfl _)
  | elements h hrange _ => exact range_rejects_elements (fun hmem => h _ hmem rfl) hafter hrange
  | decl hok hend _ =>
    obtain ⟨signatures, hne, -, hrun⟩ := declText_of_ok hok hend
    exact Grammar.range_rejects (hrun.stopsAt_head hne rfl rfl _)
  | doubleQuoted h _ => exact Grammar.range_rejects (stopsAt_beq (by decide) _)
  | group h _ _ =>
    obtain ⟨tail, rfl⟩ := h
    exact Grammar.range_rejects (stopsAt_beq (by decide) _)
  | raw h _ helements _ =>
    refine Grammar.range_rejects ?_
    cases text with
    | nil => exact h.elim
    | cons x tail =>
      refine stopsAt_beq ?_ _
      rintro rfl
      exact not_elements_fails rfl (hbracket rfl) helements

/-- A value that is not a type name is not read as one before the end of an entry. -/
theorem IsValue.typeName_rejects {value : String} {after : List Char} (h : IsValue value)
    (hfails : typeName.Fails value.toList) : typeName.Rejects (value.toList ++ after) := by
  have htext := valueText_of_consumes h.consumed
  obtain ⟨-, -, -, hquote⟩ := h
  generalize value.toList = text at htext hquote hfails ⊢
  refine quoted_rejects ?_
  cases htext with
  | range h =>
    obtain ⟨_, _⟩ := h
    exact stopsAt_beq (by decide) _
  | type h =>
    have haccepts := quoted_accepts h [] 0
    rw [List.append_nil] at haccepts
    exact absurd haccepts hfails.ne_ok
  | point h => exact h.stopsAt_head hquote rfl _
  | elements h hrange _ => exact stopsAt_beq (by decide) _
  | decl hok hend _ =>
    obtain ⟨signatures, hne, -, hrun⟩ := declText_of_ok hok hend
    exact hrun.stopsAt_head hne rfl rfl _
  | doubleQuoted h _ => exact stopsAt_beq (by decide) _
  | group h _ _ =>
    obtain ⟨tail, rfl⟩ := h
    exact stopsAt_beq (by decide) _
  | raw h _ helements _ =>
    exact h.stopsAt rfl _

end TypeScribe.Dump.Grammar
