import TypeScribe.Proofs.Dump.Attributes
import TypeScribe.Proofs.Dump.Closing

/-!
# Delimited values

A value between quotes, or a group in parentheses, is meant to be read as one unit. The ways in
which a value is tried do not all heed delimiters: a point is tried before double quotes and groups,
and its file name runs over both. So a delimited value is read as one unit if and only if it stands
between single quotes, which are tried before points, or no point starts where it does; the point
may reach beyond the value, and it need not end if its numbers are too long
(`attr_accepts_delimited_iff`).
-/

namespace TypeScribe.Dump.Grammar

open TypeScribe.Parser

/-! ## Texts between delimiters -/

/-- A complete text between quotes or in parentheses. -/
inductive Delimited : List Char → Prop
  | single {text : List Char} : '\'' ∉ text → Delimited ('\'' :: text ++ ['\''])
  | double {text : List Char} : Quotable '"' true text → Delimited ('"' :: text ++ ['"'])
  | group {text : List Char} : Balanced text → Delimited ('(' :: text ++ [')'])

/-- A delimited text ends with its delimiter, which is neither a blank nor a digit. -/
theorem Delimited.getLast? {text : List Char} (h : Delimited text) :
    ∃ x, text.getLast? = some x ∧ Text.isBlank x = false ∧ x.isDigit = false := by
  cases h with
  | single => exact ⟨'\'', List.getLast?_concat, by decide, by decide⟩
  | double => exact ⟨'"', List.getLast?_concat, by decide, by decide⟩
  | group => exact ⟨')', List.getLast?_concat, by decide, by decide⟩

/-- A text that does not end with a blank is not trimmed. -/
theorem trimEnd_of_getLast? {text : List Char} {x : Char} (h : text.getLast? = some x)
    (hx : Text.isBlank x = false) : Text.trimEnd text = text := by
  obtain ⟨before, rfl⟩ := List.getLast?_eq_some_iff.1 h
  simp [Text.trimEnd, hx]

theorem group_accepts {text : List Char} (h : Balanced text) (after : List Char) :
    group.Accepts ('(' :: text ++ [')']) (String.ofList ('(' :: text ++ [')'])) after :=
  slice_closeBalanced_accepts "(" (scans_iff.2 ⟨h, h.sheltered⟩) after

/-! ## Attributes -/

/-- The keywords that have a rule of their own for their values. -/
def valueKeywords : List String := ["range", "type", "location", "decl"]

/-- A keyword without a rule of its own. -/
structure IsOtherKeyword (keyword : String) : Prop where
  word : IsKeyword keyword.toList
  notMem : keyword ∉ valueKeywords
  nothrow : ¬"nothrow".toList <+: keyword.toList

/-- The rules of known keywords reject any other keyword. -/
theorem knownRules_reject_other {keyword : String} (h : IsOtherKeyword keyword)
    (rest : List Char) : ∀ p ∈ knownRules, p.Rejects (keyword.toList ++ '=' :: rest) := by
  have hother : ∀ label ∈ valueKeywords, keyword ≠ label := by
    rintro label hlabel rfl
    exact h.notMem hlabel
  refine knownRules_reject_labelled h.word h.nothrow ?_ ?_ ?_ ?_ <;>
    exact fun heq => absurd heq (hother _ (by decide))

/-- An attribute is read with the value that is read behind its keyword. -/
theorem attr_accepts_of_unknownValue {keyword : String} {text after : List Char}
    (hkeyword : IsOtherKeyword keyword) (htrim : Text.trimEnd text = text)
    (h : unknownValue.Accepts text (String.ofList text) after) :
    attr.Accepts (keyword.toList ++ '=' :: text) (.unknown keyword (some (String.ofList text)))
      after := by
  have hname : TypeScribe.Parser.keyword.Accepts keyword.toList (String.ofList keyword.toList)
      ('=' :: text ++ after) :=
    keyword_accepts hkeyword.word (stopsAt_cons.2 rfl)
  rw [String.ofList_toList] at hname
  have hvalue := h.bind_pure (f := fun found => String.ofList (Text.trimEnd found.toList))
  rw [String.toList_ofList, htrim] at hvalue
  have htrimmed : trimmedValue.Accepts ('=' :: text) (String.ofList text) after :=
    Accepts.bind (s := ['=']) (token_accepts "=" _) hvalue
  have hunknown : unknown.AcceptsLoosely (keyword.toList ++ '=' :: text)
      (.unknown keyword (some (String.ofList text))) [] after :=
    (hname.bind htrimmed.option?.bind_pure).loosely
  show (choice (knownRules ++ [unknown])).Accepts _ _ _
  refine (AcceptsLoosely.choice_append ?_ (hunknown.choice_head _)).tight
  rw [List.append_assoc]
  exact knownRules_reject_other hkeyword _

/-! ## Delimited values -/

/-- A delimited text is read as one unit, if a point is not taken from it. -/
theorem unknownValue_accepts_delimited {value after : List Char} (h : Delimited value)
    (hpoint : value.head? = some '\'' ∨ point.Rejects (value ++ after)) :
    unknownValue.Accepts value (String.ofList value) after := by
  cases h with
  | single htext =>
    refine .choice_tail (range_rejects (stopsAt_beq (by decide) _)).slice ?_
    exact (quoted_accepts (quotable_of_notMem htext) after).slice.choice_head _
  | double htext =>
    have hpoint := hpoint.resolve_left (by simp)
    refine unknownValue_of_later (stopsAt_beq (by decide) _) (stopsAt_beq (by decide) _) hpoint ?_
    refine .choice_tail (decl_rejects_of_head (by decide) (by decide)).slice ?_
    exact (quoted_accepts htext after).slice.choice_head _
  | group htext =>
    have hpoint := hpoint.resolve_left (by simp)
    refine unknownValue_of_later (stopsAt_beq (by decide) _) (stopsAt_beq (by decide) _) hpoint ?_
    refine .choice_tail (decl_rejects_of_head (by decide) (by decide)).slice ?_
    refine .choice_tail (quoted_rejects (stopsAt_beq (by decide) _)).slice ?_
    exact (group_accepts htext after).slice.choice_head _

/-- A digit is no blank. -/
theorem isBlank_of_isDigit {d : Char} (h : d.isDigit = true) : Text.isBlank d = false := by
  have hblank : ∀ n < 10, Text.isBlank (Nat.digitChar n) = false := by decide
  obtain ⟨hlt, hdigit⟩ := digitChar_of_isDigit h
  rw [← hdigit]
  exact hblank _ hlt

/-- A point is taken for the value of an attribute, whatever delimiters are in it. -/
theorem attr_accepts_point {keyword : String} {text rest : List Char} {found : Point}
    (hkeyword : IsOtherKeyword keyword) (htext : PointText text found)
    (hdigit : StopsAt Char.isDigit rest) (hbracket : StopsAt (· == '[') (text ++ rest))
    (hquote : StopsAt (· == '\'') (text ++ rest)) :
    attr.Accepts (keyword.toList ++ '=' :: text) (.unknown keyword (some (String.ofList text)))
      rest := by
  obtain ⟨d, hlast, hd⟩ := htext.getLast?_isDigit
  refine attr_accepts_of_unknownValue hkeyword
    (trimEnd_of_getLast? hlast (isBlank_of_isDigit hd)) ?_
  refine .choice_tail (range_rejects hbracket).slice ?_
  refine .choice_tail (quoted_rejects hquote).slice ?_
  exact (point_accepts htext hdigit).slice.choice_head _

/-- A point stops the run of an attribute, if its numbers are too long. -/
theorem attr_stopsOn_point {keyword : String} {text : List Char} {stop : Stop}
    (hkeyword : IsOtherKeyword keyword) (hstops : point.StopsOn text stop)
    (hbracket : StopsAt (· == '[') text) (hquote : StopsAt (· == '\'') text) :
    attr.StopsOn (keyword.toList ++ '=' :: text) stop := by
  have hname : TypeScribe.Parser.keyword.Accepts keyword.toList (String.ofList keyword.toList)
      ('=' :: text) :=
    keyword_accepts hkeyword.word (stopsAt_cons.2 rfl)
  have hvalue : unknownValue.StopsOn text stop := by
    refine .choice_tail (range_rejects hbracket).slice ?_
    exact .choice_tail (quoted_rejects hquote).slice (hstops.slice.choice_head _)
  have htrimmed : trimmedValue.StopsOn ('=' :: text) stop :=
    (token_accepts "=" _).bind_stopsOn (hvalue.bind _)
  have hunknown : unknown.StopsOn (keyword.toList ++ '=' :: text) stop :=
    hname.bind_stopsOn (htrimmed.option?.bind _)
  show (choice (knownRules ++ [unknown])).StopsOn _ _
  exact .choice_append (knownRules_reject_other hkeyword _) (hunknown.choice_head _)

/-- A delimited value is not read where a point starts, unless between single quotes. -/
theorem not_attr_accepts_of_point {keyword : String} {value after read : List Char}
    (hkeyword : IsOtherKeyword keyword) (hvalue : Delimited value)
    (hquote : value.head? ≠ some '\'') (hread : StartsPoint read)
    (hstands : read <+: value ++ after) :
    ¬attr.Accepts (keyword.toList ++ '=' :: value) (.unknown keyword (some (String.ofList value)))
      after := by
  intro haccepts
  obtain ⟨hbracket, hquote⟩ :
      StopsAt (· == '[') (value ++ after) ∧ StopsAt (· == '\'') (value ++ after) := by
    cases hvalue with
    | single => exact absurd rfl hquote
    | double => exact ⟨stopsAt_beq (by decide) _, stopsAt_beq (by decide) _⟩
    | group => exact ⟨stopsAt_beq (by decide) _, stopsAt_beq (by decide) _⟩
  obtain ⟨tail, htail⟩ := hstands
  have hpoint := hread.reads_or_stops tail
  rw [htail] at hpoint
  rcases hpoint with ⟨s, rest, found, heq, hs, hdigit⟩ | ⟨stop, hstops⟩
  rotate_left
  · have hstopped := attr_stopsOn_point hkeyword hstops hbracket hquote 0
    have hok := haccepts 0
    rw [List.append_assoc, List.cons_append, hstopped] at hok
    cases hok
  rw [heq] at hbracket hquote
  have hother := attr_accepts_point hkeyword hs hdigit hbracket hquote
  -- Both readings start at one place, but one ends with a delimiter and the other with a digit.
  have hsame : keyword.toList ++ '=' :: value ++ after = keyword.toList ++ '=' :: s ++ rest := by
    simp [heq]
  have hok := haccepts 0
  rw [hsame, hother 0, Reply.ok.injEq, Attribute.unknown.injEq, Option.some.injEq,
    String.ofList_inj] at hok
  obtain ⟨x, hx, -, hxdigit⟩ := hvalue.getLast?
  obtain ⟨d, hd, hddigit⟩ := hs.getLast?_isDigit
  rw [← hok.1.2, hd, Option.some.injEq] at hx
  rw [← hx, hddigit] at hxdigit
  cases hxdigit

/-- An attribute with a delimited value is read with the value as one unit, if and only if single
quotes delimit the value or no point starts where the value does. -/
theorem attr_accepts_delimited_iff {keyword value : String} (hkeyword : IsOtherKeyword keyword)
    (hvalue : Delimited value.toList) (after : List Char) :
    attr.Accepts (keyword.toList ++ '=' :: value.toList) (.unknown keyword (some value)) after ↔
      value.toList.head? = some '\'' ∨
        ∀ read, StartsPoint read → ¬read <+: value.toList ++ after := by
  constructor
  · intro haccepts
    by_contra! hcontra
    obtain ⟨hquote, read, hread, hstands⟩ := hcontra
    refine not_attr_accepts_of_point hkeyword hvalue hquote hread hstands ?_
    rwa [String.ofList_toList]
  · intro h
    have hread := unknownValue_accepts_delimited hvalue (h.imp_right point_rejects_iff.2)
    obtain ⟨x, hlast, hblank, -⟩ := hvalue.getLast?
    have haccepts := attr_accepts_of_unknownValue hkeyword (trimEnd_of_getLast? hlast hblank) hread
    rwa [String.ofList_toList] at haccepts

/-- Captures in nested parentheses are read as one unit: without a colon there is no point. -/
theorem attr_accepts_captures :
    attr.Accepts ("captures".toList ++ '=' :: "(value<direct> (nested)<direct>)".toList)
      (.unknown "captures" (some "(value<direct> (nested)<direct>)"))
      " single-expression)".toList := by
  have hkeyword : IsOtherKeyword "captures" := ⟨by decide, by decide, by decide⟩
  have hfirst : Balanced "value<direct> ".toList := balanced_of_notMem (by decide) (by decide)
  have hinner : Balanced ('(' :: "nested".toList ++ [')']) :=
    balanced_parentheses (by decide) (by decide)
  have hlast : Balanced "<direct>".toList := balanced_of_notMem (by decide) (by decide)
  have hvalue : Delimited "(value<direct> (nested)<direct>)".toList :=
    .group ((hfirst.append hinner).append hlast)
  refine (attr_accepts_delimited_iff hkeyword hvalue _).2 (.inr ?_)
  intro read hread hstands
  have hcolon : ':' ∈ "(value<direct> (nested)<direct>)".toList ++ " single-expression)".toList :=
    hstands.subset (by cases hread <;> simp)
  exact absurd hcolon (by decide)

/-- A time of day between double quotes is read without its closing quote. -/
theorem not_attr_accepts_time :
    IsOtherKeyword "value" ∧ Delimited "\"12:30:45\"".toList ∧
      ¬attr.Accepts ("value".toList ++ '=' :: "\"12:30:45\"".toList)
        (.unknown "value" (some "\"12:30:45\"")) [] ∧
      attr.Accepts ("value".toList ++ '=' :: "\"12:30:45".toList)
        (.unknown "value" (some "\"12:30:45")) ['"'] := by
  have hkeyword : IsOtherKeyword "value" := ⟨by decide, by decide, by decide⟩
  have hquotable : Quotable '"' true "12:30:45".toList := by decide +kernel
  have hvalue : Delimited "\"12:30:45\"".toList := .double hquotable
  have hpoint := @PointText.mk "\"12".toList "30".toList "45".toList (by decide)
    (List.all_eq_true.1 rfl) ⟨by decide, List.all_eq_true.1 rfl, by decide⟩
    ⟨by decide, List.all_eq_true.1 rfl, by decide⟩
  refine ⟨hkeyword, hvalue, ?_, ?_⟩
  · exact not_attr_accepts_of_point hkeyword hvalue (by decide) hpoint.startsPoint (by decide)
  · exact attr_accepts_point hkeyword hpoint (stopsAt_cons.2 rfl) (stopsAt_cons.2 rfl)
      (stopsAt_cons.2 rfl)

end TypeScribe.Dump.Grammar
