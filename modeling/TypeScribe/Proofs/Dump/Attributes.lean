import TypeScribe.Proofs.Dump.Layout

/-!
# Attributes as they are printed

A printable attribute is read back from its text (`attr_accepts`). The rules for attributes are
tried in turn, so the rules before its own have to fail on its text, and its own rule has to stop at
the end of the text, whatever entry follows. A declaration does not stop there but takes the blanks
behind it, which is why acceptance is stated up to such blanks.
-/

namespace TypeScribe.Dump

open TypeScribe.Parser
open TypeScribe.Dump.Grammar

/-! ## Points and declarations -/

/-- A stretch is printed as a range is if its two points are printed as points are. -/
theorem Range.rangeText {stretch : Range}
    (hstart : PointText stretch.start.text.toList stretch.start)
    (hstop : PointText stretch.stop.text.toList stretch.stop) :
    RangeText stretch.text.toList stretch := by
  have htext : stretch.text.toList =
      '[' :: stretch.start.text.toList ++ (" - ".toList ++ stretch.stop.text.toList ++ [']']) := by
    simp [Range.text]
  rw [htext]
  exact .mk hstart hstop

/-- A printable point is printed as a point is. -/
theorem Point.Printable.pointText {point : Point} (h : point.Printable) :
    PointText point.text.toList point := by
  obtain ⟨fileName, line, column⟩ := point
  obtain ⟨hne, hfile, ⟨hline, hlineLength⟩, hcolumn, hcolumnLength⟩ := h
  obtain ⟨line, rfl⟩ := Int.eq_ofNat_of_zero_le hline
  obtain ⟨column, rfl⟩ := Int.eq_ofNat_of_zero_le hcolumn
  have hnumber : ∀ n : Nat, (toString (n : Int)).toList = Nat.toDigits 10 n :=
    fun n => Nat.toList_repr
  rw [← String.length_toList, hnumber] at hlineLength hcolumnLength
  have htext :=
    PointText.mk hne hfile (isNumeral_toDigits hlineLength) (isNumeral_toDigits hcolumnLength)
  rw [ofAsciiDigits_toDigits, ofAsciiDigits_toDigits, String.ofList_toList] at htext
  have hprint : (Point.mk fileName line column).text.toList = fileName.toList ++
      (':' :: Nat.toDigits 10 line ++ (':' :: Nat.toDigits 10 column)) := by
    simp only [Point.text, String.toList_append, hnumber]
    simp
  rwa [hprint]

/-- A blank is no part of a signature. -/
theorem isSignatureChar_of_isSpace {x : Char} (h : isSpace x = true) :
    isSignatureChar x = false := by
  simp only [isSpace, Bool.or_eq_true, beq_iff_eq] at h
  rcases h with ((rfl | rfl) | rfl) | rfl <;> decide

/-- Signatures with spaces between them start with a letter or a digit. -/
theorem exists_cons_intercalate {first : String} (later : List String)
    (h : SignatureText first.toList) :
    ∃ x rest, (String.intercalate " " (first :: later)).toList = x :: rest ∧
      isWordChar x = true := by
  obtain ⟨x, rest, hcons, hx⟩ := h.exists_cons
  cases later with
  | nil => exact ⟨x, rest, by rw [String.intercalate_singleton, hcons], hx⟩
  | cons second later =>
    rw [String.intercalate_cons_cons, String.toList_append, String.toList_append, hcons]
    exact ⟨x, _, rfl, hx⟩

/-- Signatures with one space between them make a run, together with what ends a run. -/
theorem declText_intercalate {groups : List String} {found : Option String}
    {blanks rest : List Char} (hne : groups ≠ [])
    (hgroups : ∀ group ∈ groups, SignatureText group.toList)
    (hblanks : ∀ x ∈ blanks, isSpace x = true) (hsome : blanks = [] → rest = [])
    (hstop : StopsAt isSpace rest) (hrest : DeclText rest [] found) :
    DeclText ((String.intercalate " " groups).toList ++ (blanks ++ rest)) groups found := by
  induction groups with
  | nil => exact absurd rfl hne
  | cons first later ih =>
    have hfirst := hgroups first List.mem_cons_self
    cases later with
    | nil =>
      rw [String.intercalate_singleton]
      show DeclText ([] ++ (first.toList ++ (blanks ++ rest))) [first] found
      refine .signature (List.forall_mem_nil _) hblanks hstop (hfirst.longest ?_) hrest
      cases blanks with
      | nil => rw [hsome rfl]; exact stopsAt_nil _
      | cons x blanks =>
        exact stopsAt_cons.2 (isSignatureChar_of_isSpace (hblanks x List.mem_cons_self))
    | cons second later =>
      have hlater := ih (List.cons_ne_nil _ _) fun group hmem =>
        hgroups group (List.mem_cons_of_mem _ hmem)
      obtain ⟨x, tail, hcons, hx⟩ :=
        exists_cons_intercalate later (hgroups second (by simp))
      rw [String.intercalate_cons_cons, String.toList_append, String.toList_append,
        List.append_assoc, List.append_assoc]
      show DeclText ([] ++ (first.toList ++ (" ".toList ++ _))) (first :: second :: later) found
      refine .signature (List.forall_mem_nil _) (List.forall_mem_singleton.2 rfl) ?_
        (hfirst.longest (stopsAt_cons.2 rfl)) hlater
      rw [hcons]
      exact stopsAt_cons.2 (isSpace_of_isWordChar hx)

/-- The print of a declaration is a run of its signatures. -/
theorem Decl.Printable.declText {reference : Decl} (h : reference.Printable) :
    ∃ groups, groups ≠ [] ∧ reference.signature = String.intercalate " " groups ∧
      DeclText reference.text.toList groups reference.substitution := by
  obtain ⟨signature, found⟩ := reference
  obtain ⟨⟨groups, hne, rfl, hgroups⟩, hsubstitution⟩ := h
  have hsignatures : ∀ group ∈ groups, SignatureText group.toList := by
    intro group hmem
    obtain ⟨value, next, hok, hend⟩ := exists_of_consumes (hgroups group hmem)
    obtain ⟨hreads, hsignature⟩ := declSignature_reads hok
    rwa [hreads.eq_of_start hend]
  refine ⟨groups, hne, rfl, ?_⟩
  cases found with
  | none =>
    have hrun := declText_intercalate hne hsignatures (List.forall_mem_nil _) (fun _ => rfl)
      (stopsAt_nil _) .stop
    rwa [List.append_nil, List.append_nil] at hrun
  | some text =>
    obtain ⟨value, next, hok, hend⟩ := exists_of_consumes (hsubstitution text rfl)
    obtain ⟨hreads, hopen, haccepts⟩ := substitution_reads hok
    obtain rfl : text = value := String.toList_inj.1 (hreads.eq_of_start hend)
    have hstop := (stopsAt_declTail_some hopen []).1
    rw [declTail, List.append_nil] at hstop
    have hspace : ∀ x ∈ " ".toList, isSpace x = true := List.forall_mem_singleton.2 rfl
    have hrun := declText_intercalate hne hsignatures hspace
      (fun hnil => absurd hnil (by decide)) hstop (.substitution hopen haccepts)
    have htext : (Decl.text ⟨String.intercalate " " groups, some text⟩).toList =
        (String.intercalate " " groups).toList ++ (" ".toList ++ text.toList) := by
      rw [Decl.text, String.toList_append, String.toList_append, List.append_assoc]
    rwa [htext]

/-- A declaration is read back, one without a substitution together with the blanks behind it. -/
theorem decl_accepts_printable {reference : Decl} {blanks rest : List Char}
    (h : reference.Printable) (hblanks : ∀ x ∈ blanks, isSpace x = true)
    (hstop : StopsAt isSpace rest) (hafter : EntryEnd (blanks ++ rest))
    (hopen : reference.substitution.isNone = true →
      declSignature.Rejects rest ∧ substitution.Rejects rest) :
    decl.AcceptsLoosely reference.text.toList reference blanks rest := by
  obtain ⟨groups, hne, hsignature, hrun⟩ := h.declText
  generalize reference.text.toList = text at hrun ⊢
  obtain ⟨signature, found⟩ := reference
  obtain rfl : signature = _ := hsignature
  cases found with
  | none =>
    obtain ⟨hreject, hreject'⟩ := hopen rfl
    refine ⟨blanks, [], (List.append_nil _).symm, ?_⟩
    exact decl_accepts hrun hne hblanks hstop hafter hreject hreject'
  | some found => exact (decl_accepts_substitution hrun hne hafter).loosely

/-! ## Attributes without a rule of their own -/

/-- A value is read back without the blanks that it may have taken. -/
theorem trimmedValue_accepts {value : String} {blanks rest : List Char} (h : IsValue value)
    (hblanks : ∀ x ∈ blanks, isSpace x = true) (hstop : StopsAt isSpace rest)
    (hafter : EntryEnd (blanks ++ rest))
    (hopen : readsOpenDecl value = true → declSignature.Rejects rest ∧ substitution.Rejects rest) :
    trimmedValue.AcceptsLoosely ('=' :: value.toList) value blanks rest := by
  obtain ⟨taken, left, rfl, haccepts⟩ := unknownValue_accepts h hblanks hstop hafter hopen
  have htaken : ∀ x ∈ taken, isSpace x = true := fun x hx => hblanks x (List.mem_append_left _ hx)
  have hvalue := haccepts.bind_pure (f := fun found => String.ofList (Text.trimEnd found.toList))
  rw [String.toList_ofList, trimEnd_append htaken, h.trimmed, String.ofList_toList] at hvalue
  exact ⟨taken, left, rfl, Accepts.bind (s := ['=']) (token_accepts "=" _) hvalue⟩

/-- A keyword with a value. -/
theorem unknown_accepts_some {keyword value : String} {blanks rest : List Char}
    (hkeyword : IsKeyword keyword.toList) (h : IsValue value)
    (hblanks : ∀ x ∈ blanks, isSpace x = true) (hstop : StopsAt isSpace rest)
    (hafter : EntryEnd (blanks ++ rest))
    (hopen : readsOpenDecl value = true → declSignature.Rejects rest ∧ substitution.Rejects rest) :
    unknown.AcceptsLoosely (keyword.toList ++ '=' :: value.toList) (.unknown keyword (some value))
      blanks rest := by
  have hname : TypeScribe.Parser.keyword.Accepts keyword.toList (String.ofList keyword.toList)
      ('=' :: value.toList ++ (blanks ++ rest)) :=
    keyword_accepts hkeyword (stopsAt_cons.2 rfl)
  rw [String.ofList_toList] at hname
  have hvalue := trimmedValue_accepts h hblanks hstop hafter hopen
  exact .bind hname hvalue.option?.bind_pure

/-- A keyword alone. -/
theorem unknown_accepts_none {keyword : String} {after : List Char}
    (hkeyword : IsKeyword keyword.toList) (hafter : EntryEnd after) :
    unknown.Accepts keyword.toList (.unknown keyword none) after := by
  have hname := keyword_accepts hkeyword hafter.stopsAt_isKeywordChar
  rw [String.ofList_toList] at hname
  have hequals : StopsAt (· == '=') after := hafter.stopsAt rfl rfl rfl
  have hvalue : trimmedValue.Rejects after := (token_rejects_of_head rfl hequals).bind _
  exact hname.bind_nil hvalue.option?.bind_pure

/-- A rule with a label is not applied to another keyword, nor to a value that it does not read. -/
theorem labelled_rejects {α β : Type} {p : Parser α} {f : α → Parser β} {literal keyword : String}
    {rest : List Char} (label : String) (hliteral : literal.toList = label.toList ++ ['='])
    (hlabel : '=' ∉ label.toList) (hkeyword : '=' ∉ keyword.toList)
    (hp : keyword = label → p.Rejects rest) :
    (token literal >>= fun _ => p >>= f).Rejects (keyword.toList ++ '=' :: rest) := by
  by_cases hstarts : literal.toList <+: keyword.toList ++ '=' :: rest
  · obtain ⟨tail, heq⟩ := hstarts
    rw [hliteral, List.append_assoc] at heq
    obtain ⟨m, hm, hrest⟩ := append_eq_append_cons heq.symm hkeyword
    cases m with
    | nil =>
      obtain rfl : keyword = label := by
        rw [← String.toList_inj, hm, List.append_nil]
      have htext : keyword.toList ++ '=' :: rest = literal.toList ++ rest := by
        rw [hliteral]
        simp
      rw [htext]
      exact (token_accepts literal rest).bind_rejects ((hp rfl).bind _)
    | cons x m =>
      obtain ⟨rfl, -⟩ := List.cons.inj hrest
      rw [hm] at hlabel
      simp at hlabel
  · exact (token_rejects hstarts).bind _

/-! ## Attributes -/

/-- The rules for attributes before the one for any keyword. -/
def knownRules : List (Parser Attribute) := [
  do let _ ← token "range="; return .range (← range),
  do let _ ← token "type="; return .type (← typeName),
  do let _ ← token "location="; return .location (← point),
  do let _ ← token "nothrow"; return .nothrow,
  do let _ ← token "decl="; return .decl (← decl)]

/-- What holds of the rules of known keywords, one by one. -/
theorem forall_mem_knownRules {predicate : Parser Attribute → Prop} :
    (∀ p ∈ knownRules, predicate p) ↔
      predicate (token "range=" >>= fun _ => range >>= fun found => pure (.range found)) ∧
      predicate (token "type=" >>= fun _ => typeName >>= fun found => pure (.type found)) ∧
      predicate (token "location=" >>= fun _ => point >>= fun found => pure (.location found)) ∧
      predicate (token "nothrow" >>= fun _ => pure .nothrow) ∧
      predicate (token "decl=" >>= fun _ => decl >>= fun found => pure (.decl found)) := by
  simp only [knownRules, List.forall_mem_cons, List.not_mem_nil, false_imp_iff, implies_true,
    and_true]

/-- A keyword alone is not taken for one with a rule of its own: the labels of the other rules end
with an equals sign, which the keyword does not hold. -/
theorem knownRules_reject_keyword {keyword : String} {after : List Char}
    (hkeyword : IsKeyword keyword.toList) (hnothrow : ¬"nothrow".toList <+: keyword.toList)
    (hafter : EntryEnd after) : ∀ p ∈ knownRules, p.Rejects (keyword.toList ++ after) := by
  have hequals : '=' ∉ keyword.toList := IsKeyword.notMem hkeyword rfl
  have hlabel : ∀ {literal : String}, '=' ∈ literal.toList →
      ' ' ∉ literal.toList ∧ '\n' ∉ literal.toList ∧ ')' ∉ literal.toList →
      (token literal).Rejects (keyword.toList ++ after) := by
    intro literal hmem hchars
    refine token_rejects fun hstarts => hequals ?_
    exact (hafter.literal_before hchars hstarts).subset hmem
  refine forall_mem_knownRules.2 ⟨(hlabel ?_ ?_).bind _, (hlabel ?_ ?_).bind _,
    (hlabel ?_ ?_).bind _, (token_rejects fun hstarts => hnothrow ?_).bind _,
    (hlabel ?_ ?_).bind _⟩
  case refine_7 => exact hafter.literal_before (by decide) hstarts
  all_goals decide

/-- Before a value, a rule of its own is applied to its keyword only. -/
theorem knownRules_reject_labelled {keyword : String} {rest : List Char}
    (hkeyword : IsKeyword keyword.toList) (hnothrow : ¬"nothrow".toList <+: keyword.toList)
    (hrange : keyword = "range" → range.Rejects rest)
    (htype : keyword = "type" → typeName.Rejects rest)
    (hlocation : keyword = "location" → point.Rejects rest)
    (hdecl : keyword = "decl" → decl.Rejects rest) :
    ∀ p ∈ knownRules, p.Rejects (keyword.toList ++ '=' :: rest) := by
  have hequals : '=' ∉ keyword.toList := IsKeyword.notMem hkeyword rfl
  refine forall_mem_knownRules.2 ⟨labelled_rejects "range" rfl (by decide) hequals hrange,
    labelled_rejects "type" rfl (by decide) hequals htype,
    labelled_rejects "location" rfl (by decide) hequals hlocation, (token_rejects ?_).bind _,
    labelled_rejects "decl" rfl (by decide) hequals hdecl⟩
  rintro ⟨tail, heq⟩
  obtain ⟨m, hm, -⟩ := append_eq_append_cons heq (by decide)
  exact hnothrow ⟨m, hm.symm⟩

/-- A keyword with a value is not taken for one with a rule of its own, since that rule does not
read the value. -/
theorem knownRules_reject_value {keyword value : String} {after : List Char}
    (hkeyword : IsKeyword keyword.toList) (hnothrow : ¬"nothrow".toList <+: keyword.toList)
    (hvalue : IsValue value) (hown : OwnRuleFails keyword value) (hafter : EntryEnd after) :
    ∀ p ∈ knownRules, p.Rejects (keyword.toList ++ '=' :: (value.toList ++ after)) := by
  refine knownRules_reject_labelled hkeyword hnothrow (fun heq => ?_) (fun heq => ?_)
    (fun heq => ?_) fun heq => ?_
  · exact hvalue.range_rejects hafter (fails_iff.1 (hown.range heq))
  · exact hvalue.typeName_rejects (fails_iff.1 (hown.type heq))
  · exact point_rejects_append hafter (fails_iff.1 (hown.location heq))
  · obtain ⟨hfails, hcloses⟩ := hown.decl heq
    have hcloses := fails_iff.1 hcloses
    rw [String.toList_append] at hcloses
    exact decl_rejects_append hafter hvalue.exists_not_isSpace (fails_iff.1 hfails)
      (.inr hcloses)

/-- An unknown keyword is not taken for one with a rule of its own. -/
theorem attr_accepts_unknown {keyword : String} {value : Option String} {blanks rest : List Char}
    (h : (Attribute.unknown keyword value).Printable)
    (hblanks : ∀ x ∈ blanks, isSpace x = true) (hstop : StopsAt isSpace rest)
    (hafter : EntryEnd (blanks ++ rest))
    (hopen : (Entry.attr (.unknown keyword value)).endsOpen = true →
      declSignature.Rejects rest ∧ substitution.Rejects rest) :
    attr.AcceptsLoosely (Attribute.unknown keyword value).text.toList (.unknown keyword value)
      blanks rest := by
  obtain ⟨hkeyword, hnothrow, hvalue⟩ := h
  show (choice (knownRules ++ [unknown])).AcceptsLoosely _ _ _ _
  cases value with
  | none =>
    refine .choice_append (knownRules_reject_keyword hkeyword hnothrow hafter) ?_
    exact (unknown_accepts_none hkeyword hafter).loosely.choice_head _
  | some value =>
    obtain ⟨hvalue, hown⟩ := hvalue value rfl
    have htext : (Attribute.unknown keyword (some value)).text.toList =
        keyword.toList ++ '=' :: value.toList := by simp [Attribute.text]
    rw [htext]
    refine .choice_append ?_ ?_
    · rw [List.append_assoc]
      exact knownRules_reject_value hkeyword hnothrow hvalue hown hafter
    · exact (unknown_accepts_some hkeyword hvalue hblanks hstop hafter hopen).choice_head _

/-- Every printable attribute is read back, a declaration without a substitution together with the
blanks behind it. -/
theorem attr_accepts {value : Attribute} {blanks rest : List Char} (h : value.Printable)
    (hblanks : ∀ x ∈ blanks, isSpace x = true) (hstop : StopsAt isSpace rest)
    (hafter : EntryEnd (blanks ++ rest))
    (hopen : (Entry.attr value).endsOpen = true →
      declSignature.Rejects rest ∧ substitution.Rejects rest) :
    attr.AcceptsLoosely value.text.toList value blanks rest := by
  -- a label is not taken for one that starts with another letter
  have hother : ∀ {α : Type} {literal : String} {x y : Char} {text : List Char}
      (f : String → Parser α), literal.toList.head? = some x → y ≠ x →
      (token literal >>= f).Rejects (y :: text) :=
    fun f hliteral hne => (token_rejects_of_head hliteral (stopsAt_beq hne _)).bind f
  cases value with
  | range stretch =>
    rw [Attribute.text, String.toList_append]
    have hrange := range_accepts (Range.rangeText h.1.pointText h.2.pointText) (blanks ++ rest)
    exact ((token_accepts "range=" _).bind hrange.bind_pure).loosely.choice_head _
  | type name =>
    have htext : (Attribute.type name).text.toList =
        "type=".toList ++ ('\'' :: name.toList ++ ['\'']) := by simp [Attribute.text]
    rw [htext]
    have hname := quoted_accepts (quotable_of_notMem h) (blanks ++ rest)
    rw [String.ofList_toList] at hname
    refine .choice_tail (hother _ rfl (by decide)) ?_
    exact ((token_accepts "type=" _).bind hname.bind_pure).loosely.choice_head _
  | location point =>
    rw [Attribute.text, String.toList_append]
    have hdigit : StopsAt Char.isDigit (blanks ++ rest) := hafter.stopsAt rfl rfl rfl
    have hpoint := point_accepts h.pointText hdigit
    refine .choice_tail (hother _ rfl (by decide)) ?_
    refine .choice_tail (hother _ rfl (by decide)) ?_
    exact ((token_accepts "location=" _).bind hpoint.bind_pure).loosely.choice_head _
  | nothrow =>
    refine .choice_tail (hother _ rfl (by decide)) ?_
    refine .choice_tail (hother _ rfl (by decide)) ?_
    refine .choice_tail (hother _ rfl (by decide)) ?_
    exact (token_accepts "nothrow" _).bind_pure.loosely.choice_head _
  | decl reference =>
    rw [Attribute.text, String.toList_append]
    refine .choice_tail (hother _ rfl (by decide)) ?_
    refine .choice_tail (hother _ rfl (by decide)) ?_
    refine .choice_tail (hother _ rfl (by decide)) ?_
    refine .choice_tail (hother _ rfl (by decide)) ?_
    refine AcceptsLoosely.choice_head (.bind (token_accepts "decl=" _) (.bind_pure ?_)) _
    exact decl_accepts_printable h hblanks hstop hafter hopen
  | unknown keyword value => exact attr_accepts_unknown h hblanks hstop hafter hopen

end TypeScribe.Dump
