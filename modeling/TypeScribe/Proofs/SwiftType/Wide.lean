import TypeScribe.Proofs.SwiftType.RoundTrip

/-!
# Wide types

A composition may have function types before its last member if they stand in parentheses, and then
it is read one member after another, however many there are (`parse_wideText`). Written out, the
members stand without parentheses, and each function type takes the later members for a part of its
result: the spelling of a wide composition nests as deep as the composition is wide
(`parse_render_wide`). The same goes for the types in which it is nested, such as arrays
(`parse_wideArrayText`, `parse_render_arrayOf_wide`).
-/

namespace TypeScribe.SwiftType

open TypeScribe.Parser
open TypeScribe.SwiftType.Grammar

/-! ## Reading members in parentheses -/

/-- `() -> A`. -/
def thunk : SwiftType := .function [] (named "A" []) []

theorem normal_a : (named "A" []).Normal := normal_named (.plain (by decide)) (by decide)

theorem normal_thunk : thunk.Normal := by
  refine normal_of_parts ⟨by simp, by simp⟩ trivial ?_
  simpa [parts, thunk] using normal_a

/-- A composition of `n` function types and a type. -/
def wide (n : Nat) : SwiftType := .composition (List.replicate n thunk ++ [named "A" []])

/-- It nests three deep, however wide it is. -/
theorem depth_wide (n : Nat) : (wide n).depth = if n = 0 then 2 else 3 := by
  have hmembers : depthOfAll (List.replicate n thunk ++ [named "A" []]) =
      if n = 0 then 1 else 2 := by
    induction n with
    | zero => rfl
    | succ n ih =>
      rw [List.replicate_succ, List.cons_append, depthOfAll, ih, if_neg n.succ_ne_zero]
      split <;> rfl
  rw [depth_eq, wide, parts, hmembers]
  split <;> rfl

/-- The members one after another, with parentheses around the function types. -/
def wideChars (n : Nat) : List Char :=
  separatedBy " & ".toList ((List.replicate n thunk ++ [named "A" []]).map baseChars)

/-- A text that is read as a wide composition. -/
def wideText (n : Nat) : String := String.ofList (wideChars n)

/-- A text that is read as an array of wide compositions. -/
def wideArrayText (n : Nat) : String := String.ofList ('[' :: wideChars n ++ [']'])

section
variable {nested : Parser SwiftType} {found : SwiftType}

/-- In parentheses, if it needs them, a type may be any member of a composition. -/
theorem ReadsBase.member_accepts (h : ReadsBase nested found)
    (hstarts : StartsPlain found.baseChars)
    {blanks rest : List Char} (hends : Ends memberMarks blanks rest) :
    (member nested).AcceptsLoosely found.baseChars found.voidResults blanks rest := by
  have hword : StopsAt isWordChar (blanks ++ rest) :=
    hends.stopsAt_isWordChar memberMarks_subset_nominalMarks
  have hnone := hstarts.modifier_rejects (List.forall_mem_nil _) hword
  have hbase := h.functionOrPrimary_accepts (List.forall_mem_nil _) hends
  exact AcceptsLoosely.bind (s := []) hnone.many hbase.bind_pure

end

theorem Normal.readsBase {found : SwiftType} (h : found.Normal) {depth : Nat}
    (hdepth : found.depth ≤ depth) : ReadsBase (typeWithin (depth + 1)) found :=
  (h.readsBack (hdepth.trans (Nat.le_succ depth))).base (h.readsBack hdepth).whole

/-- What holds of the two kinds of members holds of all of them. -/
theorem forall_mem_members {P : SwiftType → Prop} {n : Nat} (hthunk : P thunk)
    (hnamed : P (named "A" [])) : ∀ part ∈ List.replicate n thunk ++ [named "A" []], P part := by
  intro part hpart
  rcases List.mem_append.1 hpart with hpart | hpart
  · exact List.eq_of_mem_replicate hpart ▸ hthunk
  · exact List.mem_singleton.1 hpart ▸ hnamed

/-- A wide composition is read from its text, if its members are followed. -/
theorem typeWithin_accepts_wide {depth n : Nat} (hdepth : 2 ≤ depth) (hn : n ≠ 0)
    {rest : List Char} (hends : Ends typeMarks [] rest) :
    (typeWithin (depth + 2)).Accepts (wideChars n) (wide n) rest := by
  obtain ⟨m, rfl⟩ := Nat.exists_eq_succ_of_ne_zero hn
  have hnormal : ∀ part ∈ List.replicate (m + 1) thunk ++ [named "A" []],
      part.Normal ∧ part.depth ≤ depth := by
    refine forall_mem_members ⟨normal_thunk, hdepth⟩ ⟨normal_a, ?_⟩
    show 1 ≤ depth
    omega
  have hmembers : ∀ part ∈ List.replicate (m + 1) thunk ++ [named "A" []], ∀ blanks rest,
      Ends memberMarks blanks rest → (false = true → Ends typeMarks blanks rest) →
      (member (typeWithin (depth + 1))).AcceptsLoosely part.baseChars part.voidResults
        blanks rest := by
    intro part hpart blanks rest hends _
    obtain ⟨hpart, hle⟩ := hnormal part hpart
    exact (hpart.readsBase hle).member_accepts hpart.starts.1 hends
  have hvoid : ∀ part ∈ List.replicate (m + 1) thunk ++ [named "A" []], part.voidResults = part :=
    forall_mem_members rfl rfl
  rw [List.replicate_succ, List.cons_append] at hmembers hvoid hnormal
  have hreads := typeOf_accepts_members hmembers
    (fun part hpart => (hnormal part (List.mem_cons_of_mem _ hpart)).1.starts.1.startsType)
    (fun _ _ => rfl) hends
  have hvalue : (thunk :: (List.replicate m thunk ++ [named "A" []])).map voidResults =
      thunk :: (List.replicate m thunk ++ [named "A" []]) :=
    (List.map_congr_left hvoid).trans (List.map_id _)
  obtain ⟨hfirst, hlater⟩ := List.cons.inj hvalue
  rw [hfirst, hlater, if_neg (by simp)] at hreads
  exact hreads.tight

/-- With the members in parentheses, a wide composition is read with little room. -/
theorem parse_wideText [CallStack] (hroom : 3 < CallStack.types) {n : Nat} (hn : n ≠ 0) :
    parse (wideText n) = .ok (wide n) := by
  obtain ⟨depth, hdepth⟩ : ∃ d, CallStack.types = d + 2 := ⟨CallStack.types - 2, by omega⟩
  refine parse_eq_ok_of_accepts ?_
  rw [hdepth, wideText, String.toList_ofList]
  exact typeWithin_accepts_wide (by omega) hn ends_nil

/-- A type that is a primary, alone in a text, is read. -/
theorem typeOf_accepts_primary {nested : Parser SwiftType} {text : List Char} {base : Primary}
    (hmodifier : modifier.Rejects (text ++ [])) (h : (primary nested).Accepts text base []) :
    (typeOf nested).Accepts text base.toType [] := by
  have hends : Ends memberMarks [] [] := ends_nil
  have hpostfixes : (many postfixMark).Accepts [] [] [] := hends.postfixMark_rejects.many
  have harrow : (option? (arrow nested)).Accepts [] none [] := hends.arrow_rejects.option?
  have hbase : (functionOrPrimary nested).Accepts text base.toType [] :=
    h.bind_nil (hpostfixes.bind_nil harrow.bind_pure)
  have hmember : (member nested).Accepts text base.toType [] :=
    Accepts.bind (s := []) hmodifier.many hbase.bind_pure
  have hnone : (symbol "&" >>= fun _ => member nested).Rejects [] :=
    Rejects.bind (symbol_rejects_of_head rfl (stopsAt_nil _)) _
  exact hmember.bind_nil hnone.many.bind_pure

/-- An array of wide compositions is read from its text. -/
theorem parse_wideArrayText [CallStack] (hroom : 4 < CallStack.types) {n : Nat} (hn : n ≠ 0) :
    parse (wideArrayText n) = .ok (.array (wide n)) := by
  obtain ⟨depth, hdepth⟩ : ∃ d, CallStack.types = d + 3 := ⟨CallStack.types - 3, by omega⟩
  have hwide : (typeWithin (depth + 2)).Accepts (wideChars n) (wide n) ("]".toList ++ ([] ++ [])) :=
    typeWithin_accepts_wide (by omega) hn
      (ends_cons (List.forall_mem_nil _) (by decide) (by decide))
  have hspace : ∀ after, StopsAt isSpace (wideChars n ++ after) := by
    obtain ⟨m, rfl⟩ := Nat.exists_eq_succ_of_ne_zero hn
    exact fun _ => stopsAt_cons.2 rfl
  have harray : (collection (typeWithin (depth + 2))).AcceptsLoosely
      ([] ++ ('[' :: wideChars n ++ [']'])) (.array (wide n)) [] [] :=
    collection_accepts_array (List.forall_mem_nil _) (List.forall_mem_nil _) (stopsAt_nil _) hspace
      hwide
  have hprimary := (primary_accepts_collection (List.forall_mem_nil _) harray).tight
  have hstarts : StartsPlain ('[' :: wideChars n ++ [']']) := .mark (by decide)
  have hmodifier : modifier.Rejects ([] ++ ('[' :: wideChars n ++ [']'] ++ [])) :=
    hstarts.modifier_rejects (List.forall_mem_nil _) (stopsAt_nil _)
  refine parse_eq_ok_of_accepts ?_
  rw [hdepth, wideArrayText, String.toList_ofList]
  exact typeOf_accepts_primary hmodifier hprimary

/-! ## Reading members without parentheses -/

/-- One more member stands in front of the spelling, and the rest is its result. -/
theorem chars_wide_succ (n : Nat) :
    chars (wide (n + 1)) = "() -> ".toList ++ ("A & ".toList ++ chars (wide n)) := by
  have hne : (List.replicate n thunk ++ [named "A" []]).map chars ≠ [] := by simp
  rw [wide, wide, chars_composition, chars_composition, List.replicate_succ, List.cons_append,
    List.map_cons, separatedBy_cons_of_ne_nil hne]
  rfl

section
variable {nested : Parser SwiftType} {text : List Char} {stop : Stop}

/-- A member without modifiers is stopped as its base is. -/
theorem member_stopsOn (h : (functionOrPrimary nested).StopsOn ('(' :: text) stop) :
    (member nested).StopsOn ('(' :: text) stop := by
  have hnone : modifiers.Accepts [] [] ('(' :: text) := by
    refine Rejects.many (.choice ?_)
    simp only [List.forall_mem_cons, List.not_mem_nil, false_imp_iff, implies_true, and_true]
    exact ⟨typeAttribute_rejects (stopsAt_cons.2 rfl), oneOf_rejects (stopsAt_cons.2 rfl)⟩
  exact hnone.bind_stopsOn (h.bind _)

/-- Where no type is followed at all, not even the end of an empty list is. -/
theorem parameters_stopsOn (h : nested.StopsOn (')' :: text) stop) :
    (functionOrPrimary nested).StopsOn ('(' :: ')' :: text) stop := by
  have hopen : (symbol "(").Accepts "(".toList "(" (')' :: text) :=
    symbol_accepts_tight "(" (by decide) (List.forall_mem_nil _) (stopsAt_cons.2 rfl)
  have hlabel : elementLabel.Rejects (')' :: text) := (name_rejects (stopsAt_cons.2 rfl)).bind _
  have helement : (element nested).StopsOn (')' :: text) stop :=
    hlabel.option?.bind_stopsOn (h.bind _)
  have hlist : ((separated (element nested)).option []).StopsOn (')' :: text) stop :=
    (helement.bind _).orElse _
  have hparens : (parenList nested).StopsOn ('(' :: ')' :: text) stop :=
    hopen.bind_stopsOn (hlist.bind _)
  exact (hparens.choice_head _).bind _

/-- A function type is stopped where its result is. -/
theorem result_stopsOn [Follows nested] (hstarts : StopsAt isSpace text)
    (h : nested.StopsOn text stop) :
    (functionOrPrimary nested).StopsOn ("() -> ".toList ++ text) stop := by
  have hparameters : (postfixed nested).AcceptsLoosely ([] ++ parenChars []) (.parens []) [' ']
      ("-> ".toList ++ text) :=
    postfixed_accepts_parameters (by simp) (by simp) (by simp) (List.forall_mem_nil _)
      (stopsAt_cons.2 rfl) (stopsAt_cons.2 rfl)
  rw [functionOrPrimary_eq]
  refine hparameters.bind_stopsOn fun left hleft => (StopsOn.option? ?_).bind _
  refine (effect_rejects_arrow hleft text).many.bind_stopsOn ?_
  rw [← List.append_assoc]
  exact (arrow_symbol_accepts hleft hstarts).bind_stopsOn (h.bind _)

/-- A composition is stopped where its second member is. -/
theorem second_stopsOn [Forward nested] (hstarts : StopsAt isSpace text)
    (h : (member nested).StopsOn text stop) :
    (typeOf nested).StopsOn ("A & ".toList ++ text) stop := by
  have hreads : ReadsBase nested (named "A" []) :=
    (readsPrimary_nominal normal_a.wellFormed (by simp [parts]) (by simp [parts])).readsBase
  have hends : Ends memberMarks [' '] ("& ".toList ++ text) :=
    ends_cons isSpace_of_mem_space (by decide) (by decide)
  have hfirst := hreads.member_accepts normal_a.starts.1 hends
  refine hfirst.bind_stopsOn fun left hleft => (StopsOn.many ?_).bind _
  have hsymbol : (symbol "&").Accepts (left ++ "& ".toList) "&" text :=
    symbol_accepts_of_isInk "&" (by decide) (isSpace_of_suffix_space hleft) isSpace_of_mem_space
      hstarts
  rw [← List.append_assoc]
  exact hsymbol.bind_stopsOn h

end

/-- Every level takes the members behind the first for a part of the result, one level less. -/
theorem typeWithin_stopsOn_wide {depth n : Nat} (h : depth ≤ n) (after : List Char) :
    (typeWithin depth).StopsOn (chars (wide n) ++ after) .tooDeep ∧
      (typeWithin depth).StopsOn ("A & ".toList ++ (chars (wide n) ++ after)) .tooDeep := by
  induction depth generalizing n with
  | zero => exact ⟨fun _ => rfl, fun _ => rfl⟩
  | succ depth ih =>
    obtain ⟨n, rfl⟩ : ∃ m, n = m + 1 := ⟨n - 1, by omega⟩
    have hchars : chars (wide (n + 1)) ++ after =
        "() -> ".toList ++ ("A & ".toList ++ (chars (wide n) ++ after)) := by
      rw [chars_wide_succ, List.append_assoc, List.append_assoc]
    have hfirst : (functionOrPrimary (typeWithin depth)).StopsOn (chars (wide (n + 1)) ++ after)
        .tooDeep := by
      rw [hchars]
      cases depth with
      | zero => exact parameters_stopsOn fun _ => rfl
      | succ depth =>
        have hstarts : StopsAt isSpace ("A & ".toList ++ (chars (wide n) ++ after)) :=
          stopsAt_cons.2 rfl
        exact result_stopsOn hstarts (ih (Nat.le_of_succ_le_succ h)).2
    rw [hchars] at hfirst ⊢
    have hmember := member_stopsOn hfirst
    exact ⟨hmember.bind _, second_stopsOn (stopsAt_cons.2 rfl) hmember⟩

/-- A text that stops the run is not read. -/
theorem parse_of_stopsOn [CallStack] {text : String} {stop : Stop}
    (h : (typeWithin CallStack.types).StopsOn text.toList stop) :
    parse text = .error (.stopped stop) := by
  have hdocument : document.StopsOn text.toList stop := h.bind _
  rw [parse, Cursor.start, hdocument 0]

/-- As written out, a composition that is as wide as the call stack is deep is not read. -/
theorem parse_render_wide [CallStack] {n : Nat} (h : CallStack.types ≤ n) :
    parse (wide n).render = .error (.stopped .tooDeep) := by
  refine parse_of_stopsOn ?_
  have hstops := (typeWithin_stopsOn_wide h []).1
  rwa [List.append_nil] at hstops

/-- A generic type is stopped where its argument is. -/
theorem argument_stopsOn {nested : Parser SwiftType} {text : List Char} {stop : Stop}
    (hspace : StopsAt isSpace text) (h : nested.StopsOn text stop) :
    (typeOf nested).StopsOn ("Array<".toList ++ text) stop := by
  have hstarts : StartsPlain ("Array".toList ++ []) :=
    .word (.plain (by decide)) (by decide) detached_nil
  have hmodifier : modifier.Rejects ([] ++ ("Array".toList ++ [] ++ ("<".toList ++ text))) :=
    hstarts.modifier_rejects (List.forall_mem_nil _) (stopsAt_cons.2 rfl)
  have hname : name.Accepts ([] ++ "Array".toList) "Array" ("<".toList ++ text) :=
    name_accepts (List.forall_mem_nil _) (.plain (by decide)) (stopsAt_cons.2 rfl)
  have hopen : (symbol "<").Accepts "<".toList "<" text :=
    symbol_accepts_tight "<" (by decide) (List.forall_mem_nil _) hspace
  have harguments : ((Grammar.genericArguments nested).option []).StopsOn ("<".toList ++ text)
      stop := (hopen.bind_stopsOn ((h.bind _).bind _)).orElse _
  have hnominal : (Grammar.nominal nested).StopsOn ("Array<".toList ++ text) stop :=
    (hname.bind_stopsOn (harguments.bind _)).bind _
  have hparens : (parenList nested).Rejects ("Array<".toList ++ text) :=
    (symbol_rejects_of_head rfl (stopsAt_cons.2 rfl)).bind _
  have hcollection : (collection nested).Rejects ("Array<".toList ++ text) :=
    (symbol_rejects_of_head rfl (stopsAt_cons.2 rfl)).bind _
  have hprimary : (primary nested).StopsOn ("Array<".toList ++ text) stop :=
    .choice_tail hparens (.choice_tail (hcollection.map _) ((hnominal.map _).choice_head _))
  have hmember : (member nested).StopsOn ("Array<".toList ++ text) stop :=
    hmodifier.many.bind_stopsOn ((hprimary.bind _).bind _)
  exact hmember.bind _

/-- Nor is the generic type of an array of such compositions. -/
theorem parse_render_arrayOf_wide [CallStack] {n : Nat} (h : CallStack.types ≤ n) :
    parse (named "Array" [wide n]).render = .error (.stopped .tooDeep) := by
  refine parse_of_stopsOn ?_
  have htext : chars (named "Array" [wide n]) = "Array<".toList ++ (chars (wide n) ++ ['>']) := by
    rw [named, chars_nominal]
    simp [separatedBy, segmentChars, argumentChars]
  show (typeWithin CallStack.types).StopsOn (chars (named "Array" [wide n])) .tooDeep
  rw [htext]
  cases htypes : CallStack.types with
  | zero => exact fun _ => rfl
  | succ depth =>
    obtain ⟨m, rfl⟩ : ∃ m, n = m + 1 := ⟨n - 1, by omega⟩
    have hspace : StopsAt isSpace (chars (wide (m + 1)) ++ ['>']) := by
      rw [chars_wide_succ]
      exact stopsAt_cons.2 rfl
    exact argument_stopsOn hspace (typeWithin_stopsOn_wide (by omega) ['>']).1

end TypeScribe.SwiftType
