import TypeScribe.Proofs.Dump.Signatures

/-!
# Declarations

A declaration is a run of signatures with blanks between them, and perhaps a substitution behind
them (`DeclText`). The rule reads on as long as it can, past blanks and into the next entry, so a
run ends only where neither a signature nor a substitution follows (`decl_accepts`).

Where the parenthesis of a node follows a signature directly, it might seem to close a component of
it. It cannot: signatures are `Balanced`, so none goes on with a parenthesis that it has not opened.
-/

namespace TypeScribe.Dump.Grammar

open TypeScribe.Parser

/-! ## Balanced text -/

/-- As many parentheses are closed as opened, and none is closed before it is opened. -/
structure Balanced (text : List Char) : Prop where
  count_eq : text.count ')' = text.count '('
  count_le : ∀ {s t : List Char}, text = s ++ t → s.count ')' ≤ s.count '('

/-- A text without parentheses is balanced. -/
theorem balanced_of_notMem {text : List Char} (hopen : '(' ∉ text) (hclose : ')' ∉ text) :
    Balanced text := by
  refine ⟨?_, ?_⟩
  · rw [List.count_eq_zero.2 hclose, List.count_eq_zero.2 hopen]
  · rintro s t rfl
    rw [List.count_eq_zero.2 fun hmem => hclose (List.mem_append_left _ hmem)]
    exact Nat.zero_le _

/-- Balanced texts in a row are balanced. -/
theorem Balanced.append {s t : List Char} (hs : Balanced s) (ht : Balanced t) :
    Balanced (s ++ t) := by
  refine ⟨?_, fun {u v} heq => ?_⟩
  · rw [List.count_append, List.count_append, hs.count_eq, ht.count_eq]
  · rcases List.append_eq_append_iff.1 heq with ⟨m, rfl, rfl⟩ | ⟨m, rfl, rfl⟩
    · rw [List.count_append, List.count_append, hs.count_eq]
      exact Nat.add_le_add_left (ht.count_le rfl) _
    · exact hs.count_le rfl

/-- A balanced text stays so in parentheses. -/
theorem Balanced.parenthesize {text : List Char} (h : Balanced text) :
    Balanced ('(' :: text ++ [')']) := by
  refine ⟨by simp [h.count_eq], fun {u v} heq => ?_⟩
  cases u with
  | nil => exact Nat.zero_le _
  | cons x u =>
    simp only [List.cons_append, List.cons.injEq] at heq
    obtain ⟨rfl, heq⟩ := heq
    rcases List.append_eq_append_iff.1 heq with ⟨m, rfl, hm⟩ | ⟨m, rfl, -⟩
    · have hlength : m.length ≤ 1 := by
        have := congrArg List.length hm
        simp at this
        omega
      have hcount := h.count_eq
      have hclose := List.count_le_length (a := ')') (l := m)
      simp
      omega
    · have hcount := h.count_le rfl
      simp
      omega

theorem balanced_parentheses {text : List Char} (hopen : '(' ∉ text) (hclose : ')' ∉ text) :
    Balanced ('(' :: text ++ [')']) :=
  (balanced_of_notMem hopen hclose).parenthesize

/-- Nothing balanced goes on with a closing parenthesis behind something balanced. -/
theorem Balanced.not_close {s t : List Char} (hs : Balanced s) : ¬Balanced (s ++ ')' :: t) := by
  intro h
  have hle := h.count_le (s := s ++ [')']) (t := t) (by simp)
  rw [List.count_append, List.count_append, hs.count_eq] at hle
  have hone : [')'].count ')' = 1 ∧ [')'].count '(' = 0 := by decide
  omega

theorem NameText.balanced {text : List Char} (h : NameText text) : Balanced text :=
  balanced_of_notMem (h.notMem rfl) (h.notMem rfl)

/-- A component is balanced. -/
theorem ComponentText.balanced {text : List Char} (h : ComponentText text) : Balanced text := by
  cases h with
  | function h =>
    obtain ⟨hname, hlabels⟩ := h
    refine hname.balanced.append ?_
    rcases hlabels with rfl | hlabels
    · exact balanced_parentheses List.not_mem_nil List.not_mem_nil
    · have hlabels := NameText.keyword hlabels
      exact balanced_parentheses (hlabels.notMem rfl)
        (hlabels.notMem rfl)
  | file h =>
    have hname := NameText.keyword h
    exact balanced_parentheses (hname.notMem rfl)
      (hname.notMem rfl)
  | name h => exact h.balanced

/-- So are several components. -/
theorem ComponentsText.balanced {text : List Char} (h : ComponentsText text) : Balanced text := by
  have hdot : Balanced ['.'] := balanced_of_notMem (by decide) (by decide)
  induction h with
  | nil => exact balanced_of_notMem List.not_mem_nil List.not_mem_nil
  | cons hfirst _ ih => exact (hdot.append hfirst.balanced).append ih

theorem SignatureText.balanced {text : List Char} (h : SignatureText text) : Balanced text := by
  obtain ⟨hhead, hfirst, hrest⟩ := h
  exact (NameText.keyword hhead).balanced.append (ComponentsText.cons hfirst hrest).balanced

/-! ## Characters of a signature -/

/-- A character that occurs in signatures. -/
def isSignatureChar (x : Char) : Bool := isNameChar x || x == '.' || x == '(' || x == ')'

/-- A name has no blanks or brackets. -/
theorem NameText.forall_isSignatureChar {text : List Char} (h : NameText text) :
    ∀ x ∈ text, isSignatureChar x = true := by
  intro x hx
  simp [isSignatureChar, h.forall_isNameChar x hx]

/-- Nor has a component. -/
theorem ComponentText.forall_isSignatureChar {text : List Char} (h : ComponentText text) :
    ∀ x ∈ text, isSignatureChar x = true := by
  have hparen : ∀ {labels : List Char}, labels = [] ∨ IsKeyword labels →
      ∀ x ∈ '(' :: labels ++ [')'], isSignatureChar x = true := by
    intro labels hlabels x hx
    simp only [List.cons_append, List.mem_cons, List.mem_append, List.not_mem_nil, or_false] at hx
    rcases hx with rfl | hx | rfl
    · decide
    · rcases hlabels with rfl | hlabels
      · cases hx
      · exact (NameText.keyword hlabels).forall_isSignatureChar x hx
    · decide
  intro x hx
  cases h with
  | function h =>
    obtain ⟨hname, hlabels⟩ := h
    rcases List.mem_append.1 hx with hx | hx
    · exact hname.forall_isSignatureChar x hx
    · exact hparen hlabels x hx
  | file h => exact hparen (.inr h) x hx
  | name h => exact h.forall_isSignatureChar x hx

/-- Nor have several components. -/
theorem ComponentsText.forall_isSignatureChar {text : List Char} (h : ComponentsText text) :
    ∀ x ∈ text, isSignatureChar x = true := by
  induction h with
  | nil => exact fun _ hx => nomatch hx
  | cons hfirst _ ih =>
    intro x hx
    rcases List.mem_append.1 hx with hx | hx
    · rcases List.mem_cons.1 hx with rfl | hx
      · decide
      · exact hfirst.forall_isSignatureChar x hx
    · exact ih x hx

/-- Nor has a signature. -/
theorem SignatureText.forall_isSignatureChar {text : List Char} (h : SignatureText text) :
    ∀ x ∈ text, isSignatureChar x = true := by
  obtain ⟨hhead, hfirst, hrest⟩ := h
  intro x hx
  rcases List.mem_append.1 hx with hx | hx
  · exact (NameText.keyword hhead).forall_isSignatureChar x hx
  · exact (ComponentsText.cons hfirst hrest).forall_isSignatureChar x hx

/-- A character that is no part of a signature does not occur in one. -/
theorem SignatureText.notMem {text : List Char} {x : Char} (h : SignatureText text)
    (hx : isSignatureChar x = false) : x ∉ text := by
  intro hmem
  rw [h.forall_isSignatureChar x hmem] at hx
  cases hx

/-- A signature has no spaces or line breaks. -/
theorem SignatureText.ne_gap {text : List Char} {x : Char} (h : SignatureText text)
    (hx : x ∈ text) : x ≠ ' ' ∧ x ≠ '\n' := by
  have hchar := h.forall_isSignatureChar x hx
  refine ⟨?_, ?_⟩ <;> rintro rfl <;> revert hchar <;> decide

/-- A signature starts with a character of a word. -/
theorem SignatureText.exists_cons {text : List Char} (h : SignatureText text) :
    ∃ x rest, text = x :: rest ∧ isWordChar x = true := by
  obtain @⟨head, first, rest, hhead, _, _⟩ := h
  cases head with
  | nil => exact hhead.elim
  | cons x tail => exact ⟨x, _, rfl, hhead.1⟩

/-! ## Runs of signatures -/

/-- A run of signatures, each with blanks around it, and perhaps a substitution at its end. -/
inductive DeclText : List Char → List String → Option String → Prop
  | stop : DeclText [] [] none
  | substitution {text : String} : "[with".toList <+: text.toList →
      (∀ after, substitution.Accepts text.toList text after) →
      DeclText text.toList [] (some text)
  | signature {before after rest : List Char} {text : String} {signatures : List String}
      {substitution : Option String} : (∀ x ∈ before, isSpace x = true) →
      (∀ x ∈ after, isSpace x = true) → StopsAt isSpace rest →
      LongestSignature text.toList (after ++ rest) → DeclText rest signatures substitution →
      DeclText (before ++ (text.toList ++ (after ++ rest))) (text :: signatures) substitution

/-- One signature of a run, with the blanks around it. -/
def signatureStep : Parser String := do
  skipSpaces
  let signature ← declSignature
  skipSpaces
  return signature

instance {stops : Stop → Prop} : Avoids stops signatureStep := by
  unfold signatureStep
  infer_instance

theorem balanced_of_isSpace {blanks : List Char} (h : ∀ x ∈ blanks, isSpace x = true) :
    Balanced blanks :=
  balanced_of_notMem (fun hmem => nomatch h _ hmem) (fun hmem => nomatch h _ hmem)

/-- A run without brackets is balanced. -/
theorem DeclText.balanced {text : List Char} {signatures : List String}
    {substitution : Option String} (h : DeclText text signatures substitution)
    (hbracket : '[' ∉ text) : Balanced text := by
  induction h with
  | stop => exact balanced_of_isSpace fun _ hx => nomatch hx
  | substitution hopen _ => exact absurd (hopen.subset (by decide)) hbracket
  | signature hbefore hafter _ hsignature _ ih =>
    simp only [List.mem_append, not_or] at hbracket
    exact (balanced_of_isSpace hbefore).append (hsignature.signature.balanced.append
      ((balanced_of_isSpace hafter).append (ih hbracket.2.2.2)))

/-- A signature ends where a character stands that occurs in none. -/
theorem SignatureText.longest {text after : List Char} (h : SignatureText text)
    (hafter : StopsAt isSignatureChar after) : LongestSignature text after := by
  refine ⟨h, fun {more rest} heq hmore => ?_⟩
  subst heq
  cases more with
  | nil => rfl
  | cons x more =>
    have hx := hmore.forall_isSignatureChar x (by simp)
    rw [stopsAt_cons.1 hafter] at hx
    cases hx

/-- The end of an entry does not prolong a signature of the entry. -/
theorem LongestSignature.append {text more after : List Char} (h : LongestSignature text more)
    (hmore : '[' ∉ more → Balanced more) (hafter : EntryEnd after) :
    LongestSignature text (more ++ after) := by
  refine ⟨h.signature, fun {longer rest} heq hlonger => ?_⟩
  rcases List.append_eq_append_iff.1 heq with ⟨m, rfl, rfl⟩ | ⟨m, rfl, -⟩
  · cases m with
    | nil =>
      rw [List.append_nil] at hlonger ⊢
      exact h.longest (List.append_nil _).symm hlonger
    | cons x m =>
      -- the signature would go on with the parenthesis of a node
      have hblank : ∀ y ∈ x :: m, y ≠ ' ' ∧ y ≠ '\n' := fun y hy =>
        hlonger.ne_gap (by simp [hy])
      obtain rfl := hafter.eq_close hblank x List.mem_cons_self
      have hbracket : '[' ∉ more := by
        have hnot := hlonger.notMem (x := '[') (by decide)
        simp only [List.mem_append, not_or] at hnot
        exact hnot.2.1
      have hbalanced := hlonger.balanced
      rw [← List.append_assoc] at hbalanced
      exact absurd hbalanced (h.signature.balanced.append (hmore hbracket)).not_close
  · exact h.longest rfl hlonger

/-- A run of signatures starts with a blank or a word. -/
theorem DeclText.exists_cons {text : List Char} {signatures : List String}
    {substitution : Option String} (h : DeclText text signatures substitution)
    (hne : signatures ≠ []) :
    ∃ x rest, text = x :: rest ∧ (isSpace x = true ∨ isWordChar x = true) := by
  cases h with
  | stop => exact absurd rfl hne
  | substitution _ _ => exact absurd rfl hne
  | @signature before _ _ _ _ _ hbefore _ _ hsignature _ =>
    cases before with
    | nil =>
      obtain ⟨x, rest, hcons, hx⟩ := hsignature.signature.exists_cons
      exact ⟨x, _, by rw [hcons]; rfl, .inr hx⟩
    | cons x before => exact ⟨x, _, rfl, .inl (hbefore x List.mem_cons_self)⟩

/-- A run of signatures starts with a blank or with part of a word. -/
theorem DeclText.stopsAt_head {text : List Char} {signatures : List String}
    {substitution : Option String} {x : Char} (h : DeclText text signatures substitution)
    (hne : signatures ≠ []) (hspace : isSpace x = false) (hword : isWordChar x = false)
    (after : List Char) : StopsAt (· == x) (text ++ after) := by
  obtain ⟨y, tail, rfl, hy⟩ := h.exists_cons hne
  refine stopsAt_beq ?_ _
  rintro rfl
  simp [hspace, hword] at hy

/-- A letter or digit is no blank. -/
theorem isSpace_of_isWordChar {x : Char} (h : isWordChar x = true) : isSpace x = false := by
  refine Bool.eq_false_iff.2 fun hspace => ?_
  simp only [isSpace, Bool.or_eq_true, beq_iff_eq] at hspace
  rcases hspace with ((rfl | rfl) | rfl) | rfl <;> revert h <;> decide

/-- A signature is read with the blanks on both sides if it cannot be longer. -/
theorem signatureStep_accepts {before text after rest : List Char}
    (hbefore : ∀ x ∈ before, isSpace x = true) (hafter : ∀ x ∈ after, isSpace x = true)
    (hrest : StopsAt isSpace rest) (h : LongestSignature text (after ++ rest)) :
    signatureStep.Accepts (before ++ (text ++ after)) (String.ofList text) rest := by
  obtain ⟨x, tail, hcons, hx⟩ := h.signature.exists_cons
  have hstart : StopsAt isSpace (text ++ after ++ rest) := by
    rw [hcons]
    exact stopsAt_cons.2 (isSpace_of_isWordChar hx)
  refine (skipSpaces_accepts hbefore hstart).bind ?_
  exact (declSignature_accepts h).bind (skipSpaces_accepts hafter hrest).bind_pure

theorem signatureStep_rejects {text : List Char} (hstop : StopsAt isSpace text)
    (h : declSignature.Rejects text) : signatureStep.Rejects text :=
  (skipSpaces_accepts (List.forall_mem_nil _) hstop).nil_bind_rejects (h.bind _)

/-- What is left of a run and the text behind it when the signatures have been read. -/
def declTail (substitution : Option String) (after : List Char) : List Char :=
  match substitution with
  | none => after.dropWhile isSpace
  | some text => text.toList ++ after

/-- A substitution starts with neither a blank nor a signature. -/
theorem stopsAt_declTail_some {text : String} (h : "[with".toList <+: text.toList)
    (after : List Char) : StopsAt isSpace (declTail (some text) after) ∧
      declSignature.Rejects (declTail (some text) after) := by
  obtain ⟨rest, hrest⟩ := h
  rw [declTail, ← hrest]
  refine ⟨stopsAt_cons.2 rfl, declSignature_rejects fun s t heq hs => ?_⟩
  obtain ⟨x, tail, rfl, hx⟩ := hs.exists_cons
  obtain rfl : '[' = x := (List.cons.inj heq).1
  revert hx
  decide

/-- The blanks before the rest of a run are taken together with what is in front of them, and the
run goes on behind them. If nothing is left of it, the blanks of the text behind are taken too. -/
theorem DeclText.exists_repeats {blanks rest after : List Char} {signatures : List String}
    {substitution : Option String} (h : DeclText rest signatures substitution)
    (hblanks : ∀ x ∈ blanks, isSpace x = true) (hrest : StopsAt isSpace rest)
    (hreject : declSignature.Rejects (declTail substitution after))
    (hrepeats : signatures ≠ [] →
      Repeats signatureStep (rest ++ after) signatures (declTail substitution after)) :
    ∃ taken mid, blanks ++ rest ++ after = taken ++ mid ∧ (∀ x ∈ taken, isSpace x = true) ∧
      StopsAt isSpace mid ∧
      Repeats signatureStep mid signatures (declTail substitution after) := by
  cases h with
  | stop =>
    have hstop := stopsAt_dropWhile isSpace after
    refine ⟨blanks ++ after.takeWhile isSpace, after.dropWhile isSpace, ?_, ?_, hstop,
      .stop (signatureStep_rejects hstop hreject)⟩
    · rw [List.append_nil, List.append_assoc, List.takeWhile_append_dropWhile]
    · intro x hx
      rcases List.mem_append.1 hx with hx | hx
      · exact hblanks x hx
      · exact List.mem_takeWhile_imp hx
  | substitution hopen _ =>
    have hstop := (stopsAt_declTail_some hopen after).1
    exact ⟨blanks, _, List.append_assoc .., hblanks, hstop,
      .stop (signatureStep_rejects hstop hreject)⟩
  | signature hbefore hblanks' hrest' hsignature htail =>
    obtain ⟨x, tail, hcons, -⟩ :=
      (DeclText.signature hbefore hblanks' hrest' hsignature htail).exists_cons
        (List.cons_ne_nil _ _)
    refine ⟨blanks, _, List.append_assoc .., hblanks, hrest.append ?_ after,
      hrepeats (List.cons_ne_nil _ _)⟩
    rw [hcons]
    exact List.cons_ne_nil _ _

/-- The signatures of a run are read one by one, in every place where an entry may end. -/
theorem DeclText.repeats {text after : List Char} {signatures : List String}
    {substitution : Option String} (h : DeclText text signatures substitution)
    (hne : signatures ≠ []) (hafter : EntryEnd after)
    (hreject : declSignature.Rejects (declTail substitution after)) :
    Repeats signatureStep (text ++ after) signatures (declTail substitution after) := by
  induction h with
  | stop => exact absurd rfl hne
  | substitution _ _ => exact absurd rfl hne
  | @signature before blanks rest first signatures substitution hbefore hblanks hrest hsignature
      htail ih =>
    have hlongest : LongestSignature first.toList (blanks ++ rest ++ after) := by
      refine hsignature.append (fun hbracket => ?_) hafter
      rw [List.mem_append, not_or] at hbracket
      exact (balanced_of_isSpace hblanks).append (htail.balanced hbracket.2)
    -- the first signature takes the blanks behind it, and the run goes on behind them
    obtain ⟨taken, mid, heq, htaken, hstop, hrepeats⟩ :=
      htail.exists_repeats hblanks hrest hreject fun hne => ih hne hreject
    rw [heq] at hlongest
    have haccepts := signatureStep_accepts hbefore htaken hstop hlongest
    rw [String.ofList_toList] at haccepts
    have htext : before ++ (first.toList ++ (blanks ++ rest)) ++ after =
        before ++ (first.toList ++ taken) ++ mid := by
      simp only [List.append_assoc] at heq ⊢
      rw [heq]
    rw [htext]
    refine .step haccepts ?_ hrepeats
    obtain ⟨x, tail, hcons, -⟩ := hsignature.signature.exists_cons
    simp [hcons]

/-! ## The rule -/

/-- A run without a substitution is read together with the blanks behind it, where nothing follows
that belongs to a declaration. -/
theorem decl_accepts {text blanks rest : List Char} {signatures : List String}
    (h : DeclText text signatures none) (hne : signatures ≠ [])
    (hblanks : ∀ x ∈ blanks, isSpace x = true) (hstop : StopsAt isSpace rest)
    (hafter : EntryEnd (blanks ++ rest)) (hsignature : declSignature.Rejects rest)
    (hsubstitution : substitution.Rejects rest) :
    decl.Accepts (text ++ blanks) ⟨String.intercalate " " signatures, none⟩ rest := by
  have htail : declTail none (blanks ++ rest) = rest :=
    (takeWhile_append_of_stopsAt hblanks hstop).2
  have hrepeats := h.repeats hne hafter (by rwa [htail])
  rw [htail] at hrepeats
  obtain ⟨read, heq, hmany⟩ := hrepeats.many1 hne
  rw [← List.append_assoc] at heq
  obtain rfl := List.append_cancel_right heq
  exact hmany.bind_nil ((skipSpaces_accepts (List.forall_mem_nil _) hstop).nil_bind
    hsubstitution.option?.bind_pure)

/-- The substitution of a run is one that is read as it stands. -/
theorem declText_substitution {text : List Char} {signatures : List String}
    {found : String} (h : DeclText text signatures (some found)) :
    "[with".toList <+: found.toList ∧ ∀ after, substitution.Accepts found.toList found after := by
  generalize hfound : some found = substitution at h
  induction h with
  | stop => cases hfound
  | substitution hopen haccepts =>
    cases hfound
    exact ⟨hopen, haccepts⟩
  | signature _ _ _ _ _ ih => exact ih hfound

/-- A run with a substitution is read to the end of the substitution. -/
theorem decl_accepts_substitution {text after : List Char} {signatures : List String}
    {found : String} (h : DeclText text signatures (some found)) (hne : signatures ≠ [])
    (hafter : EntryEnd after) :
    decl.Accepts text ⟨String.intercalate " " signatures, some found⟩ after := by
  obtain ⟨hopen, haccepts⟩ := declText_substitution h
  obtain ⟨hstop, hreject⟩ := stopsAt_declTail_some hopen after
  obtain ⟨read, heq, hmany⟩ := (h.repeats hne hafter hreject).many1 hne
  rw [declTail, ← List.append_assoc] at heq
  obtain rfl := List.append_cancel_right heq
  exact hmany.bind ((skipSpaces_accepts (List.forall_mem_nil _) hstop).nil_bind
    (haccepts after).option?.bind_pure)

/-- What is read as a step is a signature with all blanks around it, as long as it can be. -/
theorem signatureStep_reads {c next : Cursor} {value : String}
    (h : signatureStep c = .ok value next) :
    ∃ before after, c.Reads (before ++ (value.toList ++ after)) next ∧
      (∀ x ∈ before, isSpace x = true) ∧ (∀ x ∈ after, isSpace x = true) ∧
      StopsAt isSpace next.rest ∧ SignatureText value.toList ∧
      (c.pastEnd = false → LongestSignature value.toList (after ++ next.rest)) := by
  obtain ⟨_, c₁, hbefore, h⟩ := bind_eq_ok h
  obtain ⟨signature, c₂, hsignature, h⟩ := bind_eq_ok h
  obtain ⟨_, c₃, hafter, h⟩ := bind_eq_ok h
  obtain ⟨rfl, rfl⟩ := pure_eq_ok h
  obtain ⟨before, hreads, hblank⟩ := skipSpaces_reads hbefore
  obtain ⟨after, hreads', hblank'⟩ := skipSpaces_reads hafter
  obtain ⟨hreads'', htext⟩ := declSignature_reads hsignature
  refine ⟨before, after, hreads.append (hreads''.append hreads'), hblank, hblank',
    skipSpaces_stops hafter, htext, fun hc => ?_⟩
  rw [← hreads'.rest_eq]
  exact longestSignature_of_ok (hreads.inside hc) hsignature

/-- A step takes some text. -/
theorem signatureStep_advances ⦃c next : Cursor⦄ ⦃value : String⦄
    (h : signatureStep c = .ok value next) : ∃ text, c.Reads text next ∧ text ≠ [] := by
  obtain ⟨before, after, hreads, -, -, -, hsignature, -⟩ := signatureStep_reads h
  obtain ⟨x, tail, hcons, -⟩ := hsignature.exists_cons
  exact ⟨_, hreads, by simp [hcons]⟩

/-- The steps of a repetition make a run of what they read. -/
theorem declText_of_steps {c last : Cursor} {signatures : List String}
    {substitution : Option String} (h : Steps signatureStep c signatures last)
    (hc : c.pastEnd = false)
    (hlast : StopsAt isSpace last.rest → DeclText last.rest [] substitution)
    (hstop : StopsAt isSpace c.rest ∨ signatures ≠ []) :
    DeclText c.rest signatures substitution := by
  induction h with
  | stop _ => exact hlast (hstop.resolve_right fun hne => hne rfl)
  | step hok _ _ _ ih =>
    obtain ⟨before, after, hreads, hblank, hblank', hstop', -, hlongest⟩ :=
      signatureStep_reads hok
    have hlater := ih (hreads.inside hc) hlast (.inl hstop')
    rw [hreads.rest_eq, List.append_assoc, List.append_assoc]
    exact .signature hblank hblank' hstop' (hlongest hc) hlater

/-- Where the rule reads a whole text, the text is a run. -/
theorem declText_of_ok {text : List Char} {value : Decl} {next : Cursor}
    (h : decl (.start text) = .ok value next) (hrest : next.rest = []) :
    ∃ signatures, signatures ≠ [] ∧ value.signature = String.intercalate " " signatures ∧
      DeclText text signatures value.substitution := by
  obtain ⟨signatures, c₁, hmany, h⟩ := bind_eq_ok h
  obtain ⟨_, c₂, hblanks, h⟩ := bind_eq_ok h
  obtain ⟨found?, c₃, hfound, h⟩ := bind_eq_ok h
  obtain ⟨rfl, rfl⟩ := pure_eq_ok h
  obtain ⟨hsteps, hne⟩ := steps_of_many1 signatureStep_advances hmany
  refine ⟨signatures, hne, rfl, declText_of_steps hsteps rfl (fun hstop => ?_) (.inr hne)⟩
  obtain ⟨blanks, hreads, hblank⟩ := skipSpaces_reads hblanks
  have hsame : c₁.rest = c₂.rest := by
    have heq := hreads.rest_eq
    cases blanks with
    | nil => exact heq
    | cons x blanks =>
      have hx := hstop x (by simp [heq])
      rw [hblank x List.mem_cons_self] at hx
      cases hx
  rcases option?_eq_ok hfound with ⟨found, rfl, hread⟩ | ⟨rfl, rfl, -⟩
  · obtain ⟨hreads', hopen, haccepts⟩ := substitution_reads hread
    rw [hsame, hreads'.rest_eq, hrest, List.append_nil]
    exact .substitution hopen haccepts
  · rw [hsame, hrest]
    exact .stop

instance {stops : Stop → Prop} : Avoids stops decl :=
  inferInstanceAs (Avoids stops (many1 signatureStep >>= fun signatures => skipSpaces >>= fun _ =>
    substitution.option? >>= fun found =>
      pure (⟨String.intercalate " " signatures, found⟩ : Decl)))

/-- Where a signature stands behind blanks, the rule reads something. -/
theorem exists_decl_ok {blanks text : List Char} (hblanks : ∀ x ∈ blanks, isSpace x = true)
    (htext : SignatureText text) (rest : List Char) (offset : Nat) :
    ∃ value next, decl ⟨offset, blanks ++ (text ++ rest), false⟩ = .ok value next := by
  obtain ⟨x, tail, hcons, hx⟩ := htext.exists_cons
  have hstop : StopsAt isSpace (text ++ rest) := by
    rw [hcons]
    exact stopsAt_cons.2 (isSpace_of_isWordChar hx)
  obtain ⟨first, mid, hfirst, -⟩ := declSignature_extends htext (offset + blanks.length) rest
  have hstep : ∃ next,
      signatureStep ⟨offset, blanks ++ (text ++ rest), false⟩ = .ok first next := by
    rw [signatureStep, bind_of_ok (skipSpaces_accepts hblanks hstop offset), bind_of_ok hfirst]
    exact ⟨_, rfl⟩
  obtain ⟨signatures, last, hsteps⟩ :=
    exists_steps signatureStep_advances ⟨offset, blanks ++ (text ++ rest), false⟩
  have hne : signatures ≠ [] := by
    rintro rfl
    obtain ⟨next, hok⟩ := hstep
    cases hsteps with
    | stop hfailed => rw [hok] at hfailed; cases hfailed
  have hmany : (many1 signatureStep) ⟨offset, blanks ++ (text ++ rest), false⟩ =
      .ok signatures last := many1_of_steps hsteps hne
  obtain ⟨found, next, hoption⟩ := option?_total (p := substitution)
    (last.advance (last.rest.takeWhile isSpace).length (last.rest.dropWhile isSpace))
  refine ⟨⟨String.intercalate " " signatures, found⟩, next, ?_⟩
  exact (bind_of_ok hmany).trans (bind_of_ok hoption)

/-- Where no signature stands behind blanks, the rule reads nothing. -/
theorem decl_rejects {text : List Char}
    (h : ∀ blanks s rest, (∀ x ∈ blanks, isSpace x = true) → text = blanks ++ (s ++ rest) →
      ¬SignatureText s) : decl.Rejects text := by
  refine Unstopped.rejects fun offset value next hok => ?_
  obtain ⟨signatures, c₁, hmany, -⟩ := bind_eq_ok hok
  obtain ⟨first, c₂, hfirst, -⟩ := bind_eq_ok hmany
  obtain ⟨before, after, hreads, hblank, -, -, hsignature, -⟩ := signatureStep_reads hfirst
  have heq := hreads.rest_eq
  rw [List.append_assoc, List.append_assoc] at heq
  exact h before _ _ hblank heq hsignature

/-- No declaration starts with a character that is neither a blank nor part of a word. -/
theorem decl_rejects_of_head {x : Char} {rest : List Char} (hspace : isSpace x = false)
    (hword : isWordChar x = false) : decl.Rejects (x :: rest) := by
  refine decl_rejects fun blanks s tail hblanks heq hs => ?_
  cases blanks with
  | nil =>
    obtain ⟨y, s', rfl, hy⟩ := hs.exists_cons
    obtain rfl : x = y := (List.cons.inj heq).1
    rw [hword] at hy
    cases hy
  | cons y blanks =>
    obtain rfl : x = y := (List.cons.inj heq).1
    rw [hblanks x List.mem_cons_self] at hspace
    cases hspace

/-- A signature that starts in a text which is not blank lies in it, or goes on with the parenthesis
of the node around it. -/
theorem signature_in_append {text after blanks s rest : List Char} (hafter : EntryEnd after)
    (htext : ∃ x ∈ text, isSpace x = false) (hblanks : ∀ x ∈ blanks, isSpace x = true)
    (heq : text ++ after = blanks ++ (s ++ rest)) (hs : SignatureText s) :
    (∃ m, text = blanks ++ (s ++ m)) ∨ ∃ m m', text = blanks ++ m ∧ s = m ++ ')' :: m' := by
  rcases List.append_eq_append_iff.1 heq with ⟨m, rfl, -⟩ | ⟨m, rfl, hm⟩
  · obtain ⟨x, hx, hspace⟩ := htext
    rw [hblanks x (List.mem_append_left _ hx)] at hspace
    cases hspace
  rcases List.append_eq_append_iff.1 hm with ⟨m', rfl, -⟩ | ⟨m', rfl, rfl⟩
  · exact .inl ⟨m', rfl⟩
  cases m' with
  | nil => exact .inl ⟨[], by simp⟩
  | cons y m' =>
    have hblank : ∀ z ∈ y :: m', z ≠ ' ' ∧ z ≠ '\n' := fun z hz =>
      hs.ne_gap (List.mem_append_right _ hz)
    obtain rfl := hafter.eq_close hblank y List.mem_cons_self
    exact .inr ⟨m, m', rfl, rfl⟩

/-- A closing parenthesis ends a component. -/
theorem ComponentText.upTo_close {s t : List Char} (h : ComponentText (s ++ ')' :: t)) :
    t = [] := by
  have hparen : ∀ {name labels : List Char}, ')' ∉ name → labels = [] ∨ IsKeyword labels →
      s ++ ')' :: t = name ++ ('(' :: labels ++ [')']) → t = [] := by
    intro name labels hname hlabels heq
    have hlabels' : ')' ∉ name ++ '(' :: labels := by
      simp only [List.mem_append, List.mem_cons, not_or]
      refine ⟨hname, by decide, ?_⟩
      rcases hlabels with rfl | hlabels
      · exact List.not_mem_nil
      · exact (NameText.keyword hlabels).notMem rfl
    have heq' : (name ++ '(' :: labels) ++ [')'] = s ++ ')' :: t := by
      rw [heq]
      simp
    obtain ⟨m, rfl, hm⟩ := append_eq_append_cons heq' hlabels'
    cases m with
    | nil => exact (List.cons.inj hm).2.symm
    | cons y m => simp at hm
  generalize htext : s ++ ')' :: t = text at h
  cases h with
  | function h =>
    obtain ⟨hname, hlabels⟩ := h
    exact hparen (hname.notMem rfl) hlabels htext
  | file h => exact @hparen [] _ List.not_mem_nil (.inr h) htext
  | name h =>
    have hclose : ')' ∈ text := by simp [← htext]
    exact absurd hclose (h.notMem rfl)

/-- Components that run over a closing parenthesis may end with it. -/
theorem ComponentsText.upTo_close {s t : List Char} (h : ComponentsText (s ++ ')' :: t)) :
    ComponentsText (s ++ [')']) := by
  generalize htext : s ++ ')' :: t = text at h
  induction h generalizing s with
  | nil => simp at htext
  | @cons first rest hfirst hrest ih =>
    rcases List.append_eq_append_iff.1 htext with ⟨m, heq, hm⟩ | ⟨m, rfl, hm⟩
    · cases m with
      | nil => exact absurd hm (by cases hrest <;> simp)
      | cons y m =>
        obtain ⟨rfl, rfl⟩ := List.cons.inj hm
        cases s with
        | nil => simp at heq
        | cons y s =>
          obtain ⟨rfl, rfl⟩ := List.cons.inj heq
          obtain rfl := hfirst.upTo_close
          have hlast := ComponentsText.cons hfirst .nil
          rwa [List.append_nil] at hlast
    · rw [List.append_assoc]
      exact .cons hfirst (ih hm.symm)

/-- A closing parenthesis ends a signature, if it does not go on. -/
theorem SignatureText.upTo_close {s t : List Char} (h : SignatureText (s ++ ')' :: t)) :
    SignatureText (s ++ [')']) := by
  generalize htext : s ++ ')' :: t = text at h
  obtain ⟨hhead, hfirst, hrest⟩ := h
  have hnot := (NameText.keyword hhead).notMem (x := ')') (by decide)
  obtain ⟨m, rfl, hm⟩ := append_eq_append_cons htext.symm hnot
  have hcomponents := ComponentsText.cons hfirst hrest
  rw [hm] at hcomponents
  have hclosed := hcomponents.upTo_close
  rw [List.append_assoc]
  generalize hlast : m ++ [')'] = components at hclosed
  cases hclosed with
  | nil => simp at hlast
  | cons hfirst hrest => exact .mk hhead hfirst hrest

/-- The rule does not start to read behind a text that it does not start to read in, whether the
text stands alone or before a closing parenthesis. -/
theorem decl_rejects_append {text after : List Char} (hafter : EntryEnd after)
    (htext : ∃ x ∈ text, isSpace x = false)
    (hfails : decl.Fails text)
    (hcloses : '(' ∉ text ∨ decl.Fails (text ++ [')'])) :
    decl.Rejects (text ++ after) := by
  refine decl_rejects fun blanks s rest hblanks heq hs => ?_
  rcases signature_in_append hafter htext hblanks heq hs with ⟨m, rfl⟩ | ⟨m, m', rfl, rfl⟩
  · obtain ⟨value, next, hok⟩ := exists_decl_ok hblanks hs m 0
    exact hfails.ne_ok hok
  · rcases hcloses with hopen | hcloses
    · have hle := hs.balanced.count_le (s := m ++ [')']) (t := m') (by simp)
      have hzero : m.count '(' = 0 :=
        List.count_eq_zero.2 fun hmem => hopen (List.mem_append_right _ hmem)
      simp [List.count_append, hzero] at hle
    · obtain ⟨value, next, hok⟩ := exists_decl_ok hblanks hs.upTo_close [] 0
      rw [List.append_nil, ← List.append_assoc] at hok
      exact hcloses.ne_ok hok

end TypeScribe.Dump.Grammar
