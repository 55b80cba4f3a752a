import TypeScribe.Proofs.Dump.Lexemes

/-!
# Signatures

A signature is a keyword and dotted components (`SignatureText`). Whether its last component goes on
depends on the text behind it: `a.b` before `(c:)` is read as `a.b(c:)`. So the parser is not
described by the texts it accepts alone, but as reading the longest signature that the text starts
with: `declSignature_reads` says that it reads a signature, `declSignature_extends` that it reads at
least as far as any other.
-/

namespace TypeScribe.Dump.Grammar

open TypeScribe.Parser

/-! ## Texts -/

/-- A character of the name of a function or an operator. -/
def isNameChar (x : Char) : Bool := isKeywordChar x || isOperatorChar x

/-- The name of a function or an operator. -/
inductive NameText : List Char → Prop
  | keyword {text : List Char} : IsKeyword text → NameText text
  | operator {text : List Char} : text ≠ [] → (∀ x ∈ text, isOperatorChar x = true) → NameText text

/-- A function with its argument labels, of which there may be none. -/
inductive FunctionText : List Char → Prop
  | mk {name labels : List Char} : NameText name → labels = [] ∨ IsKeyword labels →
      FunctionText (name ++ ('(' :: labels ++ [')']))

/-- One component of a signature. -/
inductive ComponentText : List Char → Prop
  | function {text : List Char} : FunctionText text → ComponentText text
  | file {name : List Char} : IsKeyword name → ComponentText ('(' :: name ++ [')'])
  | name {text : List Char} : NameText text → ComponentText text

/-- Any number of components, with a dot before each. -/
inductive ComponentsText : List Char → Prop
  | nil : ComponentsText []
  | cons {text rest : List Char} : ComponentText text → ComponentsText rest →
      ComponentsText ('.' :: text ++ rest)

/-- A keyword and at least one dotted component. -/
inductive SignatureText : List Char → Prop
  | mk {head first rest : List Char} : IsKeyword head → ComponentText first → ComponentsText rest →
      SignatureText (head ++ ('.' :: first ++ rest))

/-- An operator's character is no letter or digit. -/
theorem isWordChar_of_isOperatorChar {x : Char} (h : isOperatorChar x = true) :
    isWordChar x = false := by
  have hall : ("/=-+!*%<>&|^~?".toList.all fun y => !isWordChar y) = true := by decide
  have hx := List.all_eq_true.1 hall x (List.contains_iff_mem.1 h)
  rwa [Bool.not_eq_true'] at hx

theorem isKeywordChar_of_isWordChar {x : Char} (h : isWordChar x = true) :
    isKeywordChar x = true := by
  simp [isKeywordChar, h]

theorem IsKeyword.forall_isKeywordChar {text : List Char} (h : IsKeyword text) :
    ∀ x ∈ text, isKeywordChar x = true :=
  h.forall_later fun _ => isKeywordChar_of_isWordChar

/-- A character that is no part of a keyword does not occur in one. -/
theorem IsKeyword.notMem {text : List Char} {x : Char} (h : IsKeyword text)
    (hx : isKeywordChar x = false) : x ∉ text := by
  intro hmem
  rw [IsKeyword.forall_isKeywordChar h x hmem] at hx
  cases hx

/-- A name has a first character. -/
theorem NameText.ne_nil {text : List Char} (h : NameText text) : text ≠ [] := by
  cases h with
  | keyword h => exact h.ne_nil
  | operator hne _ => exact hne

/-- A name consists of the characters of names. -/
theorem NameText.forall_isNameChar {text : List Char} (h : NameText text) :
    ∀ x ∈ text, isNameChar x = true := by
  intro x hx
  cases h with
  | keyword h => simp [isNameChar, IsKeyword.forall_isKeywordChar h x hx]
  | operator _ hall => simp [isNameChar, hall x hx]

/-- A character that is no part of a name does not occur in one. -/
theorem NameText.notMem {text : List Char} {x : Char} (h : NameText text)
    (hx : isNameChar x = false) : x ∉ text := by
  intro hmem
  rw [h.forall_isNameChar x hmem] at hx
  cases hx

/-- Nor does a name start with it. -/
theorem NameText.stopsAt {text : List Char} {x : Char} (h : NameText text)
    (hx : isNameChar x = false) (after : List Char) : StopsAt (· == x) (text ++ after) := by
  obtain ⟨y, tail, rfl⟩ := List.exists_cons_of_ne_nil h.ne_nil
  exact stopsAt_beq_of_pos (h.forall_isNameChar y List.mem_cons_self) hx _

/-! ## Names and components -/

/-- What is read as a name is one. -/
theorem declName_reads {c next : Cursor} {value : String} (h : declName c = .ok value next) :
    c.Reads value.toList next ∧ NameText value.toList := by
  rcases orElse_eq_ok h with h | ⟨-, h⟩
  · obtain ⟨hreads, hword⟩ := keyword_reads h
    exact ⟨hreads, .keyword hword⟩
  · obtain ⟨hreads, hne, hall⟩ := takeWhile1_reads h
    exact ⟨hreads, .operator hne hall⟩

instance {stops : Stop → Prop} : Avoids stops declName := by
  unfold declName
  infer_instance

/-- The parser reads a name and what prolongs it. -/
theorem declName_extends {name : List Char} (h : NameText name) (after : List Char) :
    ∃ more rest, after = more ++ rest ∧ (∀ x ∈ more, isNameChar x = true) ∧
      declName.Accepts (name ++ more) (String.ofList (name ++ more)) rest := by
  cases h with
  | keyword hname =>
    refine ⟨after.takeWhile isKeywordChar, after.dropWhile isKeywordChar,
      List.takeWhile_append_dropWhile.symm, fun x hx => ?_, ?_⟩
    · simp [isNameChar, List.mem_takeWhile_imp hx]
    · have hword : IsKeyword (name ++ after.takeWhile isKeywordChar) :=
        hname.append fun _ hx => List.mem_takeWhile_imp hx
      exact (keyword_accepts hword (stopsAt_dropWhile _ _)).orElse _
  | operator hne hname =>
    refine ⟨after.takeWhile isOperatorChar, after.dropWhile isOperatorChar,
      List.takeWhile_append_dropWhile.symm, fun x hx => ?_, ?_⟩
    · simp [isNameChar, List.mem_takeWhile_imp hx]
    · refine Accepts.orElse_of_rejects (keyword_rejects ?_) ?_
      · cases name with
        | nil => exact absurd rfl hne
        | cons head tail =>
          exact stopsAt_cons.2 (isWordChar_of_isOperatorChar (hname head List.mem_cons_self))
      · refine takeWhile1_accepts (by simp [hne]) (fun x hx => ?_) (stopsAt_dropWhile _ _)
        rcases List.mem_append.1 hx with hx | hx
        · exact hname x hx
        · exact List.mem_takeWhile_imp hx

/-- A name is read up to where no character of names stands. -/
theorem declName_accepts {name after : List Char} (h : NameText name)
    (hafter : StopsAt isNameChar after) : declName.Accepts name (String.ofList name) after := by
  obtain ⟨more, rest, rfl, hmore, haccepts⟩ := declName_extends h after
  cases more with
  | nil => simpa using haccepts
  | cons x more =>
    have hx := hmore x List.mem_cons_self
    rw [stopsAt_cons.1 hafter] at hx
    cases hx

/-- No name is read where none can start. -/
theorem declName_rejects {text : List Char} (h : StopsAt isNameChar text) :
    declName.Rejects text := by
  refine .orElse (keyword_rejects (h.mono fun x hx => ?_)) (takeWhile1_rejects (h.mono ?_) _)
  · simp [isNameChar, isKeywordChar_of_isWordChar hx]
  · intro x hx
    simp [isNameChar, hx]

/-- What is read as a function with its labels is one. -/
theorem functionSignature_reads {c next : Cursor} {value : String}
    (h : functionSignature c = .ok value next) :
    c.Reads value.toList next ∧ FunctionText value.toList := by
  obtain ⟨name, c₁, hname, h⟩ := bind_eq_ok h
  obtain ⟨opening, c₂, hopen, h⟩ := bind_eq_ok h
  obtain ⟨labels, c₃, hlabels, h⟩ := bind_eq_ok h
  obtain ⟨closing, c₄, hclose, h⟩ := bind_eq_ok h
  obtain ⟨rfl, rfl⟩ := pure_eq_ok h
  obtain ⟨hreads, htext⟩ := declName_reads hname
  obtain ⟨hreads', rfl⟩ := token_reads hopen
  obtain ⟨hreads'', rfl⟩ := token_reads hclose
  have hword : c₂.Reads labels.toList c₃ ∧ (labels.toList = [] ∨ IsKeyword labels.toList) := by
    rcases option_eq_ok hlabels with hkeyword | ⟨rfl, rfl⟩
    · obtain ⟨hreads, hword⟩ := keyword_reads hkeyword
      exact ⟨hreads, .inr hword⟩
    · exact ⟨.nil _, .inl rfl⟩
  have hvalue : (name ++ "(" ++ labels ++ ")").toList =
      name.toList ++ ('(' :: labels.toList ++ [')']) := by simp
  rw [hvalue]
  exact ⟨hreads.append ((hreads'.append hword.1).append hreads''), .mk htext hword.2⟩

/-- A function is read with its labels, whatever follows them. -/
theorem functionSignature_accepts {text : List Char} (h : FunctionText text) (after : List Char) :
    functionSignature.Accepts text (String.ofList text) after := by
  obtain @⟨name, labels, hname, hlabels⟩ := h
  have hword : (keyword.option "").Accepts labels (String.ofList labels) (')' :: after) := by
    rcases hlabels with rfl | hlabels
    · exact (keyword_rejects (stopsAt_cons.2 rfl)).option ""
    · exact (keyword_accepts hlabels (stopsAt_cons.2 rfl)).orElse _
  have hvalue : String.ofList (name ++ ('(' :: labels ++ [')'])) =
      String.ofList name ++ "(" ++ String.ofList labels ++ ")" := by
    rw [← String.toList_inj]
    simp
  rw [hvalue]
  refine Accepts.bind (declName_accepts hname (stopsAt_cons.2 rfl)) ?_
  refine Accepts.bind (s := ['(']) (token_accepts "(" _) ?_
  exact hword.bind (token_accepts ")" after).bind_pure

instance {stops : Stop → Prop} : Avoids stops functionSignature := by
  unfold functionSignature
  infer_instance

/-- What is read as a file is a keyword in parentheses. -/
theorem fileSignature_reads {c next : Cursor} {value : String}
    (h : fileSignature c = .ok value next) :
    ∃ name, c.Reads value.toList next ∧ IsKeyword name ∧ value.toList = '(' :: name ++ [')'] := by
  obtain ⟨opening, c₁, hopen, h⟩ := bind_eq_ok h
  obtain ⟨name, c₂, hname, h⟩ := bind_eq_ok h
  obtain ⟨closing, c₃, hclose, h⟩ := bind_eq_ok h
  obtain ⟨rfl, rfl⟩ := pure_eq_ok h
  obtain ⟨hreads, rfl⟩ := token_reads hopen
  obtain ⟨hreads', hword⟩ := keyword_reads hname
  obtain ⟨hreads'', rfl⟩ := token_reads hclose
  have hvalue : ("(" ++ name ++ ")").toList = '(' :: name.toList ++ [')'] := by simp
  rw [hvalue]
  exact ⟨name.toList, (hreads.append hreads').append hreads'', hword, rfl⟩

/-- A keyword in parentheses is read as a file, whatever follows it. -/
theorem fileSignature_accepts {name : List Char} (h : IsKeyword name) (after : List Char) :
    fileSignature.Accepts ('(' :: name ++ [')']) (String.ofList ('(' :: name ++ [')'])) after := by
  have hvalue : String.ofList ('(' :: name ++ [')']) = "(" ++ String.ofList name ++ ")" := by
    rw [← String.toList_inj]
    simp
  rw [hvalue]
  refine Accepts.bind (s := ['(']) (token_accepts "(" _) ?_
  refine Accepts.bind (keyword_accepts h (stopsAt_cons.2 rfl)) ?_
  exact (token_accepts ")" after).bind_pure

instance {stops : Stop → Prop} : Avoids stops fileSignature := by
  unfold fileSignature
  infer_instance

/-- A component is read as written, with the dot before it. -/
theorem dottedComponent_reads {c next : Cursor} {value : String}
    (h : dottedComponent c = .ok value next) :
    ∃ text, c.Reads ('.' :: text) next ∧ ComponentText text ∧ value.toList = '.' :: text := by
  obtain ⟨dot, c₁, hdot, h⟩ := bind_eq_ok h
  obtain ⟨component, c₂, hcomponent, h⟩ := bind_eq_ok h
  obtain ⟨rfl, rfl⟩ := pure_eq_ok h
  obtain ⟨hreads, rfl⟩ := token_reads hdot
  have hpart : c₁.Reads component.toList next ∧ ComponentText component.toList := by
    refine choice_eq_ok_of_forall hcomponent ?_
    simp only [List.mem_cons, List.not_mem_nil, or_false]
    rintro p (rfl | rfl | rfl) hp
    · obtain ⟨hreads, htext⟩ := functionSignature_reads hp
      exact ⟨hreads, .function htext⟩
    · obtain ⟨name, hreads, hword, htext⟩ := fileSignature_reads hp
      exact ⟨hreads, htext ▸ .file hword⟩
    · obtain ⟨hreads, htext⟩ := declName_reads hp
      exact ⟨hreads, .name htext⟩
  exact ⟨component.toList, hreads.append hpart.1, hpart.2, by simp⟩

instance {stops : Stop → Prop} : Avoids stops dottedComponent := by
  unfold dottedComponent
  have : Avoids stops (choice [functionSignature, fileSignature, declName]) := by
    refine avoids_choice ?_
    simp only [List.mem_cons, List.not_mem_nil, or_false]
    rintro p (rfl | rfl | rfl) <;> infer_instance
  infer_instance

/-- The parser reads a component and what prolongs it, and a component that is prolonged has no dot
behind it. -/
theorem dottedComponent_extends {text : List Char} (h : ComponentText text) (after : List Char) :
    ∃ more rest, after = more ++ rest ∧ (more = [] ∨ StopsAt (· == '.') after) ∧
      dottedComponent.Accepts ('.' :: text ++ more) (String.ofList ('.' :: text ++ more)) rest := by
  -- it is enough that the choice of components reads that far
  suffices hchoice : ∃ more rest, after = more ++ rest ∧ (more = [] ∨ StopsAt (· == '.') after) ∧
      (choice [functionSignature, fileSignature, declName]).Accepts (text ++ more)
        (String.ofList (text ++ more)) rest by
    obtain ⟨more, rest, hafter, hstop, haccepts⟩ := hchoice
    refine ⟨more, rest, hafter, hstop, ?_⟩
    have hvalue : String.ofList ('.' :: text ++ more) = "." ++ String.ofList (text ++ more) := by
      rw [← String.toList_inj]
      simp
    rw [hvalue]
    exact Accepts.bind (s := ['.']) (token_accepts "." _) haccepts.bind_pure
  cases h with
  | function h =>
    refine ⟨[], after, rfl, .inl rfl, ?_⟩
    rw [List.append_nil]
    exact (functionSignature_accepts h after).choice_head _
  | @file name h =>
    refine ⟨[], after, rfl, .inl rfl, ?_⟩
    rw [List.append_nil]
    refine Accepts.choice_tail ?_ ((fileSignature_accepts h after).choice_head _)
    exact (declName_rejects (stopsAt_cons.2 rfl)).bind _
  | name h =>
    -- a function that starts with the name is read first
    by_cases hfun : ∃ found rest, FunctionText found ∧ text ++ after = found ++ rest
    · obtain ⟨found, rest, hfound, heq⟩ := hfun
      have haccepts := (functionSignature_accepts hfound rest).choice_head [fileSignature, declName]
      obtain @⟨name, labels, hname, _⟩ := hfound
      rw [List.append_assoc, List.cons_append, List.cons_append] at heq
      obtain ⟨m, rfl, rfl⟩ := append_eq_append_cons heq (h.notMem rfl)
      refine ⟨m ++ ('(' :: labels ++ [')']), rest, by simp, .inr ?_, ?_⟩
      · cases m with
        | nil => exact stopsAt_cons.2 rfl
        | cons x m =>
          have hx := hname.forall_isNameChar x (by simp)
          exact stopsAt_beq_of_pos hx rfl _
      · rwa [List.append_assoc] at haccepts
    · obtain ⟨more, rest, rfl, hmore, haccepts⟩ := declName_extends h after
      refine ⟨more, rest, rfl, ?_, ?_⟩
      · cases more with
        | nil => exact .inl rfl
        | cons x more =>
          exact .inr (stopsAt_beq_of_pos (hmore x List.mem_cons_self) rfl _)
      · refine Accepts.choice_tail ?_ (Accepts.choice_tail ?_ (haccepts.choice_head _))
        · refine Unstopped.rejects fun offset value next hok => hfun ?_
          obtain ⟨hreads, htext⟩ := functionSignature_reads hok
          exact ⟨_, _, htext, by rw [← List.append_assoc]; exact hreads.rest_eq⟩
        · rw [List.append_assoc]
          exact (token_rejects_of_head rfl (h.stopsAt rfl _)).bind _

/-! ## Signatures -/

/-- The components of a repetition, read as written. -/
theorem componentsText_flatten {values : List String} {texts : List (List Char)}
    (h : List.Forall₂ (fun value text => ∃ s, ComponentText s ∧ text = '.' :: s ∧
      value.toList = text) values texts) :
    ComponentsText texts.flatten ∧ (String.join values).toList = texts.flatten := by
  induction h with
  | nil => exact ⟨.nil, by simp⟩
  | cons hfirst _ ih =>
    obtain ⟨s, hs, rfl, hvalue⟩ := hfirst
    rw [String.join_cons, String.toList_append, hvalue, ih.2]
    exact ⟨.cons hs ih.1, rfl⟩

/-- What is read is a signature, and it is returned as written. -/
theorem declSignature_reads {c next : Cursor} {value : String}
    (h : declSignature c = .ok value next) :
    c.Reads value.toList next ∧ SignatureText value.toList := by
  obtain ⟨head, c₁, hhead, h⟩ := bind_eq_ok h
  obtain ⟨components, c₂, hcomponents, h⟩ := bind_eq_ok h
  obtain ⟨rfl, rfl⟩ := pure_eq_ok h
  obtain ⟨hreads, hword⟩ := keyword_reads hhead
  have hstep : ∀ ⦃c next : Cursor⦄ ⦃value : String⦄, dottedComponent c = .ok value next →
      ∃ text, c.Reads text next ∧ ∃ s, ComponentText s ∧ text = '.' :: s ∧ value.toList = text := by
    intro c next value hok
    obtain ⟨s, hreads, hs, hvalue⟩ := dottedComponent_reads hok
    exact ⟨_, hreads, s, hs, rfl, hvalue⟩
  obtain ⟨texts, hne, hall, hreads'⟩ := many1_reads hstep hcomponents
  rw [String.toList_append, (componentsText_flatten hall).2]
  refine ⟨hreads.append hreads', ?_⟩
  cases hall with
  | nil => exact absurd rfl hne
  | cons hfirst hrest =>
    obtain ⟨s, hs, rfl, -⟩ := hfirst
    exact .mk hword hs (componentsText_flatten hrest).1

instance {stops : Stop → Prop} : Avoids stops declSignature := by
  unfold declSignature
  infer_instance

/-- Repeating the parser of components reads the components and perhaps more. -/
theorem dottedComponent_steps {text : List Char} (h : ComponentsText text) (offset : Nat)
    (after : List Char) : ∃ values last more, Steps dottedComponent ⟨offset, text ++ after, false⟩
      values last ∧ Cursor.Reads ⟨offset, text ++ after, false⟩ (text ++ more) last := by
  have hstep : ∀ ⦃c next : Cursor⦄ ⦃value : String⦄, dottedComponent c = .ok value next →
      ∃ text, c.Reads text next ∧ text ≠ [] := by
    intro c next value hok
    obtain ⟨s, hreads, -, -⟩ := dottedComponent_reads hok
    exact ⟨_, hreads, List.cons_ne_nil _ _⟩
  induction h generalizing offset with
  | nil =>
    obtain ⟨values, last, hsteps⟩ := exists_steps hstep ⟨offset, after, false⟩
    obtain ⟨more, hreads⟩ := hsteps.reads
    exact ⟨values, last, more, hsteps, hreads⟩
  | @cons first rest hfirst hrest ih =>
    obtain ⟨more, tail, heq, hstop, haccepts⟩ := dottedComponent_extends hfirst (rest ++ after)
    have hok := haccepts offset
    rw [List.append_assoc, ← heq, ← List.append_assoc] at hok
    have hreads : Cursor.Reads ⟨offset, '.' :: first ++ rest ++ after, false⟩ ('.' :: first ++ more)
        ⟨offset + ('.' :: first ++ more).length, tail, false⟩ :=
      ⟨by simp [heq], rfl, id⟩
    by_cases hmore : more = []
    · subst hmore
      rw [List.nil_append] at heq
      subst heq
      rw [List.append_nil] at hok hreads
      obtain ⟨values, last, more, hsteps, hlater⟩ := ih (offset + ('.' :: first).length)
      refine ⟨_, last, more, .step hok hreads (List.cons_ne_nil _ _) hsteps, ?_⟩
      rw [List.append_assoc ('.' :: first) rest more]
      exact hreads.append hlater
    · -- a component that goes on is the last one
      have hnil : rest = [] := by
        cases hrest with
        | nil => rfl
        | cons _ _ =>
          have hdot := stopsAt_cons.1 (hstop.resolve_left hmore)
          cases hdot
      subst hnil
      rw [List.nil_append] at heq
      obtain ⟨values, last, hsteps⟩ :=
        exists_steps hstep ⟨offset + ('.' :: first ++ more).length, tail, false⟩
      obtain ⟨later, hlater⟩ := hsteps.reads
      refine ⟨_, last, more ++ later, .step hok hreads (List.cons_ne_nil _ _) hsteps, ?_⟩
      rw [List.append_nil, ← List.append_assoc]
      simpa using hreads.append hlater

/-- The parser reads at least as far as any signature that the text starts with. -/
theorem declSignature_extends {text : List Char} (h : SignatureText text) (offset : Nat)
    (after : List Char) : ∃ value next, declSignature ⟨offset, text ++ after, false⟩ =
      .ok value next ∧ text <+: value.toList := by
  obtain @⟨head, first, rest, hhead, hfirst, hrest⟩ := h
  have hword : keyword.Accepts head (String.ofList head) ('.' :: first ++ rest ++ after) :=
    keyword_accepts hhead (stopsAt_cons.2 rfl)
  obtain ⟨values, last, more, hsteps, hreads⟩ :=
    dottedComponent_steps (.cons hfirst hrest) (offset + head.length) after
  have hne : values ≠ [] := by
    rintro rfl
    have hlength := hreads.offset_eq
    cases hsteps
    simp at hlength
  have hok : declSignature ⟨offset, head ++ ('.' :: first ++ rest) ++ after, false⟩ =
      .ok (String.ofList head ++ String.join values) last := by
    rw [List.append_assoc, declSignature, bind_of_ok (hword offset),
      bind_of_ok (many1_of_steps hsteps hne)]
    rfl
  have hstart : Cursor.Reads ⟨offset, head ++ ('.' :: first ++ rest) ++ after, false⟩ head
      ⟨offset + head.length, '.' :: first ++ rest ++ after, false⟩ := ⟨by simp, rfl, id⟩
  refine ⟨_, last, hok, more, ?_⟩
  rw [List.append_assoc]
  exact (hstart.append hreads).unique (declSignature_reads hok).1

/-- The text is the longest signature that a text which goes on with `after` starts with. -/
structure LongestSignature (text after : List Char) : Prop where
  signature : SignatureText text
  longest : ∀ {more rest : List Char}, after = more ++ rest → SignatureText (text ++ more) →
    more = []

/-- The longest signature is read. -/
theorem declSignature_accepts {text after : List Char} (h : LongestSignature text after) :
    declSignature.Accepts text (String.ofList text) after := by
  intro offset
  obtain ⟨value, next, hok, more, hvalue⟩ := declSignature_extends h.signature offset after
  obtain ⟨hreads, hsignature⟩ := declSignature_reads hok
  rw [← hvalue] at hreads hsignature
  have hrest := hreads.rest_eq
  rw [List.append_assoc] at hrest
  obtain rfl := h.longest (List.append_cancel_left hrest) hsignature
  rw [List.append_nil] at hvalue hreads
  rw [hok, hreads.next_eq, hvalue, String.ofList_toList]

/-- What is read is the longest signature. -/
theorem longestSignature_of_ok {c next : Cursor} {value : String} (hc : c.pastEnd = false)
    (h : declSignature c = .ok value next) : LongestSignature value.toList next.rest := by
  obtain ⟨hreads, hsignature⟩ := declSignature_reads h
  refine ⟨hsignature, fun {more rest} heq hmore => ?_⟩
  obtain ⟨offset, text, _⟩ := c
  obtain rfl : text = value.toList ++ next.rest := hreads.rest_eq
  cases hc
  obtain ⟨value', next', hok, hle⟩ := declSignature_extends hmore offset rest
  rw [List.append_assoc, ← heq, h] at hok
  cases hok
  have hlength := hle.length_le
  rw [List.length_append] at hlength
  exact List.eq_nil_of_length_eq_zero (by omega)

/-- Where no signature stands, none is read. -/
theorem declSignature_rejects {text : List Char}
    (h : ∀ s rest, text = s ++ rest → ¬SignatureText s) : declSignature.Rejects text := by
  refine Unstopped.rejects fun offset value next hok => ?_
  obtain ⟨hreads, hsignature⟩ := declSignature_reads hok
  exact h _ _ hreads.rest_eq hsignature

end TypeScribe.Dump.Grammar
