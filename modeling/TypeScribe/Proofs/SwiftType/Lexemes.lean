import TypeScribe.Proofs.SwiftType.Nesting

/-!
# The words and marks of a type name

What the grammar of type names reads below the level of a type: identifiers, symbols with blanks
around them, words of a given list, attributes and specifiers, and postfixes. Each has a description
that does not mention the parser (`IsIdentifier`, `IsModifier`); the parser reads only such texts,
and accepts them wherever what follows does not prolong them.
-/

namespace TypeScribe

namespace Parser

/-! ## Identifiers -/

/-- A word that starts with a letter or so, or any text in backticks. -/
inductive IsIdentifier : List Char → Prop
  | plain {text : List Char} : IsWord isIdentifierStart isWordChar text → IsIdentifier text
  | escaped {name : List Char} : name ≠ [] →
      (∀ x ∈ name, (x != backtick && x != '\n') = true) →
      IsIdentifier (backtick :: name ++ [backtick])

/-- A character with which an identifier may start. -/
def opensIdentifier (x : Char) : Bool := isIdentifierStart x || x == backtick

/-- An identifier has a first character, which opens it. -/
theorem IsIdentifier.exists_cons {text : List Char} (h : IsIdentifier text) :
    ∃ x rest, text = x :: rest ∧ opensIdentifier x = true := by
  cases h with
  | plain hword =>
    cases text with
    | nil => exact hword.elim
    | cons x rest => exact ⟨x, rest, rfl, by simp [opensIdentifier, hword.1]⟩
  | escaped _ _ => exact ⟨backtick, _, rfl, by simp [opensIdentifier]⟩

/-- That character is no blank. -/
theorem isSpace_of_opensIdentifier {x : Char} (h : opensIdentifier x = true) :
    isSpace x = false := by
  refine Bool.eq_false_iff.2 fun hspace => ?_
  simp only [isSpace, Bool.or_eq_true, beq_iff_eq] at hspace
  rcases hspace with ((rfl | rfl) | rfl) | rfl <;> revert h <;> decide

/-- So an identifier ends the blanks before it. -/
theorem IsIdentifier.stopsAt_isSpace {text : List Char} (h : IsIdentifier text)
    (after : List Char) : StopsAt isSpace (text ++ after) := by
  obtain ⟨x, rest, rfl, hx⟩ := h.exists_cons
  exact stopsAt_cons.2 (isSpace_of_opensIdentifier hx)

/-- One character is read as it stands. -/
theorem char_reads {x y : Char} {c next : Cursor} (h : char x c = .ok y next) :
    c.Reads [x] next ∧ y = x := by
  obtain ⟨hreads, hx⟩ := satisfy_reads h
  obtain rfl : y = x := by simpa using hx
  exact ⟨hreads, rfl⟩

/-- What is read as an identifier is one. -/
theorem identifier_reads {c next : Cursor} {value : String} (h : identifier c = .ok value next) :
    c.Reads value.toList next ∧ IsIdentifier value.toList := by
  rcases orElse_eq_ok h with h | ⟨-, h⟩
  · obtain ⟨hreads, hword⟩ := word_reads h
    exact ⟨hreads, .plain hword⟩
  · obtain ⟨opening, c₁, hopen, h⟩ := bind_eq_ok h
    obtain ⟨name, c₂, hname, h⟩ := bind_eq_ok h
    obtain ⟨closing, c₃, hclose, h⟩ := bind_eq_ok h
    obtain ⟨rfl, rfl⟩ := pure_eq_ok h
    obtain ⟨hreads, rfl⟩ := char_reads hopen
    obtain ⟨hreads', hne, hall⟩ := takeWhile1_reads hname
    obtain ⟨hreads'', rfl⟩ := char_reads hclose
    have htext : (backtick.toString ++ name ++ backtick.toString).toList =
        backtick :: name.toList ++ [backtick] := by
      simp
    rw [htext]
    exact ⟨(hreads.append hreads').append hreads'', .escaped hne hall⟩

/-- No identifier is read where none can start. -/
theorem identifier_rejects {text : List Char} (h : StopsAt opensIdentifier text) :
    identifier.Rejects text := by
  refine Unstopped.rejects fun offset value next hok => ?_
  obtain ⟨⟨hrest, -, -⟩, hidentifier⟩ := identifier_reads hok
  obtain ⟨x, rest, htext, hx⟩ := hidentifier.exists_cons
  rw [htext] at hrest
  obtain rfl : text = _ := hrest
  rw [stopsAt_cons.1 h] at hx
  cases hx

/-- An identifier is read up to where no word goes on. -/
theorem identifier_accepts {text after : List Char} (h : IsIdentifier text)
    (hafter : StopsAt isWordChar after) :
    identifier.Accepts text (String.ofList text) after := by
  cases h with
  | plain hword => exact (word_accepts hword hafter).orElse _
  | @escaped name hne hall =>
    refine .orElse_of_rejects ?_ ?_
    · refine Unstopped.rejects fun offset value next hok => ?_
      obtain ⟨⟨hrest, -, -⟩, hword⟩ := word_reads hok
      cases hvalue : value.toList with
      | nil => exact hword.ne_nil hvalue
      | cons x rest =>
        rw [hvalue] at hrest hword
        obtain ⟨rfl, -⟩ := List.cons.inj hrest
        exact absurd hword.1 (by decide)
    · have hname : (takeWhile1 (fun x => x != backtick && x != '\n') "identifier").Accepts name
          (String.ofList name) ([backtick] ++ after) :=
        takeWhile1_accepts hne hall (stopsAt_cons.2 (by simp))
      have hclose : (char backtick).Accepts [backtick] backtick after :=
        satisfy_accepts (by simp) _
      have hopen : (char backtick).Accepts [backtick] backtick
          (name ++ [backtick] ++ after) := satisfy_accepts (by simp) _
      have hvalue : String.ofList (backtick :: name ++ [backtick]) =
          backtick.toString ++ String.ofList name ++ backtick.toString := by
        rw [← String.toList_inj]
        simp
      rw [hvalue]
      exact hopen.bind (s := [backtick]) (hname.bind hclose.bind_pure)

/-- The texts that are read as an identifier when they stand alone. -/
theorem consumes_identifier_iff {name : String} :
    identifier.consumes name = true ↔ IsIdentifier name.toList := by
  constructor
  · intro h
    obtain ⟨value, next, hok, hend⟩ := exists_of_consumes h
    obtain ⟨hreads, hidentifier⟩ := identifier_reads hok
    rwa [hreads.eq_of_start hend]
  · intro h
    have hok := identifier_accepts h (stopsAt_nil _) 0
    rw [List.append_nil] at hok
    rw [consumes, Cursor.start, hok]
    rfl

/-! ## Blanks and symbols -/

/-- Behind blanks the text is left. -/
theorem dropWhile_append_of_stopsAt {blanks rest : List Char}
    (hblanks : ∀ x ∈ blanks, isSpace x = true) (hrest : StopsAt isSpace rest) :
    (blanks ++ rest).dropWhile isSpace = rest :=
  (takeWhile_append_of_stopsAt hblanks hrest).2

/-- A parser that starts by skipping blanks fails where it fails behind them. -/
theorem Rejects.after_blanks {α : Type} {f : Unit → Parser α} {text : List Char}
    (h : (f ()).Rejects (text.dropWhile isSpace)) : (skipSpaces >>= f).Rejects text := by
  have hskip : skipSpaces.Accepts (text.takeWhile isSpace) () (text.dropWhile isSpace) :=
    skipSpaces_accepts (fun _ hx => List.mem_takeWhile_imp hx) (stopsAt_dropWhile _ _)
  have hreject := hskip.bind_rejects h
  rwa [List.takeWhile_append_dropWhile] at hreject

/-- A symbol takes the blanks around it. -/
theorem symbol_accepts {literal : String} {lead blanks rest : List Char}
    (hlead : ∀ x ∈ lead, isSpace x = true) (hne : literal.toList ≠ [])
    (hliteral : StopsAt isSpace literal.toList) (hblanks : ∀ x ∈ blanks, isSpace x = true)
    (hrest : StopsAt isSpace rest) :
    (symbol literal).Accepts (lead ++ (literal.toList ++ blanks)) literal rest := by
  have hskip : skipSpaces.Accepts lead () (literal.toList ++ blanks ++ rest) := by
    rw [List.append_assoc]
    exact skipSpaces_accepts hlead (hliteral.append hne _)
  exact hskip.bind ((token_accepts literal _).bind (skipSpaces_accepts hblanks hrest).bind_pure)

/-- A symbol is rejected where, behind the blanks, its first character does not stand. -/
theorem symbol_rejects_of_head {literal : String} {x : Char} {text : List Char}
    (hliteral : literal.toList.head? = some x)
    (h : StopsAt (· == x) (text.dropWhile isSpace)) : (symbol literal).Rejects text :=
  Rejects.after_blanks ((token_rejects_of_head hliteral h).bind _)

end Parser

namespace SwiftType.Grammar

open TypeScribe.Parser

/-! ## Names and words -/

/-- A name is read with the blanks before it. -/
theorem name_accepts {lead text after : List Char} (hlead : ∀ x ∈ lead, isSpace x = true)
    (h : IsIdentifier text) (hafter : StopsAt isWordChar after) :
    name.Accepts (lead ++ text) (String.ofList text) after :=
  (skipSpaces_accepts hlead (h.stopsAt_isSpace after)).bind
    (identifier_accepts h hafter)

theorem name_rejects {text : List Char} (h : StopsAt opensIdentifier (text.dropWhile isSpace)) :
    name.Rejects text :=
  Rejects.after_blanks (identifier_rejects h)

/-- What is read as a name is an identifier. -/
theorem name_reads {c next : Cursor} {value : String} (h : name c = .ok value next) :
    IsIdentifier value.toList := by
  obtain ⟨_, mid, -, h⟩ := bind_eq_ok h
  exact (identifier_reads h).2

/-- One of several words is read as a name is. -/
theorem oneOf_accepts {words : List String} {expected : String} {lead text after : List Char}
    (hlead : ∀ x ∈ lead, isSpace x = true) (h : IsIdentifier text)
    (hmem : String.ofList text ∈ words) (hafter : StopsAt isWordChar after) :
    (oneOf words expected).Accepts (lead ++ text) (String.ofList text) after := by
  intro offset
  rw [oneOf, name_accepts hlead h hafter offset]
  simp [hmem]

/-- None of several words is read where no name can start. -/
theorem oneOf_rejects {words : List String} {expected : String} {text : List Char}
    (h : StopsAt opensIdentifier (text.dropWhile isSpace)) :
    (oneOf words expected).Rejects text := by
  intro offset
  obtain ⟨failure, hfailed⟩ := name_rejects h offset
  exact ⟨failure, by rw [oneOf, hfailed]⟩

/-- Another word is not one of the given ones. -/
theorem oneOf_rejects_of_notMem {words : List String} (expected : String)
    {lead text after : List Char} (hlead : ∀ x ∈ lead, isSpace x = true) (h : IsIdentifier text)
    (hmem : String.ofList text ∉ words) (hafter : StopsAt isWordChar after) :
    (oneOf words expected).Rejects (lead ++ text ++ after) := by
  intro offset
  rw [oneOf, name_accepts hlead h hafter offset]
  simp [hmem]

/-! ## Attributes and specifiers -/

/-- An identifier behind `@`, perhaps with arguments in parentheses. -/
inductive IsAttribute : List Char → Prop
  | bare {name : List Char} : IsIdentifier name → IsAttribute ('@' :: name)
  | applied {name text : List Char} : IsIdentifier name → ')' ∉ text →
      IsAttribute ('@' :: name ++ ('(' :: text ++ [')']))

/-- What may stand before a type. -/
def IsModifier (text : String) : Prop := text ∈ specifiers ∨ IsAttribute text.toList

/-- The arguments of an attribute are read up to the first closing parenthesis. -/
theorem attributeArguments_accepts {text : List Char} (h : ')' ∉ text) (after : List Char) :
    attributeArguments.Accepts ('(' :: text ++ [')'])
      ("(" ++ String.ofList text ++ ")") after := by
  have hinner : (takeWhile (· != ')')).Accepts text (String.ofList text) (")".toList ++ after) := by
    refine takeWhile_accepts (fun x hx => ?_) (stopsAt_cons.2 rfl)
    rw [bne_iff_ne]
    rintro rfl
    exact h hx
  exact (token_accepts "(" _).bind (hinner.bind (token_accepts ")" after).bind_pure)

/-- What is read as arguments has no closing parenthesis but its last character. -/
theorem attributeArguments_reads {c next : Cursor} {value : String}
    (h : attributeArguments c = .ok value next) :
    ∃ text, ')' ∉ text ∧ value.toList = '(' :: text ++ [')'] := by
  obtain ⟨opening, c₁, hopen, h⟩ := bind_eq_ok h
  obtain ⟨text, c₂, htext, h⟩ := bind_eq_ok h
  obtain ⟨closing, c₃, hclose, h⟩ := bind_eq_ok h
  obtain ⟨rfl, rfl⟩ := pure_eq_ok h
  obtain ⟨-, rfl⟩ := token_reads hopen
  obtain ⟨-, hall⟩ := takeWhile_reads htext
  obtain ⟨-, rfl⟩ := token_reads hclose
  refine ⟨text.toList, fun hmem => ?_, by simp⟩
  simpa using hall _ hmem

/-- What is read as an attribute is one. -/
theorem typeAttribute_reads {c next : Cursor} {value : String}
    (h : typeAttribute c = .ok value next) : IsAttribute value.toList := by
  obtain ⟨_, c₁, -, h⟩ := bind_eq_ok h
  obtain ⟨mark, c₂, hmark, h⟩ := bind_eq_ok h
  obtain ⟨name, c₃, hname, h⟩ := bind_eq_ok h
  obtain ⟨arguments, c₄, harguments, h⟩ := bind_eq_ok h
  obtain ⟨rfl, rfl⟩ := pure_eq_ok h
  obtain ⟨-, rfl⟩ := token_reads hmark
  obtain ⟨-, hidentifier⟩ := identifier_reads hname
  rcases option_eq_ok harguments with harguments | ⟨rfl, rfl⟩
  · obtain ⟨text, htext, hvalue⟩ := attributeArguments_reads harguments
    rw [String.toList_append, String.toList_append, hvalue]
    exact .applied hidentifier htext
  · have hvalue : ("@" ++ name ++ "").toList = '@' :: name.toList := by simp
    rw [hvalue]
    exact .bare hidentifier

/-- An attribute is read up to the space behind it. -/
theorem typeAttribute_accepts {lead text : List Char} (hlead : ∀ x ∈ lead, isSpace x = true)
    (h : IsAttribute text) (rest : List Char) :
    typeAttribute.Accepts (lead ++ text) (String.ofList text) (' ' :: rest) := by
  have hskip : ∀ tail, skipSpaces.Accepts lead () ('@' :: tail) :=
    fun tail => skipSpaces_accepts hlead (stopsAt_cons.2 rfl)
  cases h with
  | @bare name hname =>
    have hidentifier : identifier.Accepts name (String.ofList name) (' ' :: rest) :=
      identifier_accepts hname (stopsAt_cons.2 rfl)
    have hnone : attributeArguments.Rejects (' ' :: rest) :=
      (token_rejects_of_head rfl (stopsAt_beq (by decide) _)).bind _
    have hvalue : String.ofList ('@' :: name) = "@" ++ String.ofList name ++ "" := by
      rw [← String.toList_inj]
      simp
    rw [hvalue]
    refine (hskip _).bind ((token_accepts "@" _).bind ?_)
    exact hidentifier.bind_nil ((hnone.option "").bind_pure
      (f := fun arguments => "@" ++ String.ofList name ++ arguments))
  | @applied name text hname htext =>
    have hidentifier : identifier.Accepts name (String.ofList name)
        ('(' :: text ++ [')'] ++ ' ' :: rest) :=
      identifier_accepts hname (stopsAt_cons.2 rfl)
    have harguments : (attributeArguments.option "").Accepts ('(' :: text ++ [')'])
        ("(" ++ String.ofList text ++ ")") (' ' :: rest) :=
      (attributeArguments_accepts htext _).orElse _
    have hvalue : String.ofList ('@' :: name ++ ('(' :: text ++ [')'])) =
        "@" ++ String.ofList name ++ ("(" ++ String.ofList text ++ ")") := by
      rw [← String.toList_inj]
      simp
    rw [hvalue]
    refine (hskip _).bind ((token_accepts "@" _).bind ?_)
    exact hidentifier.bind (harguments.bind_pure
      (f := fun arguments => "@" ++ String.ofList name ++ arguments))

theorem typeAttribute_rejects {text : List Char}
    (h : StopsAt (· == '@') (text.dropWhile isSpace)) : typeAttribute.Rejects text :=
  Rejects.after_blanks ((token_rejects_of_head rfl h).bind _)

/-- A specifier is an identifier. -/
theorem isIdentifier_of_mem_specifiers {word : String} (h : word ∈ specifiers) :
    IsIdentifier word.toList := by
  revert word
  simp only [specifiers, List.forall_mem_cons, List.not_mem_nil, false_imp_iff, implies_true,
    and_true]
  refine ⟨?_, ?_, ?_, ?_, ?_, ?_, ?_, ?_, ?_⟩ <;> exact .plain (by decide)

/-- What is read as a modifier is one. -/
theorem modifier_reads {c next : Cursor} {value : String} (h : modifier c = .ok value next) :
    IsModifier value := by
  rcases (choice_eq_ok h).cons_cases with h | ⟨-, h⟩
  · exact .inr (typeAttribute_reads h)
  · rcases h.cons_cases with h | ⟨-, h⟩
    · exact .inl (oneOf_eq_ok h).2
    · obtain ⟨_, _, _, hnil, -⟩ := h
      simp at hnil

/-- An attribute or a specifier is read up to the space behind it. -/
theorem modifier_accepts {lead : List Char} {text : String}
    (hlead : ∀ x ∈ lead, isSpace x = true) (h : IsModifier text) (rest : List Char) :
    modifier.Accepts (lead ++ text.toList) text (' ' :: rest) := by
  rcases h with hmem | hattribute
  · have hidentifier := isIdentifier_of_mem_specifiers hmem
    have hword : (oneOf specifiers "specifier").Accepts (lead ++ text.toList)
        (String.ofList text.toList) (' ' :: rest) :=
      oneOf_accepts hlead hidentifier (by rwa [String.ofList_toList]) (stopsAt_cons.2 rfl)
    rw [String.ofList_toList] at hword
    refine .choice_tail (typeAttribute_rejects ?_) (hword.choice_head _)
    rw [List.append_assoc, dropWhile_append_of_stopsAt hlead
      (hidentifier.stopsAt_isSpace _)]
    obtain ⟨x, tail, htext, hx⟩ := hidentifier.exists_cons
    rw [htext]
    exact stopsAt_beq_of_pos hx (by decide) _
  · have haccepts := typeAttribute_accepts hlead hattribute rest
    rw [String.ofList_toList] at haccepts
    exact haccepts.choice_head _

/-! ## Postfixes -/

/-- The marks of a postfix. -/
def postfixMarks : List String := ["?", "!", ".Type", ".Protocol"]

/-- A mark is read as itself, since none is the start of another. -/
theorem postfixMark_accepts {mark : String} (h : mark ∈ postfixMarks) (after : List Char) :
    postfixMark.Accepts mark.toList mark after := by
  -- The marks before it in the choice start otherwise, except that `.Type` starts like `.Protocol`.
  have hskip : ∀ {literal : String} {x y : Char} (tail : List Char) {rest : List (Parser String)},
      literal.toList.head? = some x → y ≠ x →
      (choice rest).Accepts (y :: tail) mark after →
      (choice (token literal :: rest)).Accepts (y :: tail) mark after := by
    intro literal x y tail rest hliteral hne hrest
    exact .choice_tail (token_rejects_of_head hliteral (stopsAt_beq hne _)) hrest
  simp only [postfixMarks, List.mem_cons, List.not_mem_nil, or_false] at h
  rcases h with rfl | rfl | rfl | rfl
  · exact (token_accepts "?" after).choice_head _
  · refine hskip [] rfl (by decide) ?_
    exact (token_accepts "!" after).choice_head _
  · refine hskip "Type".toList rfl (by decide) (hskip _ rfl (by decide) ?_)
    exact (token_accepts ".Type" after).choice_head _
  · refine hskip "Protocol".toList rfl (by decide) (hskip _ rfl (by decide) ?_)
    refine .choice_tail (token_rejects ?_) ((token_accepts ".Protocol" after).choice_head _)
    rintro ⟨rest, heq⟩
    exact absurd (List.cons.inj (List.cons.inj heq).2).1 (by decide)

end SwiftType.Grammar

end TypeScribe
