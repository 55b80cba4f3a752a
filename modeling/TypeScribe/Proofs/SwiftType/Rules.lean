import TypeScribe.Proofs.SwiftType.Spelling

/-!
# What the rules of the grammar accept

The rules for what stands inside brackets (elements, arguments, segments and so on) accept the
spellings of such things, given that the types nested in them are read back. What follows a type is
told by the mark that stands behind it, perhaps after blanks (`Followed`): different things may be
followed by different marks. A dot behind a type is the first of three, never the start of another
segment or of a postfix (`Ends`).
-/

namespace TypeScribe.SwiftType

open TypeScribe.Parser
open TypeScribe.SwiftType.Grammar

/-! ## What follows -/

/-- Blanks, and then the end of the text or one of the marks. -/
structure Followed (marks blanks rest : List Char) : Prop where
  blank : ∀ x ∈ blanks, isSpace x = true
  mark : ∀ x ∈ rest.head?, x ∈ marks

/-- What may follow a type: a dot only where a second one stands behind it. -/
structure Ends (marks blanks rest : List Char) : Prop extends Followed marks blanks rest where
  dots : ∀ tail, rest = '.' :: tail → tail.head? = some '.'

/-- What may stand behind a type. -/
def typeMarks : List Char := [')', ']', ',', '>', ':', '.']

/-- What may stand behind a member of a composition. -/
def memberMarks : List Char := '&' :: typeMarks

/-- What may stand behind a nominal type. -/
def nominalMarks : List Char := '?' :: '!' :: memberMarks

/-- The marks are neither blanks nor parts of words, and none of them opens an argument list or an
arrow. -/
theorem nominalMarks_plain : ∀ x ∈ nominalMarks,
    isSpace x = false ∧ isWordChar x = false ∧ opensIdentifier x = false ∧ (x == '<') = false ∧
      (x == '-') = false := by
  simp only [nominalMarks, memberMarks, typeMarks, List.forall_mem_cons, List.not_mem_nil,
    false_imp_iff, implies_true, and_true]
  decide

theorem typeMarks_subset_memberMarks : typeMarks ⊆ memberMarks := List.subset_cons_self _ _

theorem memberMarks_subset_nominalMarks : memberMarks ⊆ nominalMarks := by decide

section
variable {marks marks' blanks left rest : List Char} {x : Char}

theorem Followed.mono (h : Followed marks blanks rest) (hle : marks ⊆ marks') :
    Followed marks' blanks rest :=
  ⟨h.blank, fun x hx => hle (h.mark x hx)⟩

theorem Followed.suffix (h : Followed marks blanks rest) (hleft : left <:+ blanks) :
    Followed marks left rest :=
  ⟨fun x hx => h.blank x (hleft.subset hx), h.mark⟩

theorem Followed.stopsAt (h : Followed marks blanks rest) {predicate : Char → Bool}
    (hmarks : ∀ x ∈ marks, predicate x = false) : StopsAt predicate rest :=
  fun x hx => hmarks x (h.mark x hx)

theorem Followed.stopsAt_isSpace (h : Followed marks blanks rest) (hle : marks ⊆ nominalMarks) :
    StopsAt isSpace rest :=
  h.stopsAt fun x hx => (nominalMarks_plain x (hle hx)).1

theorem Followed.dropWhile_eq (h : Followed marks blanks rest) (hle : marks ⊆ nominalMarks) :
    (blanks ++ rest).dropWhile isSpace = rest :=
  dropWhile_append_of_stopsAt h.blank (h.stopsAt_isSpace hle)

theorem isWordChar_of_isSpace {x : Char} (h : isSpace x = true) : isWordChar x = false := by
  simp only [isSpace, Bool.or_eq_true, beq_iff_eq] at h
  rcases h with ((rfl | rfl) | rfl) | rfl <;> decide

/-- Blanks do not prolong a word, nor do the marks. -/
theorem Followed.stopsAt_isWordChar (h : Followed marks blanks rest) (hle : marks ⊆ nominalMarks) :
    StopsAt isWordChar (blanks ++ rest) := by
  cases blanks with
  | nil => exact h.stopsAt fun x hx => (nominalMarks_plain x (hle hx)).2.1
  | cons x blanks => exact stopsAt_cons.2 (isWordChar_of_isSpace (h.blank x List.mem_cons_self))

/-- What follows a type neither prolongs a word nor makes it a label. -/
theorem Followed.detached (h : Followed marks blanks rest) (hle : marks ⊆ nominalMarks)
    (hcolon : ':' ∉ marks) : Detached (blanks ++ rest) := by
  refine ⟨h.stopsAt_isWordChar hle, ?_⟩
  rw [h.dropWhile_eq hle]
  refine h.stopsAt fun x hx => ?_
  rw [beq_eq_false_iff_ne]
  rintro rfl
  exact hcolon hx

/-- A symbol that does not start with one of the marks is not found. -/
theorem Followed.symbol_rejects (h : Followed marks blanks rest) (hle : marks ⊆ nominalMarks)
    (literal : String) (hliteral : literal.toList.head? = some x) (hx : x ∉ marks) :
    (symbol literal).Rejects (blanks ++ rest) := by
  refine symbol_rejects_of_head hliteral ?_
  rw [h.dropWhile_eq hle]
  refine h.stopsAt fun y hy => ?_
  rw [beq_eq_false_iff_ne]
  rintro rfl
  exact hx hy

/-- No name follows the blanks behind a type. -/
theorem Followed.name_rejects (h : Followed marks blanks rest) (hle : marks ⊆ nominalMarks) :
    StopsAt opensIdentifier ((blanks ++ rest).dropWhile isSpace) := by
  rw [h.dropWhile_eq hle]
  exact h.stopsAt fun x hx => (nominalMarks_plain x (hle hx)).2.2.1

theorem Ends.mono (h : Ends marks blanks rest) (hle : marks ⊆ marks') : Ends marks' blanks rest :=
  ⟨h.toFollowed.mono hle, h.dots⟩

theorem Ends.suffix (h : Ends marks blanks rest) (hleft : left <:+ blanks) :
    Ends marks left rest :=
  ⟨h.toFollowed.suffix hleft, h.dots⟩

theorem ends_nil : Ends marks [] [] := ⟨⟨List.forall_mem_nil _, by simp⟩, by simp⟩

/-- A mark may follow blanks. -/
theorem followed_cons (hblank : ∀ y ∈ blanks, isSpace y = true) (hx : x ∈ marks) :
    Followed marks blanks (x :: rest) := by
  refine ⟨hblank, fun y hy => ?_⟩
  obtain rfl : x = y := Option.some.inj hy
  exact hx

theorem ends_cons (hblank : ∀ y ∈ blanks, isSpace y = true) (hx : x ∈ marks) (hdot : x ≠ '.') :
    Ends marks blanks (x :: rest) :=
  ⟨followed_cons hblank hx, fun _ heq => absurd (List.cons.inj heq).1 hdot⟩

/-- Without a dot among the marks, a type may end before any of them. -/
theorem Followed.ends (h : Followed marks blanks rest) (hdot : '.' ∉ marks) :
    Ends marks blanks rest := by
  refine ⟨h, ?_⟩
  rintro tail rfl
  exact absurd (h.mark '.' rfl) hdot

/-- A dot behind a type is not read with a name after it, since a second dot stands there. -/
theorem Ends.dot_rejects (h : Ends marks blanks rest) {α : Type} {p : Parser α}
    (hp : ∀ tail, p.Rejects ('.' :: tail)) :
    (token "." >>= fun _ => p).Rejects (blanks ++ rest) := by
  have hother : ∀ {y tail}, y ≠ '.' → (token "." >>= fun _ => p).Rejects (y :: tail) :=
    fun hne => (token_rejects_of_head rfl (stopsAt_beq hne _)).bind _
  cases blanks with
  | cons y blanks =>
    refine hother ?_
    rintro rfl
    exact absurd (h.blank '.' List.mem_cons_self) (by decide)
  | nil =>
    cases rest with
    | nil => exact (token_rejects_of_head rfl (stopsAt_nil _)).bind _
    | cons y tail =>
      by_cases hdot : y = '.'
      · subst hdot
        obtain ⟨more, rfl⟩ : ∃ more, tail = '.' :: more :=
          List.head?_eq_some_iff.1 (h.dots tail rfl)
        have haccepts : (token ".").Accepts ['.'] "." ('.' :: more) := token_accepts "." _
        exact haccepts.bind_rejects (hp more)
      · exact hother hdot

end

/-! ## Symbols -/

/-- The text of a symbol starts with a character that is not blank. -/
def isInk (literal : String) : Bool := literal.toList.head?.any fun x => !isSpace x

theorem isSpace_of_mem_space : ∀ x ∈ [' '], isSpace x = true := List.forall_mem_singleton.2 rfl

/-- A symbol takes the blanks around it. -/
theorem symbol_accepts_of_isInk {lead blanks rest : List Char} (literal : String)
    (hliteral : isInk literal = true) (hlead : ∀ x ∈ lead, isSpace x = true)
    (hblanks : ∀ x ∈ blanks, isSpace x = true) (hrest : StopsAt isSpace rest) :
    (symbol literal).Accepts (lead ++ (literal.toList ++ blanks)) literal rest := by
  obtain ⟨x, tail, hcons, hspace⟩ :
      ∃ x tail, literal.toList = x :: tail ∧ isSpace x = false := by
    unfold isInk at hliteral
    cases htext : literal.toList with
    | nil => rw [htext] at hliteral; cases hliteral
    | cons x tail => exact ⟨x, tail, rfl, by simpa [htext] using hliteral⟩
  have hstops : StopsAt isSpace literal.toList := by
    rw [hcons]
    exact stopsAt_cons.2 hspace
  exact symbol_accepts hlead (by simp [hcons]) hstops hblanks hrest

/-- A symbol is read with the blanks before it and with those behind it. -/
theorem symbol_acceptsLoosely {lead blanks rest : List Char} (literal : String)
    (hliteral : isInk literal = true) (hlead : ∀ x ∈ lead, isSpace x = true)
    (hblanks : ∀ x ∈ blanks, isSpace x = true) (hrest : StopsAt isSpace rest) :
    (symbol literal).AcceptsLoosely (lead ++ literal.toList) literal blanks rest := by
  refine ⟨blanks, [], (List.append_nil _).symm, ?_⟩
  rw [List.append_assoc]
  exact symbol_accepts_of_isInk literal hliteral hlead hblanks hrest

/-- A symbol right before something that is not blank. -/
theorem symbol_accepts_tight {lead rest : List Char} (literal : String)
    (hliteral : isInk literal = true) (hlead : ∀ x ∈ lead, isSpace x = true)
    (hrest : StopsAt isSpace rest) :
    (symbol literal).Accepts (lead ++ literal.toList) literal rest :=
  (symbol_acceptsLoosely literal hliteral hlead (List.forall_mem_nil _) hrest).tight

/-! ## Lists -/

/-- The parser reads the type back wherever a type may end. -/
def Reads (nested : Parser SwiftType) (found : SwiftType) : Prop :=
  ∀ blanks rest, Ends typeMarks blanks rest →
    nested.AcceptsLoosely found.chars found.voidResults blanks rest

/-- Items with commas between them are read one by one up to the closing mark. -/
theorem separated_accepts {α ι : Type} {item : Parser α} [Forward item]
    {text : ι → List Char} {value : ι → α} {x : ι} {xs : List ι} {close : Char}
    (hitem : ∀ y ∈ x :: xs, ∀ blanks rest, Followed [',', close] blanks rest →
      item.AcceptsLoosely (text y) (value y) blanks rest)
    (hstart : ∀ y ∈ xs, ∀ after, StopsAt isSpace (text y ++ after))
    (hclose : close ≠ ',') (hspace : isSpace close = false) (rest : List Char) :
    (separated item).Accepts (separatedBy ", ".toList ((x :: xs).map text))
      ((x :: xs).map value) (close :: rest) := by
  have := advances_symbol "," (by decide)
  have : Advances (symbol "," >>= fun _ => item) := Advances.bind
  have hend : Followed [',', close] [] (close :: rest) :=
    followed_cons (List.forall_mem_nil _) (by simp)
  have hnext : ∀ r, Followed [',', close] [] (", ".toList ++ r) := fun r =>
    followed_cons (List.forall_mem_nil _) List.mem_cons_self
  have hstep : ∀ y ∈ xs, ∀ lead, lead <:+ [] → ∀ b r, Followed [',', close] b r →
      (symbol "," >>= fun _ => item).AcceptsLoosely (lead ++ (", ".toList ++ text y))
        (value y) b r := by
    intro y hy lead hlead b r hfollowed
    obtain rfl := List.suffix_nil.1 hlead
    have hcomma : (symbol ",").Accepts ", ".toList "," (text y ++ (b ++ r)) :=
      symbol_accepts_of_isInk "," (by decide) (List.forall_mem_nil _) isSpace_of_mem_space
        (hstart y hy (b ++ r))
    exact AcceptsLoosely.bind (s := ", ".toList) hcomma
      (hitem y (List.mem_cons_of_mem _ hy) b r hfollowed)
  have hstop : ∀ left, left <:+ [] →
      (symbol "," >>= fun _ => item).Rejects (left ++ close :: rest) := by
    intro left hleft
    obtain rfl := List.suffix_nil.1 hleft
    refine (symbol_rejects_of_head rfl ?_).bind _
    rw [List.nil_append, List.dropWhile_cons_of_neg (by simp [hspace])]
    exact stopsAt_beq hclose rest
  have hchain := chain_acceptsLoosely text value [] ", ".toList (fun _ => Followed [',', close])
    (f := List.cons) (hitem x (by simp)) hstep (fun _ _ r => hnext r) (fun _ _ => hend) hstop
  rw [List.map_cons, List.map_cons, separatedBy, List.flatMap_map]
  exact hchain.tight

/-! ## Elements -/

/-- The label of an element and its colon, or nothing. -/
theorem elementLabel_accepts {element : TypeElement SwiftType} (hlabel : LabelWellFormed element)
    (hstarts : StartsType element.type.chars) {after : List Char} (hafter : Detached after) :
    (option? elementLabel).Accepts (labelChars element.label) element.label
      (element.type.chars ++ after) := by
  obtain ⟨label, found, variadic⟩ := element
  cases label with
  | none => exact (hstarts.elementLabel_rejects hafter).option?
  | some label =>
    have hidentifier := consumes_identifier_iff.1 (hlabel label rfl)
    have hname : name.Accepts label.toList label (": ".toList ++ (found.chars ++ after)) := by
      have hstops : StopsAt isWordChar (": ".toList ++ (found.chars ++ after)) :=
        stopsAt_cons.2 rfl
      have haccepts := name_accepts (List.forall_mem_nil _) hidentifier hstops
      rwa [String.ofList_toList, List.nil_append] at haccepts
    have hcolon : (symbol ":").Accepts ": ".toList ":" (found.chars ++ after) :=
      symbol_accepts_of_isInk ":" (by decide) (List.forall_mem_nil _) isSpace_of_mem_space
        (hstarts.stopsAt_isSpace after)
    exact (hname.bind hcolon.bind_pure).option?

/-- An element of a tuple is read with its label and its dots if its type is. -/
theorem element_accepts {nested : Parser SwiftType} {item : TypeElement SwiftType}
    (hlabel : LabelWellFormed item) (hstarts : StartsType item.type.chars)
    (hreads : Reads nested item.type) {blanks rest : List Char}
    (hfollowed : Followed [',', ')'] blanks rest) :
    (element nested).AcceptsLoosely (elementChars item) (item.map voidResults) blanks rest := by
  have hplain : [',', ')'] ⊆ nominalMarks := by decide
  have hdetached : Detached (dotsChars item.variadic ++ (blanks ++ rest)) := by
    refine Detached.append ?_ (hfollowed.detached hplain (by decide))
    cases item.variadic with
    | false => exact detached_nil
    | true => exact detached_cons (by decide) (by decide) (by decide)
  have hlabelled := elementLabel_accepts hlabel hstarts hdetached
  rw [← List.append_assoc] at hlabelled
  refine AcceptsLoosely.bind hlabelled ?_
  obtain ⟨label, found, variadic⟩ := item
  cases variadic with
  | false =>
    have hends : Ends typeMarks blanks rest := (hfollowed.ends (by decide)).mono (by decide)
    show AcceptsLoosely _ (found.chars ++ []) _ blanks rest
    rw [List.append_nil]
    refine (hreads blanks rest hends).bind_nil fun left hleft => ?_
    have hnone := (hfollowed.suffix hleft).symbol_rejects hplain "..." rfl (by decide)
    exact hnone.option?.bind_pure
      (f := fun dots => TypeElement.mk label found.voidResults dots.isSome)
  | true =>
    have hends : Ends typeMarks [] ("...".toList ++ (blanks ++ rest)) :=
      ⟨followed_cons (List.forall_mem_nil _) (by decide), fun tail heq => by cases heq; rfl⟩
    have hdots := symbol_acceptsLoosely "..." (by decide) (List.forall_mem_nil _) hfollowed.blank
      (hfollowed.stopsAt_isSpace hplain)
    exact AcceptsLoosely.bind (hreads _ _ hends).tight (hdots.option?.bind_pure
      (f := fun dots => TypeElement.mk label found.voidResults dots.isSome))

/-- An element does not start with a blank. -/
theorem elementChars_stopsAt_isSpace {item : TypeElement SwiftType} (hlabel : LabelWellFormed item)
    (hstarts : StartsType item.type.chars) (after : List Char) :
    StopsAt isSpace (elementChars item ++ after) := by
  obtain ⟨label, found, variadic⟩ := item
  cases label with
  | none =>
    show StopsAt isSpace (found.chars ++ dotsChars variadic ++ after)
    rw [List.append_assoc]
    exact hstarts.stopsAt_isSpace _
  | some label =>
    have hidentifier := consumes_identifier_iff.1 (hlabel label rfl)
    simp only [elementChars, labelChars, List.append_assoc]
    exact hidentifier.stopsAt_isSpace _

/-! ## Brackets -/

/-- No type starts with the end of a list. -/
theorem typeOf_rejects_close (below : Parser SwiftType) (rest : List Char) :
    (typeOf below).Rejects (')' :: rest) := by
  have hmodifier : modifier.Rejects (')' :: rest) := by
    refine .choice ?_
    simp only [List.forall_mem_cons, List.not_mem_nil, false_imp_iff, implies_true, and_true]
    exact ⟨typeAttribute_rejects (stopsAt_cons.2 rfl), oneOf_rejects (stopsAt_cons.2 rfl)⟩
  have hprimary : (primary below).Rejects (')' :: rest) := by
    refine .choice ?_
    simp only [List.forall_mem_cons, List.not_mem_nil, false_imp_iff, implies_true, and_true]
    refine ⟨?_, Rejects.map ?_ _, Rejects.map ?_ _⟩
    · exact (symbol_rejects_of_head rfl (stopsAt_cons.2 rfl)).bind _
    · exact (symbol_rejects_of_head rfl (stopsAt_cons.2 rfl)).bind _
    · exact ((name_rejects (stopsAt_cons.2 rfl)).bind _).bind _
  have hmember : (member below).Rejects (')' :: rest) :=
    hmodifier.many.nil_bind_rejects ((hprimary.bind _).bind _)
  exact hmember.bind _

/-- The parser follows nested types at least one level deep. -/
class Follows (nested : Parser SwiftType) : Prop extends Forward nested where
  eq_typeOf : ∃ below, Forward below ∧ nested = typeOf below

instance (depth : Nat) : Follows (typeWithin (depth + 1)) where
  eq_typeOf := ⟨typeWithin depth, inferInstance, rfl⟩

variable {nested : Parser SwiftType}

/-- No type starts with a closing parenthesis. -/
theorem Follows.rejects_close [Follows nested] (rest : List Char) :
    nested.Rejects (')' :: rest) := by
  obtain ⟨below, -, rfl⟩ := ‹Follows nested›.eq_typeOf
  exact typeOf_rejects_close below rest

section
variable {lead blanks rest : List Char} (hlead : ∀ x ∈ lead, isSpace x = true)
  (hblanks : ∀ x ∈ blanks, isSpace x = true) (hrest : StopsAt isSpace rest)
include hlead hblanks hrest

/-- A list in parentheses is read up to its end. -/
theorem parenList_accepts [Follows nested] {elements : List (TypeElement SwiftType)}
    (hlabels : ∀ item ∈ elements, LabelWellFormed item)
    (hstarts : ∀ item ∈ elements, StartsType item.type.chars)
    (hreads : ∀ item ∈ elements, Reads nested item.type) :
    (parenList nested).AcceptsLoosely (lead ++ parenChars elements)
      (.parens (elements.map (TypeElement.map voidResults))) blanks rest := by
  have hclose : (symbol ")").AcceptsLoosely ")".toList ")" blanks rest :=
    symbol_acceptsLoosely ")" (by decide) (List.forall_mem_nil _) hblanks hrest
  have hinner : ((separated (element nested)).option []).Accepts
      (separatedBy ", ".toList (elements.map elementChars))
      (elements.map (TypeElement.map voidResults)) (")".toList ++ (blanks ++ rest)) := by
    cases elements with
    | nil =>
      have hlabel : elementLabel.Rejects (')' :: (blanks ++ rest)) :=
        (name_rejects (stopsAt_cons.2 rfl)).bind _
      have helement : (element nested).Rejects (')' :: (blanks ++ rest)) :=
        hlabel.option?.nil_bind_rejects ((Follows.rejects_close _).bind _)
      exact Rejects.option (helement.bind _) []
    | cons first later =>
      have hlist : (separated (element nested)).Accepts
          (separatedBy ", ".toList ((first :: later).map elementChars))
          ((first :: later).map (TypeElement.map voidResults)) (')' :: (blanks ++ rest)) := by
        refine separated_accepts (fun item hitem b r hfollowed => ?_) ?_ (by decide) (by decide) _
        · exact element_accepts (hlabels item hitem) (hstarts item hitem) (hreads item hitem)
            hfollowed
        · intro item hitem after
          have hmem := List.mem_cons_of_mem first hitem
          exact elementChars_stopsAt_isSpace (hlabels item hmem) (hstarts item hmem) after
      exact hlist.orElse _
  have hopen : (symbol "(").Accepts (lead ++ "(".toList) "("
      (separatedBy ", ".toList (elements.map elementChars) ++ ")".toList ++ (blanks ++ rest)) := by
    refine symbol_accepts_tight "(" (by decide) hlead ?_
    cases elements with
    | nil => exact stopsAt_cons.2 rfl
    | cons first later =>
      rw [List.map_cons, separatedBy, List.append_assoc, List.append_assoc]
      exact elementChars_stopsAt_isSpace (hlabels first (by simp)) (hstarts first (by simp)) _
  have htext : lead ++ parenChars elements = lead ++ "(".toList ++
      (separatedBy ", ".toList (elements.map elementChars) ++ ")".toList) := by
    rw [List.append_assoc]
    rfl
  rw [htext]
  exact AcceptsLoosely.bind hopen (AcceptsLoosely.bind hinner hclose.bind_pure)

/-- A type in parentheses is a list of one element. -/
theorem parenList_accepts_type [Follows nested] {found : SwiftType}
    (hstarts : StartsType found.chars) (hreads : Reads nested found) :
    (parenList nested).AcceptsLoosely (lead ++ ('(' :: found.chars ++ [')']))
      (.parens [⟨none, found.voidResults, false⟩]) blanks rest := by
  have hchars : parenChars [⟨none, found, false⟩] = '(' :: found.chars ++ [')'] := by
    simp [parenChars, separatedBy, elementChars, labelChars, dotsChars]
  rw [← hchars]
  exact parenList_accepts hlead hblanks hrest (by simp [LabelWellFormed]) (by simpa using hstarts)
    (by simpa using hreads)

/-- Brackets around anything that is read as a type are read as an array. -/
theorem collection_accepts_array {text : List Char} {element : SwiftType}
    (hspace : ∀ after, StopsAt isSpace (text ++ after))
    (h : nested.Accepts text element ("]".toList ++ (blanks ++ rest))) :
    (collection nested).AcceptsLoosely (lead ++ ('[' :: text ++ [']'])) (.array element)
      blanks rest := by
  have hopen : (symbol "[").Accepts (lead ++ "[".toList) "["
      (text ++ "]".toList ++ (blanks ++ rest)) := by
    rw [List.append_assoc]
    exact symbol_accepts_tight "[" (by decide) hlead (hspace _)
  have hnone : (symbol ":" >>= fun _ => nested).Rejects ("]".toList ++ (blanks ++ rest)) :=
    (symbol_rejects_of_head rfl (stopsAt_cons.2 rfl)).bind _
  have hclose : (symbol "]").AcceptsLoosely "]".toList "]" blanks rest :=
    symbol_acceptsLoosely "]" (by decide) (List.forall_mem_nil _) hblanks hrest
  have htext : lead ++ ('[' :: text ++ [']']) =
      lead ++ "[".toList ++ (text ++ ([] ++ "]".toList)) := by
    rw [List.append_assoc]
    rfl
  rw [htext]
  exact AcceptsLoosely.bind hopen (AcceptsLoosely.bind h
    (AcceptsLoosely.bind hnone.option? hclose.bind_pure))

/-- An array type is read back in its brackets. -/
theorem array_accepts {found : SwiftType} (hstarts : StartsType found.chars)
    (hreads : Reads nested found) :
    (collection nested).AcceptsLoosely (lead ++ chars (.array found)) (.array found.voidResults)
      blanks rest := by
  rw [chars_array]
  refine collection_accepts_array hlead hblanks hrest hstarts.stopsAt_isSpace ?_
  exact (hreads [] _ (ends_cons (List.forall_mem_nil _) (by decide) (by decide))).tight

/-- So is a dictionary type; the colon tells it from an array type. -/
theorem dictionary_accepts {key value : SwiftType} (hkey : StartsType key.chars)
    (hvalue : StartsType value.chars) (hreadsKey : Reads nested key)
    (hreadsValue : Reads nested value) :
    (collection nested).AcceptsLoosely (lead ++ chars (.dictionary key value))
      (.dictionary key.voidResults value.voidResults) blanks rest := by
  have hopen : (symbol "[").Accepts (lead ++ "[".toList) "["
      (key.chars ++ ([' '] ++ (": ".toList ++ (value.chars ++ "]".toList))) ++
        (blanks ++ rest)) := by
    rw [List.append_assoc]
    exact symbol_accepts_tight "[" (by decide) hlead (hkey.stopsAt_isSpace _)
  have hfirst : nested.AcceptsLoosely key.chars key.voidResults [' ']
      (": ".toList ++ (value.chars ++ "]".toList) ++ (blanks ++ rest)) :=
    hreadsKey _ _ (ends_cons isSpace_of_mem_space (by decide) (by decide))
  have hcolon : ∀ left, left <:+ [' '] → (symbol ":").Accepts (left ++ ": ".toList) ":"
      (value.chars ++ ("]".toList ++ (blanks ++ rest))) := by
    intro left hleft
    refine symbol_accepts_of_isInk ":" (by decide) (fun x hx => ?_) isSpace_of_mem_space
      (hvalue.stopsAt_isSpace _)
    rw [List.mem_singleton.1 (hleft.subset hx)]
    rfl
  have hsecond : nested.Accepts value.chars value.voidResults ("]".toList ++ (blanks ++ rest)) :=
    (hreadsValue [] _ (ends_cons (List.forall_mem_nil _) (by decide) (by decide))).tight
  have hclose : (symbol "]").AcceptsLoosely "]".toList "]" blanks rest :=
    symbol_acceptsLoosely "]" (by decide) (List.forall_mem_nil _) hblanks hrest
  have htext : lead ++ chars (.dictionary key value) = lead ++ "[".toList ++
      (key.chars ++ ([' '] ++ (": ".toList ++ (value.chars ++ "]".toList)))) := by
    rw [chars_dictionary, List.append_assoc]
    rfl
  rw [htext]
  refine AcceptsLoosely.bind hopen (AcceptsLoosely.bind_after_blanks hfirst fun left hleft => ?_)
  rw [← List.append_assoc, ← List.append_assoc]
  exact AcceptsLoosely.bind ((hcolon left hleft).bind hsecond).option? hclose.bind_pure

end

/-! ## Nominal types -/

/-- Generic arguments are read back if each of them is. -/
theorem genericArguments_accepts [Forward nested] {first : SwiftType} {later : List SwiftType}
    (hstarts : ∀ argument ∈ first :: later, StartsType argument.chars)
    (hreads : ∀ argument ∈ first :: later, Reads nested argument) {blanks rest : List Char}
    (hblanks : ∀ x ∈ blanks, isSpace x = true) (hrest : StopsAt isSpace rest) :
    (Grammar.genericArguments nested).AcceptsLoosely (argumentChars (first :: later))
      ((first :: later).map voidResults) blanks rest := by
  have hopen : (symbol "<").Accepts "<".toList "<"
      (separatedBy ", ".toList ((first :: later).map chars) ++ ">".toList ++ (blanks ++ rest)) := by
    refine symbol_accepts_tight "<" (by decide) (List.forall_mem_nil _) ?_
    rw [List.map_cons, separatedBy, List.append_assoc, List.append_assoc]
    exact (hstarts first (by simp)).stopsAt_isSpace _
  have hinner : (separated nested).Accepts (separatedBy ", ".toList ((first :: later).map chars))
      ((first :: later).map voidResults) (">".toList ++ (blanks ++ rest)) := by
    refine separated_accepts (fun argument hmem b r hfollowed => ?_) ?_ (by decide) (by decide) _
    · exact hreads argument hmem b r ((hfollowed.ends (by decide)).mono (by decide))
    · exact fun argument hmem => (hstarts argument (List.mem_cons_of_mem _ hmem)).stopsAt_isSpace
  have hclose : (symbol ">").AcceptsLoosely ">".toList ">" blanks rest :=
    symbol_acceptsLoosely ">" (by decide) (List.forall_mem_nil _) hblanks hrest
  exact AcceptsLoosely.bind (s := "<".toList) hopen (AcceptsLoosely.bind hinner hclose.bind_pure)

/-- A part of a name is read with its arguments if they are. -/
theorem segment_accepts [Forward nested] {part : TypeSegment SwiftType}
    (hname : identifier.consumes part.name = true)
    (hstarts : ∀ argument ∈ part.arguments, StartsType argument.chars)
    (hreads : ∀ argument ∈ part.arguments, Reads nested argument) {lead blanks rest : List Char}
    (hlead : ∀ x ∈ lead, isSpace x = true) (hfollowed : Followed nominalMarks blanks rest) :
    (segment nested).AcceptsLoosely (lead ++ segmentChars part) (part.map voidResults)
      blanks rest := by
  obtain ⟨title, arguments⟩ := part
  have hword : StopsAt isWordChar (argumentChars arguments ++ (blanks ++ rest)) :=
    stopsAt_append (detached_argumentChars arguments).word
      (hfollowed.stopsAt_isWordChar (List.Subset.refl _))
  have hnamed : name.Accepts (lead ++ title.toList) title
      (argumentChars arguments ++ (blanks ++ rest)) := by
    have haccepts := name_accepts hlead (consumes_identifier_iff.1 hname) hword
    rwa [String.ofList_toList] at haccepts
  rw [segmentChars, ← List.append_assoc]
  refine AcceptsLoosely.bind hnamed ?_
  cases arguments with
  | nil =>
    have hnone : (Grammar.genericArguments nested).Rejects (blanks ++ rest) :=
      (hfollowed.symbol_rejects (List.Subset.refl _) "<" rfl (by decide)).bind _
    exact (hnone.option []).bind_pure.loosely
  | cons first later =>
    have harguments := genericArguments_accepts hstarts hreads hfollowed.blank
      (hfollowed.stopsAt_isSpace (List.Subset.refl _))
    exact (harguments.orElse _).bind_pure

/-- A nominal type is read up to what can neither be another segment of it nor its arguments. -/
theorem nominal_accepts [Forward nested] {segments : List (TypeSegment SwiftType)}
    (hwell : WellFormed (.nominal segments))
    (hstarts : ∀ argument ∈ parts (.nominal segments), StartsType argument.chars)
    (hreads : ∀ argument ∈ parts (.nominal segments), Reads nested argument)
    {lead blanks rest : List Char} (hlead : ∀ x ∈ lead, isSpace x = true)
    (hends : Ends nominalMarks blanks rest) :
    (Grammar.nominal nested).AcceptsLoosely (lead ++ chars (.nominal segments))
      (.nominal (segments.map (TypeSegment.map voidResults))) blanks rest := by
  obtain ⟨hne, hnames, -⟩ := hwell
  obtain ⟨first, later, rfl⟩ := List.exists_cons_of_ne_nil hne
  have := advances_token "." (by decide)
  have : Advances (token "." >>= fun _ => segment nested) := Advances.bind
  have hsegment : ∀ part ∈ first :: later, ∀ lead, (∀ x ∈ lead, isSpace x = true) → ∀ b r,
      Followed nominalMarks b r → (segment nested).AcceptsLoosely (lead ++ segmentChars part)
        (part.map voidResults) b r := by
    intro part hpart lead hlead b r hfollowed
    have hmem : ∀ argument ∈ part.arguments, argument ∈ parts (.nominal (first :: later)) :=
      fun argument hargument => List.mem_flatMap.2 ⟨part, hpart, hargument⟩
    exact segment_accepts (hnames part hpart) (fun argument h => hstarts argument (hmem argument h))
      (fun argument h => hreads argument (hmem argument h)) hlead hfollowed
  have hstep : ∀ part ∈ later, ∀ left, left <:+ [] → ∀ b r, Followed nominalMarks b r →
      (token "." >>= fun _ => segment nested).AcceptsLoosely
        (left ++ (".".toList ++ segmentChars part)) (part.map voidResults) b r := by
    intro part hpart left hleft b r hfollowed
    obtain rfl := List.suffix_nil.1 hleft
    exact AcceptsLoosely.bind (s := ".".toList) (token_accepts "." _)
      (hsegment part (List.mem_cons_of_mem _ hpart) [] (List.forall_mem_nil _) b r hfollowed)
  have hstop : ∀ left, left <:+ blanks →
      (token "." >>= fun _ => segment nested).Rejects (left ++ rest) :=
    fun left hleft => (hends.suffix hleft).dot_rejects fun tail =>
      (name_rejects (stopsAt_cons.2 rfl)).bind _
  have hchain := chain_acceptsLoosely segmentChars (TypeSegment.map voidResults) [] ".".toList
    (fun _ => Followed nominalMarks) (f := fun head tail => SwiftType.nominal (head :: tail))
    (hsegment first (by simp) lead hlead) hstep
    (fun _ _ r => followed_cons (List.forall_mem_nil _) (by decide)) (fun _ _ => hends.toFollowed)
    hstop
  rw [chars_nominal, List.map_cons, separatedBy, List.flatMap_map, ← List.append_assoc]
  exact hchain

end TypeScribe.SwiftType
