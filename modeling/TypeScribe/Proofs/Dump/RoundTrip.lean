import TypeScribe.Proofs.Dump.Attributes
import TypeScribe.Proofs.Parser.Bounds

/-!
# Reading back what is printed

From each of its texts a printable node is read back as itself (`parse_of_written`). An entry is
read as an attribute, a node or a token, in this order, which its first character decides
(`entryOf_accepts`). What a declaration at the end of an entry needs to know of the next item is
that it starts neither with a signature nor with a substitution (`WrittenItems.rejects`). The
repetition over the entries then goes from item to item (`entries_repeats`), and the nesting of
nodes is followed by induction on the depth that is left (`nodeWithin_accepts`).
-/

namespace TypeScribe.Dump

open TypeScribe.Parser
open TypeScribe.Dump.Grammar

/-! ## How entries start -/

/-- An attribute is a keyword, with a value behind it or without one. -/
theorem Attribute.Printable.exists_keyword {value : Attribute} (h : value.Printable) :
    ∃ keyword more, value.text.toList = keyword ++ more ∧ IsKeyword keyword ∧
      (more = [] ∨ ∃ rest, more = '=' :: rest) := by
  have hlabel : ∀ (label : String) (rest : List Char), IsKeyword label.toList →
      value.text.toList = label.toList ++ '=' :: rest →
      ∃ keyword more, value.text.toList = keyword ++ more ∧ IsKeyword keyword ∧
        (more = [] ∨ ∃ rest, more = '=' :: rest) :=
    fun label rest hkeyword htext => ⟨_, '=' :: rest, htext, hkeyword, .inr ⟨rest, rfl⟩⟩
  cases value with
  | range stretch =>
    exact hlabel "range" stretch.text.toList (by decide) (by simp [Attribute.text])
  | type name =>
    exact hlabel "type" ('\'' :: name.toList ++ ['\'']) (by decide)
      (by simp [Attribute.text])
  | location point =>
    exact hlabel "location" point.text.toList (by decide) (by simp [Attribute.text])
  | nothrow => exact ⟨_, [], (List.append_nil _).symm, by decide, .inl rfl⟩
  | decl reference =>
    exact hlabel "decl" reference.text.toList (by decide) (by simp [Attribute.text])
  | unknown keyword value =>
    cases value with
    | none => exact ⟨keyword.toList, [], (List.append_nil _).symm, h.1, .inl rfl⟩
    | some value => exact hlabel keyword value.toList h.1 (by simp [Attribute.text])

/-- An attribute starts with a character of a word. -/
theorem Attribute.Printable.exists_cons {value : Attribute} (h : value.Printable) :
    ∃ x rest, value.text.toList = x :: rest ∧ isWordChar x = true := by
  obtain ⟨keyword, more, htext, hkeyword, -⟩ := h.exists_keyword
  cases keyword with
  | nil => exact hkeyword.elim
  | cons x keyword => exact ⟨x, keyword ++ more, htext, hkeyword.1⟩

/-- An attribute does not start like a signature, since the keyword is not followed by a dot. -/
theorem Attribute.Printable.declSignature_rejects {value : Attribute} {after : List Char}
    (h : value.Printable) (hafter : EntryEnd after) :
    declSignature.Rejects (value.text.toList ++ after) := by
  obtain ⟨keyword, more, htext, hkeyword, hmore⟩ := h.exists_keyword
  have hdot : '.' ∉ keyword := IsKeyword.notMem hkeyword rfl
  have hstop : StopsAt (fun x => isKeywordChar x || x == '.') (more ++ after) := by
    rcases hmore with rfl | ⟨rest, rfl⟩
    · exact hafter.stopsAt rfl rfl rfl
    · exact stopsAt_cons.2 rfl
  rw [htext, List.append_assoc]
  refine Grammar.declSignature_rejects fun s rest heq hs => ?_
  obtain @⟨head, first, later, hhead, -, -⟩ := hs
  rw [List.append_assoc] at heq
  obtain ⟨m, rfl, hm⟩ := append_eq_append_cons heq hdot
  rw [hm] at hstop
  cases m with
  | nil =>
    have hx := stopsAt_cons.1 hstop
    cases hx
  | cons x m =>
    have hx := IsKeyword.forall_isKeywordChar hhead x (by simp)
    have hx' := stopsAt_cons.1 hstop
    rw [hx] at hx'
    cases hx'

theorem toList_text_singleQuoted (text : String) :
    (Token.singleQuoted text).text.toList = '\'' :: text.toList ++ ['\''] := by
  simp [Token.text]

theorem toList_text_doubleQuoted (text : String) :
    (Token.doubleQuoted text).text.toList = '"' :: text.toList ++ ['"'] := by
  simp [Token.text]

/-- A token starts with a character that no keyword starts with. -/
theorem Token.Printable.exists_cons {value : Token} (h : value.Printable) :
    ∃ x rest, value.text.toList = x :: rest ∧ isWordChar x = false ∧ isRawChar x = true := by
  cases value with
  | singleQuoted text => exact ⟨'\'', _, toList_text_singleQuoted text, by decide⟩
  | doubleQuoted text => exact ⟨'"', _, toList_text_doubleQuoted text, by decide⟩
  | raw text =>
    obtain ⟨hraw, hstop⟩ := h
    show ∃ x rest, text.toList = x :: rest ∧ _
    cases htext : text.toList with
    | nil => rw [htext] at hraw; exact hraw.elim
    | cons x rest =>
      rw [htext] at hraw hstop
      exact ⟨x, rest, rfl, stopsAt_cons.1 hstop, isRawChar_of_isRawStart hraw.1⟩

/-- Every entry starts with a character that is neither blank nor the end of the node around it. -/
theorem Written.exists_cons {entry : Entry} {text : List Char} (h : Written entry text)
    (hprintable : entry.Printable) :
    ∃ x rest, text = x :: rest ∧ isSpace x = false ∧ x ≠ ')' := by
  cases h with
  | attr value =>
    rw [Entry.Printable] at hprintable
    obtain ⟨x, rest, htext, hx⟩ := hprintable.exists_cons
    refine ⟨x, rest, htext, isSpace_of_isWordChar hx, ?_⟩
    rintro rfl
    exact absurd hx (by decide)
  | token value =>
    rw [Entry.Printable] at hprintable
    obtain ⟨x, rest, htext, -, hx⟩ := hprintable.exists_cons
    simp only [isRawChar, Bool.and_eq_true, Bool.not_eq_true', bne_iff_ne] at hx
    exact ⟨x, rest, htext, hx.1.1, hx.2⟩
  | node _ _ _ => exact ⟨'(', _, rfl, rfl, by decide⟩

/-- A printable entry does not start with a blank. -/
theorem Written.stopsAt_isSpace {entry : Entry} {text : List Char} (h : Written entry text)
    (hprintable : entry.Printable) (after : List Char) : StopsAt isSpace (text ++ after) := by
  obtain ⟨x, rest, rfl, hx, -⟩ := h.exists_cons hprintable
  exact stopsAt_cons.2 hx

/-- No entry starts like a signature. -/
theorem Written.declSignature_rejects {entry : Entry} {text after : List Char}
    (h : Written entry text) (hprintable : entry.Printable) (hafter : EntryEnd after) :
    declSignature.Rejects (text ++ after) := by
  cases h with
  | attr value =>
    rw [Entry.Printable] at hprintable
    exact hprintable.declSignature_rejects hafter
  | token value =>
    rw [Entry.Printable] at hprintable
    obtain ⟨x, rest, htext, hx, -⟩ := hprintable.exists_cons
    rw [htext]
    exact (keyword_rejects (stopsAt_cons.2 hx)).bind _
  | node _ _ _ => exact (keyword_rejects (stopsAt_cons.2 rfl)).bind _

/-- An entry starts like a substitution only if it is raw text. -/
theorem Written.substitution_rejects {entry : Entry} {text after : List Char}
    (h : Written entry text) (hprintable : entry.Printable)
    (hstart : entry.startsSubstitution = false) (hafter : EntryEnd after) :
    substitution.Rejects (text ++ after) := by
  refine ((token_rejects ?_).bind _).slice
  cases h with
  | attr value =>
    rw [Entry.Printable] at hprintable
    obtain ⟨x, rest, htext, hx⟩ := hprintable.exists_cons
    rw [htext]
    rintro ⟨tail, heq⟩
    obtain ⟨rfl, -⟩ := List.cons.inj heq
    exact absurd hx (by decide)
  | token value =>
    intro hwith
    have hbefore := hafter.literal_before (by decide) hwith
    cases value with
    | singleQuoted text =>
      rw [toList_text_singleQuoted] at hbefore
      obtain ⟨tail, heq⟩ := hbefore
      exact absurd (List.cons.inj heq).1 (by decide)
    | doubleQuoted text =>
      rw [toList_text_doubleQuoted] at hbefore
      obtain ⟨tail, heq⟩ := hbefore
      exact absurd (List.cons.inj heq).1 (by decide)
    | raw text =>
      have htrue : "[with".toList.isPrefixOf text.toList = true :=
        List.isPrefixOf_iff_prefix.2 hbefore
      rw [Entry.startsSubstitution, htrue] at hstart
      cases hstart
  | node _ _ _ =>
    rintro ⟨tail, heq⟩
    exact absurd (List.cons.inj heq).1 (by decide)

/-- Only a double-quoted token starts like the value of a node. -/
theorem Written.stopsAt_quote {entry : Entry} {text : List Char} (h : Written entry text)
    (hprintable : entry.Printable) (hquoted : entry.isDoubleQuoted = false) (after : List Char) :
    StopsAt (· == '"') (text ++ after) := by
  cases h with
  | attr value =>
    rw [Entry.Printable] at hprintable
    obtain ⟨x, rest, htext, hx⟩ := hprintable.exists_cons
    rw [htext]
    exact stopsAt_beq_of_pos hx rfl _
  | token value =>
    cases value with
    | singleQuoted text =>
      rw [toList_text_singleQuoted]
      exact stopsAt_beq (by decide) _
    | doubleQuoted text => cases hquoted
    | raw text =>
      rw [Entry.Printable] at hprintable
      exact hprintable.1.stopsAt rfl after
  | node _ _ _ => exact stopsAt_beq (by decide) _

/-! ## Entries -/

/-- Where no character of a word stands, no attribute does. -/
theorem attr_rejects {text : List Char} (h : StopsAt isWordChar text) : attr.Rejects text := by
  have hlabel : ∀ {α : Type} {literal : String} {x : Char} (f : String → Parser α),
      literal.toList.head? = some x → isWordChar x = true → (token literal >>= f).Rejects text := by
    intro α literal x f hliteral hx
    refine (token_rejects_of_head hliteral ?_).bind f
    exact h.mono fun y hy => by rwa [beq_iff_eq.1 hy]
  have hknown : ∀ p ∈ knownRules, p.Rejects text := by
    refine forall_mem_knownRules.2 ⟨hlabel _ rfl ?_, hlabel _ rfl ?_, hlabel _ rfl ?_,
      hlabel _ rfl ?_, hlabel _ rfl ?_⟩ <;> decide
  have hunknown : unknown.Rejects text := (keyword_rejects h).bind _
  exact .choice (List.forall_mem_append.2 ⟨hknown, List.forall_mem_singleton.2 hunknown⟩)

/-- Every printable token is read back. -/
theorem nodeToken_accepts {value : Token} {after : List Char} (h : value.Printable)
    (hafter : EntryEnd after) : nodeToken.Accepts value.text.toList value after := by
  cases value with
  | singleQuoted text =>
    have htext := quoted_accepts (quotable_of_notMem h) after
    rw [String.ofList_toList] at htext
    rw [toList_text_singleQuoted]
    exact (htext.map Token.singleQuoted).choice_head _
  | doubleQuoted text =>
    have htext := quoted_accepts h after
    rw [String.ofList_toList] at htext
    rw [toList_text_doubleQuoted]
    refine .choice_tail ((quoted_rejects (stopsAt_beq (by decide) _)).map _) ?_
    exact (htext.map Token.doubleQuoted).choice_head _
  | raw text =>
    have htext := rawText_accepts h.1 (hafter.stopsAt rfl rfl rfl)
    rw [String.ofList_toList] at htext
    refine .choice_tail ((quoted_rejects (h.1.stopsAt rfl after)).map _) ?_
    refine .choice_tail ((quoted_rejects (h.1.stopsAt rfl after)).map _) ?_
    exact (htext.map Token.raw).choice_head _

/-- What is asked of the parser for the nodes below a node: it reads back those among the entries,
and fails where no node stands. -/
structure ReadsNodes (node : Parser RawNode) (entries : List Entry) : Prop where
  accepts : ∀ {raw : RawNode} {text after : List Char}, raw.toEntry ∈ entries →
    Written raw.toEntry text → raw.toEntry.Printable → EntryEnd after → node.Accepts text raw after
  rejects : ∀ {text : List Char}, StopsAt (· == '(') text → node.Rejects text

/-- Every printable entry is read back, if nodes are. -/
theorem entryOf_accepts {node : Parser RawNode} {entries : List Entry} {entry : Entry}
    {text blanks rest : List Char} (hnode : ReadsNodes node entries) (hmem : entry ∈ entries)
    (h : Written entry text) (hprintable : entry.Printable)
    (hblanks : ∀ x ∈ blanks, isSpace x = true) (hstop : StopsAt isSpace rest)
    (hafter : EntryEnd (blanks ++ rest))
    (hopen : entry.endsOpen = true → declSignature.Rejects rest ∧ substitution.Rejects rest) :
    (entryOf node).AcceptsLoosely text entry blanks rest := by
  have hwritten := h
  cases h with
  | attr value =>
    rw [Entry.Printable] at hprintable
    exact ((attr_accepts hprintable hblanks hstop hafter hopen).map Entry.attr).orElse _
  | token value =>
    rw [Entry.Printable] at hprintable
    have haccepts := nodeToken_accepts hprintable hafter
    obtain ⟨x, tail, htext, hword, hraw⟩ := hprintable.exists_cons
    rw [htext] at haccepts ⊢
    refine .orElse_of_rejects ((attr_rejects (stopsAt_cons.2 hword)).map _) ?_
    refine .orElse_of_rejects ((hnode.rejects (stopsAt_beq_of_pos hraw rfl _)).map _) ?_
    exact (haccepts.map Entry.token).loosely
  | @node name value entries _ _ _ _ _ _ =>
    have haccepts : node.Accepts _ ⟨name, value, entries⟩ (blanks ++ rest) :=
      hnode.accepts hmem hwritten hprintable hafter
    refine .orElse_of_rejects ((attr_rejects (stopsAt_cons.2 rfl)).map _) ?_
    exact ((haccepts.map RawNode.toEntry).orElse _).loosely

/-! ## The entries of a node -/

/-- A gap consists of blanks. -/
theorem IsGap.forall_isSpace {gap : List Char} (h : IsGap gap) : ∀ x ∈ gap, isSpace x = true := by
  cases gap with
  | nil => exact h.elim
  | cons x gap =>
    obtain ⟨hx, hgap⟩ := h
    refine List.forall_mem_cons.2 ⟨?_, hgap⟩
    rcases hx with rfl | rfl <;> rfl

/-- An entry may end before a gap. -/
theorem IsGap.entryEnd {gap : List Char} (h : IsGap gap) (after : List Char) :
    EntryEnd (gap ++ after) := by
  cases gap with
  | nil => exact h.elim
  | cons x gap => exact .gap h.1

/-- The end of a node, perhaps with a gap before it, and what follows the node. -/
structure NodeEnd (more after : List Char) : Prop where
  entryEnd : EntryEnd more
  close : more.dropWhile isSpace = ')' :: after

/-- A node may end behind a gap or none. -/
theorem nodeEnd_of_gap {tail after : List Char} (htail : tail = [] ∨ IsGap tail)
    (hafter : EntryEnd after) : NodeEnd (tail ++ ')' :: after) after := by
  rcases htail with rfl | hgap
  · exact ⟨.close hafter, rfl⟩
  · refine ⟨hgap.entryEnd _, ?_⟩
    exact (takeWhile_append_of_stopsAt hgap.forall_isSpace (stopsAt_cons.2 rfl)).2

/-- An entry may end before the items that follow it. -/
theorem WrittenItems.entryEnd {entries : List Entry} {items more : List Char}
    (h : WrittenItems entries items) (hmore : EntryEnd more) : EntryEnd (items ++ more) := by
  cases h with
  | nil => exact hmore
  | cons hgap _ _ =>
    rw [List.append_assoc]
    exact hgap.entryEnd _

/-- Behind the gap before an item the item starts. -/
theorem dropWhile_gap {gap text more : List Char} {entry : Entry} (hgap : IsGap gap)
    (h : Written entry text) (hprintable : entry.Printable) :
    (gap ++ text ++ more).dropWhile isSpace = text ++ more := by
  rw [List.append_assoc]
  exact (takeWhile_append_of_stopsAt hgap.forall_isSpace (h.stopsAt_isSpace hprintable more)).2

/-- A declaration ends before the next item, or before the end of the node. -/
theorem WrittenItems.rejects {entries : List Entry} {items more after : List Char}
    (h : WrittenItems entries items) (hprintable : Entry.AllPrintable entries)
    (hnext : ∀ next ∈ entries.head?, next.startsSubstitution = false) (hend : NodeEnd more after) :
    declSignature.Rejects ((items ++ more).dropWhile isSpace) ∧
      substitution.Rejects ((items ++ more).dropWhile isSpace) := by
  cases h with
  | nil =>
    rw [List.nil_append, hend.close]
    refine ⟨(keyword_rejects (stopsAt_cons.2 rfl)).bind _, ?_⟩
    exact ((token_rejects_of_head rfl (stopsAt_beq (by decide) _)).bind _).slice
  | @cons entry entries gap text items hgap hentry hitems =>
    rw [Entry.AllPrintable] at hprintable
    have hafter := hitems.entryEnd hend.entryEnd
    rw [← List.append_assoc, List.append_assoc (gap ++ text),
      dropWhile_gap hgap hentry hprintable.1]
    exact ⟨hentry.declSignature_rejects hprintable.1 hafter,
      hentry.substitution_rejects hprintable.1 (hnext entry rfl) hafter⟩

/-- The first item, or the end of the node, does not start like the value of the node. -/
theorem WrittenItems.stopsAt_quote {entries : List Entry} {items more after : List Char}
    (h : WrittenItems entries items) (hprintable : Entry.AllPrintable entries)
    (hfirst : ∀ first ∈ entries.head?, first.isDoubleQuoted = false) (hend : NodeEnd more after) :
    StopsAt (· == '"') ((items ++ more).dropWhile isSpace) := by
  cases h with
  | nil =>
    rw [List.nil_append, hend.close]
    exact stopsAt_beq (by decide) _
  | @cons entry entries gap text items hgap hentry hitems =>
    rw [Entry.AllPrintable] at hprintable
    rw [← List.append_assoc, List.append_assoc (gap ++ text),
      dropWhile_gap hgap hentry hprintable.1]
    exact hentry.stopsAt_quote hprintable.1 (hfirst entry rfl) _

/-- One entry with the blanks around it. -/
def entryStep (node : Parser RawNode) : Parser Entry := do
  skipSpaces
  let entry ← entryOf node
  skipSpaces
  return entry

/-- An entry is read with the blanks around it, up to the next item. -/
theorem entryStep_accepts {node : Parser RawNode} {entry : Entry} {entries : List Entry}
    {lead text items more after : List Char} (hnode : ReadsNodes node (entry :: entries))
    (hentry : Written entry text) (hitems : WrittenItems entries items)
    (hprintable : Entry.AllPrintable (entry :: entries)) (hend : NodeEnd more after)
    (hlead : ∀ x ∈ lead, isSpace x = true) :
    (entryStep node).Accepts (lead ++ (text ++ (items ++ more).takeWhile isSpace)) entry
      ((items ++ more).dropWhile isSpace) := by
  rw [Entry.AllPrintable] at hprintable
  obtain ⟨hfirst, hneighbour, hlater⟩ := hprintable
  have hopen := fun hopen : entry.endsOpen = true =>
    hitems.rejects hlater (fun next hnext => hneighbour next hnext hopen) hend
  have hafter := hitems.entryEnd hend.entryEnd
  have hblanks : ∀ x ∈ (items ++ more).takeWhile isSpace, isSpace x = true :=
    fun _ hx => List.mem_takeWhile_imp hx
  have hstop := stopsAt_dropWhile isSpace (items ++ more)
  rw [← List.takeWhile_append_dropWhile (p := isSpace) (l := items ++ more)] at hafter
  obtain ⟨taken, left, htaken, haccepts⟩ :=
    entryOf_accepts hnode List.mem_cons_self hentry hfirst hblanks hstop hafter hopen
  have hleft : ∀ x ∈ left, isSpace x = true := by
    intro x hx
    refine hblanks x ?_
    rw [htaken]
    exact List.mem_append_right _ hx
  rw [htaken, ← List.append_assoc text]
  refine (skipSpaces_accepts hlead ?_).bind ?_
  · rw [List.append_assoc, List.append_assoc]
    exact hentry.stopsAt_isSpace hfirst _
  · exact haccepts.bind (skipSpaces_accepts hleft hstop).bind_pure

/-- At the end of a node no further entry is read. -/
theorem entryStep_rejects {node : Parser RawNode} {entries : List Entry} {lead after : List Char}
    (hnode : ReadsNodes node entries) (hlead : ∀ x ∈ lead, isSpace x = true) :
    (entryStep node).Rejects (lead ++ ')' :: after) := by
  have htoken : nodeToken.Rejects (')' :: after) := by
    refine .choice ?_
    simp only [List.forall_mem_cons, List.not_mem_nil, false_imp_iff, implies_true, and_true]
    refine ⟨(quoted_rejects ?_).map _, (quoted_rejects ?_).map _, Rejects.map ?_ _⟩
    · exact stopsAt_beq (by decide) _
    · exact stopsAt_beq (by decide) _
    · exact (takeWhile1_rejects (stopsAt_cons.2 rfl) _).bind _
  have hentry : (entryOf node).Rejects (')' :: after) := by
    refine .orElse ((attr_rejects (stopsAt_cons.2 rfl)).map _) (.orElse ?_ ?_)
    · exact (hnode.rejects (stopsAt_beq (by decide) _)).map _
    · exact htoken.map _
  exact (skipSpaces_accepts hlead (stopsAt_cons.2 rfl)).bind_rejects (hentry.bind _)

/-- The entries are read one by one, from wherever in the gap before the first of them. -/
theorem entries_repeats {node : Parser RawNode} {entries : List Entry}
    {lead items more after : List Char} (hnode : ReadsNodes node entries)
    (h : WrittenItems entries items) (hprintable : Entry.AllPrintable entries)
    (hend : NodeEnd more after) (hlead : ∀ x ∈ lead, isSpace x = true) :
    ∃ blanks, (∀ x ∈ blanks, isSpace x = true) ∧
      Repeats (entryStep node) (lead ++ (items ++ more).dropWhile isSpace) entries
        (blanks ++ ')' :: after) := by
  induction entries generalizing lead items with
  | nil =>
    cases h
    refine ⟨lead, hlead, ?_⟩
    rw [List.nil_append, hend.close]
    exact .stop (entryStep_rejects hnode hlead)
  | cons entry entries ih =>
    obtain _ | @⟨_, _, gap, text, items, hgap, hentry, hitems⟩ := h
    have hstep := entryStep_accepts hnode hentry hitems hprintable hend hlead
    obtain ⟨hfirst, -, hlater⟩ := hprintable
    have hbelow : ReadsNodes node entries :=
      ⟨fun hmem => hnode.accepts (List.mem_cons_of_mem _ hmem), hnode.rejects⟩
    have hnil : ∀ x ∈ ([] : List Char), isSpace x = true := List.forall_mem_nil _
    obtain ⟨blanks, hblanks, hrepeats⟩ := ih hbelow hitems hlater hnil
    refine ⟨blanks, hblanks, ?_⟩
    have htext : (gap ++ (text ++ items) ++ more).dropWhile isSpace =
        text ++ (items ++ more).takeWhile isSpace ++ (items ++ more).dropWhile isSpace := by
      rw [← List.append_assoc, List.append_assoc (gap ++ text), dropWhile_gap hgap hentry hfirst,
        List.append_assoc text, List.takeWhile_append_dropWhile]
    rw [htext, ← List.append_assoc]
    refine .step hstep ?_ hrepeats
    obtain ⟨x, rest, rfl, -⟩ := hentry.exists_cons hfirst
    simp

/-! ## Nodes -/

/-- What is left of a node behind its value: the entries, and the end of the node. -/
def nodeRest (node : Parser RawNode) (name : String) (value : Option String) : Parser RawNode := do
  let entries ← many (entryStep node)
  skipSpaces
  let _ ← token ")"
  return ⟨name, value, entries⟩

/-- The entries are read up to the end of the node. -/
theorem nodeRest_accepts {node : Parser RawNode} {name : String} {value : Option String}
    {entries : List Entry} {text lead items more after : List Char}
    (hnode : ReadsNodes node entries) (h : WrittenItems entries items)
    (hprintable : Entry.AllPrintable entries) (hend : NodeEnd more after)
    (hlead : ∀ x ∈ lead, isSpace x = true)
    (htext : text ++ after = lead ++ (items ++ more).dropWhile isSpace) :
    (nodeRest node name value).Accepts text ⟨name, value, entries⟩ after := by
  obtain ⟨blanks, hblanks, hrepeats⟩ := entries_repeats hnode h hprintable hend hlead
  obtain ⟨read, heq, hmany⟩ := hrepeats.many
  obtain rfl : text = read ++ (blanks ++ [')']) := by
    rw [← List.append_left_inj after, htext, heq]
    simp
  refine Accepts.bind ?_ ((skipSpaces_accepts hblanks ?_).bind (token_accepts ")" _).bind_pure)
  · rwa [List.append_assoc]
  · exact stopsAt_cons.2 rfl

/-- Behind a text that is not blank, no blanks are dropped. -/
theorem dropWhile_append_of_mem {text : List Char} {x : Char} (hx : x ∈ text)
    (hspace : isSpace x = false) (after : List Char) :
    (text ++ after).dropWhile isSpace = text.dropWhile isSpace ++ after := by
  have hne : ¬(text.dropWhile isSpace).isEmpty = true := by
    rw [List.isEmpty_iff, List.dropWhile_eq_nil_iff]
    intro hall
    rw [hall x hx] at hspace
    cases hspace
  rw [List.dropWhile_append, if_neg hne]

/-- A node behind its name. -/
def nodeBody (node : Parser RawNode) (name : String) : Parser RawNode := do
  skipSpaces
  let value ← nodeValue
  nodeRest node name value

/-- The value and the entries are read up to the end of the node. -/
theorem nodeBody_accepts {node : Parser RawNode} {name : String} {value : Option String}
    {entries : List Entry} {quoted body items more after : List Char}
    (hnode : ReadsNodes node entries) (hquoted : WrittenValue value quoted)
    (hitems : WrittenItems entries items) (hprintable : (Entry.node name value entries).Printable)
    (hend : NodeEnd more after) (hbody : body ++ after = items ++ more) (hmem : ')' ∈ body) :
    (nodeBody node name).Accepts (quoted ++ body) ⟨name, value, entries⟩ after := by
  obtain ⟨-, hvalue, hfirst, hentries⟩ := hprintable
  cases hquoted with
  | none =>
    -- the blanks before the first item are skipped when the value is looked for
    have hdrop := dropWhile_append_of_mem hmem (by decide) after
    have hquote := hitems.stopsAt_quote hentries (hfirst rfl) hend
    rw [← hbody, hdrop] at hquote
    rw [List.nil_append, ← List.takeWhile_append_dropWhile (p := isSpace) (l := body)]
    refine (skipSpaces_accepts (fun _ hx => List.mem_takeWhile_imp hx) ?_).bind ?_
    · rw [← hdrop]
      exact stopsAt_dropWhile _ _
    refine Accepts.nil_bind (quoted_rejects hquote).option? ?_
    refine nodeRest_accepts hnode hitems hentries hend (List.forall_mem_nil _) ?_
    rw [← hdrop, hbody, List.nil_append]
  | @some gap value hgap =>
    have hvalue := quoted_accepts (hvalue value rfl) (body ++ after)
    have hblanks : ∀ x ∈ (items ++ more).takeWhile isSpace, isSpace x = true :=
      fun _ hx => List.mem_takeWhile_imp hx
    rw [String.ofList_toList] at hvalue
    rw [List.append_assoc]
    refine (skipSpaces_accepts hgap.forall_isSpace (stopsAt_cons.2 rfl)).bind ?_
    refine hvalue.option?.bind ?_
    refine nodeRest_accepts hnode hitems hentries hend hblanks ?_
    rw [hbody, List.takeWhile_append_dropWhile]

/-- A node is read back if the nodes below it are. -/
theorem nodeOf_accepts {node : Parser RawNode} {raw : RawNode} {text after : List Char}
    (hnode : ReadsNodes node raw.entries) (h : Written raw.toEntry text)
    (hprintable : raw.toEntry.Printable) (hafter : EntryEnd after) :
    (nodeOf node).Accepts text raw after := by
  obtain ⟨name, value, entries⟩ := raw
  obtain _ | _ | @⟨_, _, _, quoted, items, tail, hquoted, hitems, htail⟩ := h
  have hend := nodeEnd_of_gap htail hafter
  have hbody : items ++ (tail ++ [')']) ++ after = items ++ (tail ++ ')' :: after) := by simp
  have hstop : EntryEnd (quoted ++ (items ++ (tail ++ [')'])) ++ after) := by
    rw [List.append_assoc, hbody]
    cases hquoted with
    | none => exact hitems.entryEnd hend.entryEnd
    | some hgap =>
      rw [List.append_assoc]
      exact hgap.entryEnd _
  have hname := keyword_accepts hprintable.1 hstop.stopsAt_isKeywordChar
  rw [String.ofList_toList] at hname
  refine Accepts.bind (s := ['(']) (token_accepts "(" _) (hname.bind ?_)
  exact nodeBody_accepts hnode hquoted hitems hprintable hend hbody (by simp)

theorem nodeOf_rejects {node : Parser RawNode} {text : List Char} (h : StopsAt (· == '(') text) :
    (nodeOf node).Rejects text :=
  (token_rejects_of_head rfl h).bind _

/-- No entry is deeper than all of them. -/
theorem Entry.depth_le_depthAmong {entry : Entry} {entries : List Entry} (h : entry ∈ entries) :
    entry.depth ≤ Entry.depthAmong entries := by
  induction entries with
  | nil => cases h
  | cons first rest ih =>
    rw [Entry.depthAmong]
    rcases List.mem_cons.1 h with rfl | h
    · exact Nat.le_max_left _ _
    · exact le_trans (ih h) (Nat.le_max_right _ _)

/-- Nodes are read back as deep as the parser goes; one level is left for the entries that are no
nodes, on which the parser for nodes is tried as well. -/
theorem nodeWithin_accepts {depth : Nat} {raw : RawNode} {text after : List Char}
    (h : Written raw.toEntry text) (hprintable : raw.toEntry.Printable)
    (hdepth : raw.toEntry.depth ≤ depth) (hafter : EntryEnd after) :
    (nodeWithin (depth + 1)).Accepts text raw after := by
  induction depth generalizing raw text after with
  | zero =>
    rw [RawNode.toEntry, Entry.depth] at hdepth
    omega
  | succ depth ih =>
    rw [RawNode.toEntry, Entry.depth] at hdepth
    have hnode : ReadsNodes (nodeWithin (depth + 1)) raw.entries := by
      refine ⟨fun hmem hbelow hprintable hafter => ?_, nodeOf_rejects⟩
      have hle := Entry.depth_le_depthAmong hmem
      exact ih hbelow hprintable (by omega) hafter
    exact nodeOf_accepts hnode h hprintable hafter

/-! ## Whole dumps -/

/-- Decoding undoes encoding: a printable node is read back from each of its texts, if the call
stack has room for more levels than the node has. -/
theorem parse_of_written [CallStack] {raw : RawNode} {text : String}
    (h : Written raw.toEntry text.toList) (hprintable : raw.toEntry.Printable)
    (hdepth : raw.toEntry.depth < CallStack.nodes) :
    RawNode.parse text = .ok raw := by
  obtain ⟨depth, hroom⟩ := Nat.exists_eq_add_one_of_ne_zero (Nat.ne_zero_of_lt hdepth)
  have hnode : node.Accepts text.toList raw [] := by
    rw [node, hroom]
    exact nodeWithin_accepts h hprintable (by omega) .nil
  have hend : endOfInput.Accepts [] () [] := fun _ => rfl
  have hdocument : document.Accepts text.toList raw [] := by
    have hstart := h.stopsAt_isSpace hprintable []
    refine (skipSpaces_accepts (List.forall_mem_nil _) hstart).nil_bind ?_
    refine hnode.bind_nil ?_
    refine (skipSpaces_accepts (List.forall_mem_nil _) (stopsAt_nil _)).nil_bind ?_
    exact hend.bind_pure
  have hok := hdocument 0
  rw [List.append_nil] at hok
  rw [RawNode.parse, Cursor.start, hok]

/-- A tree in which a raw text follows a substitution and a declaration ends before a node, over
several lines. -/
theorem parse_of_written_lines :
    letI := CallStack.uniform 4
    RawNode.parse "(func \"f\"\n  decl=A.b [with x] [with (call k=c.d (e))\n)" =
      .ok ⟨"func", some "f", [.attr (.decl ⟨"A.b", some "[with x]"⟩), .token (.raw "[with"),
        .node "call" none [.attr (.unknown "k" (some "c.d")), .node "e" none []]]⟩ := by
  let _ := CallStack.uniform 4
  have hleaf : Written (.node "e" none []) _ := .node .none .nil (.inl rfl)
  have hcall : Written (.node "call" none [.attr (.unknown "k" (some "c.d")),
      .node "e" none []]) _ :=
    .node .none (.cons isGap_space (.attr _) (.cons isGap_space hleaf .nil)) (.inl rfl)
  have hlines : IsGap ['\n', ' ', ' '] ∧ IsGap ['\n'] :=
    ⟨⟨.inr rfl, by simp [isSpace]⟩, .inr rfl, List.forall_mem_nil _⟩
  have hfunc : Written (.node "func" (some "f") [.attr (.decl ⟨"A.b", some "[with x]"⟩),
      .token (.raw "[with"), .node "call" none [.attr (.unknown "k" (some "c.d")),
        .node "e" none []]]) _ :=
    .node (.some isGap_space) (.cons hlines.1 (.attr _) (.cons isGap_space (.token _)
      (.cons isGap_space hcall .nil))) (.inr hlines.2)
  have hdecl : (Decl.mk "A.b" (some "[with x]")).Printable := by
    refine ⟨⟨["A.b"], by decide +kernel⟩, ?_⟩
    rintro _ ⟨⟩
    decide +kernel
  have hraw : (Token.raw "[with").Printable :=
    ⟨by decide, stopsAt_cons.2 rfl⟩
  have hunknown : (Attribute.unknown "k" (some "c.d")).Printable := by
    refine ⟨by decide, by decide, ?_⟩
    rintro _ ⟨⟩
    exact ⟨⟨by decide +kernel, rfl, by decide, by decide⟩, by simp, by simp, by simp, by simp⟩
  refine parse_of_written (Eq.mp (congrArg (Written _) ?_) hfunc) ?_ (by decide)
  · decide
  -- the conditions on neighbours hold because of what the neighbours are
  · have hleaf' : (Entry.node "e" none []).Printable := ⟨by decide, by simp, by simp, trivial⟩
    have hcall' : (Entry.node "call" none [.attr (.unknown "k" (some "c.d")),
        .node "e" none []]).Printable := by
      refine ⟨by decide, by simp, ?_, hunknown, ?_, hleaf', by simp, trivial⟩
      · rintro - _ ⟨⟩
        rfl
      · rintro _ ⟨⟩ -
        rfl
    refine ⟨by decide, ?_, by simp, hdecl, ?_, hraw, ?_, hcall', by simp, trivial⟩
    · rintro _ ⟨⟩
      decide
    · rintro _ ⟨⟩ ⟨⟩
    · rintro _ ⟨⟩ ⟨⟩

/-- Trees that are not printable, one for each of the conditions that the grammar does not show at
once: a negative line, a substitution and a value that their rules do not read as a whole, a keyword
with `nothrow` in front, a value with a blank behind it, an open bracket, an open quote, a value
that belongs to a rule of its own, one that the end of the node completes to such a value, a raw
text that is a keyword, and one that looks like a substitution. -/
def misread : List RawNode := [
  ⟨"n", none, [.attr (.location ⟨"f", -1, 2⟩)]⟩,
  ⟨"n", none, [.attr (.decl ⟨"A.b", some "[x]"⟩)]⟩,
  ⟨"n", none, [.attr (.unknown "k" (some "a b"))]⟩,
  ⟨"n", none, [.attr (.unknown "nothrowing" none)]⟩,
  ⟨"n", none, [.attr (.unknown "k" (some "A.b "))]⟩,
  ⟨"n", none, [.attr (.unknown "k" (some "[a")), .token (.raw "]")]⟩,
  ⟨"n", none, [.attr (.unknown "k" (some "'a:1:2")), .token (.singleQuoted "x")]⟩,
  ⟨"n", none, [.attr (.unknown "type" (some "'Int'"))]⟩,
  ⟨"n", none, [.attr (.unknown "decl" (some "a.(x:1:2"))]⟩,
  ⟨"n", none, [.token (.raw "abc")]⟩,
  ⟨"n", none, [.attr (.decl ⟨"A.b", none⟩), .token (.raw "[with"), .token (.raw "]")]⟩]

/-- A tree whose line has too many digits for a numeral. -/
def farDown : RawNode := ⟨"n", none, [.attr (.location ⟨"f", ofAsciiDigits manyDigits, 2⟩)]⟩

/-- The node is printed with its line. -/
theorem text_located (line : Int) :
    (⟨"n", none, [.attr (.location ⟨"f", line, 2⟩)]⟩ : RawNode).text =
      "(n location=f:" ++ toString line ++ ":2)" := by
  have hcolumn : toString (2 : Int) = "2" := rfl
  simp only [RawNode.text, RawNode.toEntry, Entry.text, Entry.texts, Attribute.text, Point.text,
    valueText, hcolumn, ← String.toList_inj]
  simp

/-- This tree is printed with as many digits as it has. -/
theorem text_farDown : farDown.text = atLine manyDigits := by
  have hdigits := isOverlong_manyDigits.isDigit
  have hline : toString (ofAsciiDigits manyDigits : Int) = String.ofList manyDigits := by
    refine String.toList_inj.1 (Eq.trans ?_ String.toList_ofList.symm)
    exact Nat.toList_repr.trans (toDigits_ofAsciiDigits (by decide) hdigits (by decide)).2
  exact (text_located _).trans (congrArg (fun line => "(n location=f:" ++ line ++ ":2)") hline)

/-- Nodes inside one another, each of them the only entry of the one around it. -/
def chain : Nat → RawNode
  | 0 => ⟨"n", none, []⟩
  | inner + 1 => ⟨"n", none, [(chain inner).toEntry]⟩

/-- A chain has one level for each of its nodes. -/
theorem depth_chain : ∀ n, (chain n).toEntry.depth = n + 1
  | 0 => rfl
  | n + 1 => by
    show max (chain n).toEntry.depth 0 + 1 = n + 2
    rw [depth_chain n, Nat.max_zero]

/-- At a parenthesis an entry is stopped as the node is that it may be. -/
theorem entryOf_stopsOn {node : Parser RawNode} {text : List Char} {stop : Stop}
    (hword : StopsAt isWordChar text) (h : node.StopsOn text stop) :
    (entryOf node).StopsOn text stop :=
  .orElse_of_rejects ((attr_rejects hword).map _) ((h.map _).orElse _)

/-- The innermost of as many nodes as are followed is too deep, because what stands in it is tried
as a node. -/
theorem nodeWithin_chain_stopsOn {depth n : Nat} (h : depth ≤ n + 1) (after : List Char) :
    (nodeWithin depth).StopsOn ((chain n).text.toList ++ after) .tooDeep := by
  induction n generalizing depth after with
  | zero =>
    cases depth with
    | zero => exact fun _ => rfl
    | succ depth =>
      obtain rfl : depth = 0 := by omega
      have hentry : (entryOf (nodeWithin 0)).StopsOn (')' :: after) .tooDeep :=
        entryOf_stopsOn (stopsAt_cons.2 rfl) fun _ => rfl
      have hnode : (nodeOf (nodeWithin 0)).StopsOn
          ("(".toList ++ ("n".toList ++ ([] ++ (')' :: after)))) .tooDeep :=
        nodeOf_stopsOn hentry (List.forall_mem_nil _) (stopsAt_cons.2 rfl) (stopsAt_cons.2 rfl)
          (stopsAt_cons.2 rfl)
      exact hnode
  | succ n ih =>
    cases depth with
    | zero => exact fun _ => rfl
    | succ depth =>
      have htext : (chain (n + 1)).text.toList ++ after = "(".toList ++ ("n".toList ++
          (" ".toList ++ ((chain n).text.toList ++ (')' :: after)))) := by
        simp [chain, RawNode.text, RawNode.toEntry, Entry.text, Entry.texts, valueText]
      obtain ⟨rest, hrest⟩ : ∃ rest, (chain n).text.toList ++ (')' :: after) = '(' :: rest := by
        cases n <;> simp [chain, RawNode.text, RawNode.toEntry, Entry.text]
      have hentry := entryOf_stopsOn (by rw [hrest]; exact stopsAt_cons.2 rfl)
        (ih (show depth ≤ n + 1 by omega) (')' :: after))
      rw [htext]
      refine nodeOf_stopsOn hentry isGap_space.forall_isSpace (stopsAt_cons.2 rfl) ?_ ?_ <;>
        rw [hrest] <;> exact stopsAt_cons.2 rfl

/-- Nodes inside one another are not read, if the call stack has room for no more levels. -/
theorem parse_chain [CallStack] {n : Nat} (h : CallStack.nodes ≤ n + 1) :
    RawNode.parse (chain n).text = .error (.malformed .tooDeep) := by
  have hnode := nodeWithin_chain_stopsOn h []
  rw [List.append_nil] at hnode
  have hstart : StopsAt isSpace (chain n).text.toList := by
    cases n <;> simp [chain, RawNode.text, RawNode.toEntry, Entry.text, StopsAt] <;> rfl
  have hdocument : document.StopsOn (chain n).text.toList .tooDeep :=
    (skipSpaces_accepts (List.forall_mem_nil _) hstart).bind_stopsOn (hnode.bind _)
  have hstopped := hdocument 0
  rw [RawNode.parse, Cursor.start, hstopped]

/-- They are read as other trees, or not at all; nor is a tree with a numeral that is too long, or
one with as many levels as the call stack has room for. -/
theorem parse_text_ne_of_misread :
    letI := CallStack.uniform 301
    ((farDown :: misread).Forall fun raw => raw.toEntry.depth ≤ 300 ∧
      Written raw.toEntry raw.text.toList ∧ RawNode.parse raw.text ≠ .ok raw) ∧
    letI := CallStack.uniform 91
    (chain 90).toEntry.depth ≤ 300 ∧ Written (chain 90).toEntry (chain 90).text.toList ∧
      RawNode.parse (chain 90).text ≠ .ok (chain 90) := by
  have hdepth : ∀ raw ∈ misread, raw.toEntry.depth ≤ 300 := by decide
  rw [List.forall_cons, List.forall_iff_forall_mem]
  refine ⟨⟨⟨by decide, written_text _, ?_⟩, fun raw hmem =>
    ⟨hdepth raw hmem, written_text _, fun hparse => ?_⟩⟩, ?_, written_text _, ?_⟩
  · let _ := CallStack.uniform 301
    rw [text_farDown, parse_atLine (show 0 < CallStack.nodes by decide) isOverlong_manyDigits]
    exact fun h => nomatch h
  · let _ := CallStack.uniform 301
    have hparts : ∀ raw ∈ misread, (RawNode.parse raw.text).toOption.map (fun found =>
        (found.entries.filterMap Entry.attr?, found.entries.filterMap Entry.token?)) ≠
          some (raw.entries.filterMap Entry.attr?, raw.entries.filterMap Entry.token?) := by
      decide +kernel
    refine hparts raw hmem ?_
    rw [hparse]
    rfl
  · rw [depth_chain]
    decide
  · let _ := CallStack.uniform 91
    rw [parse_chain (show CallStack.nodes ≤ 91 from Nat.le_refl _)]
    exact fun h => nomatch h

end TypeScribe.Dump
