import TypeScribe.Proofs.Dump.Printer
import TypeScribe.Proofs.Dump.Signatures

/-!
# Reading a dump loses nothing

Blanks apart, the text of a dump is the print of the node that is read from it
(`ink_eq_of_parse`). Every rule of the grammar is `Faithful`: the stretch that it reads has the ink
of what it answers. Numbers are the one place where the spelling is not kept, since the value of a
numeral forgets its leading zeros; texts in which a zero follows a colon are therefore left out
(`PlainNumbers`).
-/

namespace TypeScribe.Dump

open TypeScribe.Parser

namespace Grammar

/-- No colon is followed by a zero, so that no line or column has a leading one. -/
def PlainNumbers (text : List Char) : Prop := ¬":0".toList <:+: text

theorem PlainNumbers.of_infix {s t : List Char} (h : PlainNumbers t) (hs : s <:+: t) :
    PlainNumbers s :=
  fun hzero => h (hzero.trans hs)

theorem PlainNumbers.of_append {s t : List Char} (h : PlainNumbers (s ++ t)) :
    PlainNumbers s ∧ PlainNumbers t :=
  ⟨h.of_infix (List.prefix_append s t).isInfix, h.of_infix (List.suffix_append s t).isInfix⟩

/-- What the parser reads has the ink of the print of its value. -/
def Faithful {α : Type} (p : Parser α) (print : α → String) : Prop :=
  ∀ ⦃c next : Cursor⦄ ⦃value : α⦄, p c = .ok value next →
    ∃ text, c.Reads text next ∧ (PlainNumbers text → ink text = ink (print value).toList)

/-! ## Points and ranges -/

/-- A numeral after a colon is the print of its value. -/
theorem toList_toString_ofAsciiDigits {digits : List Char} (hdigits : IsNumeral digits)
    (h : PlainNumbers (':' :: digits)) :
    (toString (ofAsciiDigits digits : Int)).toList = digits := by
  have hzero : digits.head? ≠ some '0' := by
    intro hhead
    obtain ⟨rest, rfl⟩ := List.head?_eq_some_iff.1 hhead
    exact h ⟨[], rest, rfl⟩
  have hprint : (toString (ofAsciiDigits digits : Int)).toList =
      Nat.toDigits 10 (ofAsciiDigits digits) := Nat.toList_repr
  rw [hprint, (toDigits_ofAsciiDigits hdigits.ne_nil hdigits.isDigit hzero).2]

/-- Without leading zeros a point is read from its own text only. -/
theorem PointText.eq_text {text : List Char} {value : Point} (h : PointText text value)
    (hplain : PlainNumbers text) : text = value.text.toList := by
  obtain ⟨-, -, hline, hcolumn⟩ := h
  have hnumbers := hplain.of_append.2.of_append
  simp only [Point.text, String.toList_append, String.toList_ofList,
    toList_toString_ofAsciiDigits hline hnumbers.1,
    toList_toString_ofAsciiDigits hcolumn hnumbers.2]
  simp

/-- So is a range. -/
theorem RangeText.eq_text {text : List Char} {value : Range} (h : RangeText text value)
    (hplain : PlainNumbers text) : text = value.text.toList := by
  obtain ⟨hstart, hstop⟩ := h
  obtain ⟨hleft, hright⟩ := hplain.of_append
  have hs := hstart.eq_text (hleft.of_infix (List.suffix_cons _ _).isInfix)
  have ht := hstop.eq_text hright.of_append.1.of_append.2
  simp only [Range.text, String.toList_append, ← hs, ← ht]
  simp

/-! ## Declarations -/

/-- A parser that returns what it reads as written is faithful. -/
theorem faithful_of_reads {p : Parser String}
    (h : ∀ ⦃c next : Cursor⦄ ⦃value : String⦄, p c = .ok value next → c.Reads value.toList next) :
    Faithful p id :=
  fun _ _ _ hok => ⟨_, h hok, fun _ => rfl⟩

/-- Blanks around a faithful parser make no difference. -/
theorem Faithful.between_blanks {α : Type} {p : Parser α} {print : α → String}
    (h : Faithful p print) :
    Faithful (skipSpaces >>= fun _ => p >>= fun value => skipSpaces >>= fun _ => pure value)
      print := by
  intro c next value hok
  obtain ⟨_, c₁, hbefore, hok⟩ := bind_eq_ok hok
  obtain ⟨value', c₂, hp, hok⟩ := bind_eq_ok hok
  obtain ⟨_, c₃, hafter, hok⟩ := bind_eq_ok hok
  obtain ⟨rfl, rfl⟩ := pure_eq_ok hok
  obtain ⟨before, hreads, hblank⟩ := skipSpaces_reads hbefore
  obtain ⟨text, hreads', hink⟩ := h hp
  obtain ⟨after, hreads'', hblank'⟩ := skipSpaces_reads hafter
  refine ⟨_, (hreads.append hreads').append hreads'', fun hplain => ?_⟩
  rw [ink_append, ink_append, ink_eq_nil hblank, ink_eq_nil hblank',
    hink hplain.of_append.1.of_append.2]
  simp

/-- The ink of a repetition is the ink of its steps. -/
theorem ink_flatten {α : Type} {print : α → String} {values : List α} {texts : List (List Char)}
    (h : List.Forall₂ (fun value text => PlainNumbers text → ink text = ink (print value).toList)
      values texts) (hplain : PlainNumbers texts.flatten) :
    ink texts.flatten = (values.map fun value => ink (print value).toList).flatten := by
  induction h with
  | nil => rfl
  | cons hfirst _ ih =>
    rw [List.flatten_cons] at hplain ⊢
    rw [ink_append, hfirst hplain.of_append.1, ih hplain.of_append.2]
    rfl

/-- Spaces between texts leave no ink. -/
theorem ink_intercalate (texts : List String) :
    ink (String.intercalate " " texts).toList =
      (texts.map fun text => ink text.toList).flatten := by
  induction texts with
  | nil => rfl
  | cons first rest ih =>
    cases rest with
    | nil => simp
    | cons second rest =>
      rw [String.intercalate_cons_cons, String.toList_append, String.toList_append, ink_append,
        ink_append, ih, ink_space, List.append_nil]
      rfl

/-- What a declaration is read as has the ink of the text that is read. -/
theorem decl_faithful : Faithful decl Decl.text := by
  intro c next value h
  obtain ⟨signatures, c₁, hmany, h⟩ := bind_eq_ok h
  obtain ⟨_, c₂, hblanks, h⟩ := bind_eq_ok h
  obtain ⟨substitution?, c₃, hsubstitution, h⟩ := bind_eq_ok h
  obtain ⟨rfl, rfl⟩ := pure_eq_ok h
  have hsignature : Faithful declSignature id :=
    faithful_of_reads fun _ _ _ h => (declSignature_reads h).1
  obtain ⟨texts, -, hall, hreads⟩ := many1_reads hsignature.between_blanks hmany
  obtain ⟨blanks, hreads', hblank⟩ := skipSpaces_reads hblanks
  have hink : PlainNumbers texts.flatten →
      ink (texts.flatten ++ blanks) = ink (String.intercalate " " signatures).toList := by
    intro hplain
    rw [ink_append, ink_eq_nil hblank, List.append_nil, ink_flatten hall hplain, ink_intercalate]
    rfl
  rcases option?_eq_ok hsubstitution with ⟨found, rfl, hfound⟩ | ⟨rfl, rfl, -⟩
  · refine ⟨_, (hreads.append hreads').append (substitution_reads hfound).1, fun hplain => ?_⟩
    rw [ink_append, hink hplain.of_append.1.of_append.1, Decl.text, String.toList_append,
      String.toList_append, ink_append, ink_append, ink_space, List.append_nil]
  · exact ⟨_, hreads.append hreads', fun hplain => hink hplain.of_append.1⟩

/-! ## Attributes and tokens -/

/-- A value is kept as written. -/
theorem unknownValue_reads {c next : Cursor} {value : String}
    (h : unknownValue c = .ok value next) : c.Reads value.toList next := by
  refine choice_eq_ok_of_forall h ?_
  simp only [List.mem_cons, List.not_mem_nil, or_false]
  rintro p (rfl | rfl | rfl | rfl | rfl | rfl | rfl | rfl) hp
  · refine slice_reads (fun _ _ _ hok => ?_) hp
    obtain ⟨text, hreads, -⟩ := range_reads hok
    exact ⟨text, hreads⟩
  · exact slice_reads (fun _ _ _ hok => ⟨_, (quoted_reads hok).1⟩) hp
  · refine slice_reads (fun _ _ _ hok => ?_) hp
    obtain ⟨text, hreads, -⟩ := point_reads hok
    exact ⟨text, hreads⟩
  · refine slice_reads (fun _ _ _ hok => ?_) hp
    obtain ⟨text, hreads, -⟩ := elements_reads hok
    exact ⟨_, hreads⟩
  · refine slice_reads (fun _ _ _ hok => ?_) hp
    obtain ⟨text, hreads, -⟩ := decl_faithful hok
    exact ⟨text, hreads⟩
  · exact slice_reads (fun _ _ _ hok => ⟨_, (quoted_reads hok).1⟩) hp
  · exact slice_reads (fun _ _ _ hok => ⟨_, (group_reads hok).1⟩) hp
  · exact slice_reads (fun _ _ _ hok => ⟨_, (rawText_reads hok).1⟩) hp

/-- So has an attribute with an unknown keyword. -/
theorem unknown_faithful : Faithful unknown Attribute.text := by
  intro c next value h
  obtain ⟨name, c₁, hname, h⟩ := bind_eq_ok h
  obtain ⟨value?, c₂, hvalue, h⟩ := bind_eq_ok h
  obtain ⟨rfl, rfl⟩ := pure_eq_ok h
  obtain ⟨hreads, -⟩ := keyword_reads hname
  rcases option?_eq_ok hvalue with ⟨found, rfl, hfound⟩ | ⟨rfl, rfl, -⟩
  · obtain ⟨_, c₂, hequals, hfound⟩ := bind_eq_ok hfound
    obtain ⟨written, c₃, hwritten, hfound⟩ := bind_eq_ok hfound
    obtain ⟨rfl, rfl⟩ := pure_eq_ok hfound
    refine ⟨_, (hreads.append (token_reads hequals).1).append (unknownValue_reads hwritten),
      fun _ => ?_⟩
    simp only [Attribute.text, String.toList_append, String.toList_ofList, ink_append, ink_trimEnd]
  · exact ⟨_, hreads, fun _ => rfl⟩

/-- An attribute that is a label and a faithful text is faithful. -/
theorem Faithful.labelled {α : Type} {p : Parser α} {print : α → String} {label : String}
    {make : α → Attribute} (h : Faithful p print)
    (hmake : ∀ value, ink (make value).text.toList = ink label.toList ++ ink (print value).toList) :
    Faithful (token label >>= fun _ => p >>= fun value => pure (make value)) Attribute.text := by
  intro c next value hok
  obtain ⟨_, c₁, hlabel, hok⟩ := bind_eq_ok hok
  obtain ⟨found, c₂, hfound, hok⟩ := bind_eq_ok hok
  obtain ⟨rfl, rfl⟩ := pure_eq_ok hok
  obtain ⟨text, hreads, hink⟩ := h hfound
  refine ⟨_, (token_reads hlabel).1.append hreads, fun hplain => ?_⟩
  rw [ink_append, hink hplain.of_append.2, hmake]

/-- What an attribute is read as has the ink of the text that is read. -/
theorem attr_faithful : Faithful attr Attribute.text := by
  have hpoint : Faithful point Point.text := fun _ _ _ hok => by
    obtain ⟨text, hreads, htext⟩ := point_reads hok
    exact ⟨text, hreads, fun hplain => congrArg ink (htext.eq_text hplain)⟩
  have hrange : Faithful range Range.text := fun _ _ _ hok => by
    obtain ⟨text, hreads, htext⟩ := range_reads hok
    exact ⟨text, hreads, fun hplain => congrArg ink (htext.eq_text hplain)⟩
  have htype : Faithful typeName fun name => "'" ++ name ++ "'" := fun _ _ _ hok =>
    ⟨_, (quoted_reads hok).1, fun _ => by simp⟩
  intro c next value h
  refine choice_eq_ok_of_forall h ?_
  simp only [List.mem_cons, List.not_mem_nil, or_false]
  rintro p (rfl | rfl | rfl | rfl | rfl | rfl) hp
  · exact hrange.labelled (fun _ => by rw [Attribute.text, String.toList_append, ink_append]) hp
  · refine htype.labelled (fun name => ?_) hp
    rw [← ink_append, ← String.toList_append, Attribute.text]
    simp
  · exact hpoint.labelled (fun _ => by rw [Attribute.text, String.toList_append, ink_append]) hp
  · obtain ⟨_, c₁, hlabel, hp⟩ := bind_eq_ok hp
    obtain ⟨rfl, rfl⟩ := pure_eq_ok hp
    exact ⟨_, (token_reads hlabel).1, fun _ => rfl⟩
  · exact decl_faithful.labelled (fun _ => by rw [Attribute.text, String.toList_append, ink_append])
      hp
  · exact unknown_faithful hp

/-- So has a token. -/
theorem nodeToken_faithful : Faithful nodeToken Token.text := by
  intro c next value h
  refine choice_eq_ok_of_forall h ?_
  simp only [List.mem_cons, List.not_mem_nil, or_false]
  rintro p (rfl | rfl | rfl) hp
  · obtain ⟨text, hok, rfl⟩ := map_eq_ok hp
    exact ⟨_, (quoted_reads hok).1, fun _ => by simp [Token.text]⟩
  · obtain ⟨text, hok, rfl⟩ := map_eq_ok hp
    exact ⟨_, (quoted_reads hok).1, fun _ => by simp [Token.text]⟩
  · obtain ⟨text, hok, rfl⟩ := map_eq_ok hp
    exact ⟨_, (rawText_reads hok).1, fun _ => rfl⟩

/-! ## Nodes -/

/-- An entry is faithful if the nodes in it are. -/
theorem entryOf_faithful {node : Parser RawNode} (h : Faithful node RawNode.text) :
    Faithful (entryOf node) Entry.text := by
  intro c next value hok
  rcases orElse_eq_ok hok with hok | ⟨-, hok⟩
  · obtain ⟨found, hfound, rfl⟩ := map_eq_ok hok
    rw [Entry.text]
    exact attr_faithful hfound
  rcases orElse_eq_ok hok with hok | ⟨-, hok⟩
  · obtain ⟨found, hfound, rfl⟩ := map_eq_ok hok
    exact h hfound
  · obtain ⟨found, hfound, rfl⟩ := map_eq_ok hok
    rw [Entry.text]
    exact nodeToken_faithful hfound

/-- The ink of several entries is that of one after the other. -/
theorem ink_texts (entries : List Entry) :
    ink (Entry.texts entries).toList =
      (entries.map fun entry => ink entry.text.toList).flatten := by
  induction entries with
  | nil => rfl
  | cons entry rest ih =>
    rw [Entry.texts, String.toList_append, String.toList_append, ink_append, ink_append, ink_space,
      ih]
    rfl

/-- A node loses nothing, if the nodes below it lose nothing: what it reads are its name, its value
and its entries, with blanks between them. -/
theorem nodeOf_faithful {node : Parser RawNode} (h : Faithful node RawNode.text) :
    Faithful (nodeOf node) RawNode.text := by
  intro c next value hok
  obtain ⟨_, c₁, hopen, hok⟩ := bind_eq_ok hok
  obtain ⟨name, c₂, hname, hok⟩ := bind_eq_ok hok
  obtain ⟨_, c₃, hblanks, hok⟩ := bind_eq_ok hok
  obtain ⟨value?, c₄, hvalue, hok⟩ := bind_eq_ok hok
  obtain ⟨entries, c₅, hentries, hok⟩ := bind_eq_ok hok
  obtain ⟨_, c₆, hblanks', hok⟩ := bind_eq_ok hok
  obtain ⟨_, c₇, hclose, hok⟩ := bind_eq_ok hok
  obtain ⟨rfl, rfl⟩ := pure_eq_ok hok
  obtain ⟨before, hbefore, hblank⟩ := skipSpaces_reads hblanks
  obtain ⟨after, hafter, hblank'⟩ := skipSpaces_reads hblanks'
  obtain ⟨texts, hall, htexts⟩ := many_reads (entryOf_faithful h).between_blanks hentries
  have hquoted : ∃ text, c₃.Reads text c₄ ∧ ink text = ink (valueText value?).toList := by
    rcases option?_eq_ok hvalue with ⟨found, rfl, hfound⟩ | ⟨rfl, rfl, -⟩
    · refine ⟨_, (quoted_reads hfound).1, ?_⟩
      have hspace : ink " \"".toList = ink ['"'] := by decide
      have htext : (valueText (some found)).toList =
          " \"".toList ++ found.toList ++ "\"".toList := by
        rw [valueText, String.toList_append, String.toList_append]
      rw [htext, ink_append _ "\"".toList, ink_append _ found.toList, hspace, ← ink_append,
        ← ink_append]
      rfl
    · exact ⟨[], .nil _, rfl⟩
  obtain ⟨quoted, hquoted, hink⟩ := hquoted
  have hreads := (((((token_reads hopen).1.append (keyword_reads hname).1).append hbefore).append
    hquoted).append htexts).append (hafter.append (token_reads hclose).1)
  refine ⟨_, hreads, fun hplain => ?_⟩
  have hplain' := hplain.of_append.1.of_append.2
  simp only [RawNode.text, RawNode.toEntry, Entry.text, String.toList_append, ink_append,
    ink_eq_nil hblank, ink_eq_nil hblank', hink, ink_flatten hall hplain', ink_texts]
  simp

/-- A node is faithful, however deep nodes are followed. -/
theorem nodeWithin_faithful (depth : Nat) : Faithful (nodeWithin depth) RawNode.text := by
  induction depth with
  | zero => intro c next value hok; cases hok
  | succ depth ih => exact fun _ _ _ hok => nodeOf_faithful ih hok

/-- A document is read to its end, and faithfully. -/
theorem document_reads [CallStack] {c next : Cursor} {value : RawNode}
    (h : document c = .ok value next) :
    next.rest = [] ∧
      ∃ text, c.Reads text next ∧ (PlainNumbers text → ink text = ink value.text.toList) := by
  have hnode : Faithful node RawNode.text := nodeWithin_faithful CallStack.nodes
  obtain ⟨_, c₁, hbefore, h⟩ := bind_eq_ok h
  obtain ⟨root, c₂, hroot, h⟩ := bind_eq_ok h
  obtain ⟨_, c₃, hafter, h⟩ := bind_eq_ok h
  obtain ⟨_, c₄, hend, h⟩ := bind_eq_ok h
  obtain ⟨rfl, rfl⟩ := pure_eq_ok h
  obtain ⟨rfl, hrest⟩ := endOfInput_reads hend
  refine ⟨hrest, hnode.between_blanks (c := c) ?_⟩
  rw [bind_of_ok hbefore, bind_of_ok hroot, bind_of_ok hafter]
  rfl

end Grammar

/-! ## Dumps -/

/-- Reading a dump loses, doubles and moves nothing: without their blanks, the text and the print
of the node that is read from it are the same. -/
theorem ink_eq_of_parse [CallStack] {text : String} {raw : RawNode}
    (h : RawNode.parse text = .ok raw) (hplain : ¬":0".toList <:+: text.toList) :
    ink text.toList = ink raw.text.toList := by
  unfold RawNode.parse at h
  split at h
  · next root next hok =>
    cases h
    obtain ⟨hrest, read, hreads, hink⟩ := Grammar.document_reads hok
    rw [hreads.eq_of_start hrest] at hplain ⊢
    exact hink hplain
  · cases h
  · cases h
  · cases h

/-- A text that can be read and printed is that of a node. -/
theorem exists_of_text_parse [CallStack] {text printed : String}
    (h : (RawNode.parse text).toOption.map RawNode.text = some printed) :
    ∃ raw, RawNode.parse text = .ok raw ∧ raw.text = printed := by
  cases hparse : RawNode.parse text with
  | error reason => rw [hparse] at h; cases h
  | ok raw =>
    rw [hparse] at h
    exact ⟨raw, rfl, Option.some.inj h⟩

/-- Entries that touch, signatures that are joined and a value that loses the blanks behind it. -/
theorem ink_eq_of_parse_touching :
    letI := CallStack.uniform 2
    ∃ raw, RawNode.parse "(n decl=A.b()C.d\n[with x]'a'\"b\" k=A.b\t 1x)" = .ok raw ∧
      raw.text = "(n decl=A.b() C.d [with x] 'a' \"b\" k=A.b 1x)" ∧
      ink "(n decl=A.b()C.d\n[with x]'a'\"b\" k=A.b\t 1x)".toList = ink raw.text.toList := by
  let _ := CallStack.uniform 2
  have hparse : (RawNode.parse "(n decl=A.b()C.d\n[with x]'a'\"b\" k=A.b\t 1x)").toOption.map
      RawNode.text = some "(n decl=A.b() C.d [with x] 'a' \"b\" k=A.b 1x)" := by decide +kernel
  obtain ⟨raw, hok, htext⟩ := exists_of_text_parse hparse
  exact ⟨raw, hok, htext, ink_eq_of_parse hok (by decide +kernel)⟩

end TypeScribe.Dump
