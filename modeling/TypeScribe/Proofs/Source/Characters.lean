import TypeScribe.Proofs.Source.Splice

/-!
# Splicing bytes is splicing characters

Edits are spliced into the bytes of a file, and only the outcome is read as a text. Where every
edit starts and ends between two characters, that is as good as splicing the characters themselves,
at the same places counted in characters (`Edit.inCharacters`): the outcome is the text that is read
off the characters from front to back (`Edit.spliceChars`), and reading the bytes never fails
(`applyEdits_eq_spliceChars`).

Counting in characters keeps the order of the places (`Text.charOffset_lt`), so edits are sorted in
the same way on both sides (`Edit.sort_map_inCharacters`), and the bytes between two boundaries are
those of the characters between them (`Text.IsBoundary.encode_charSlice`).
-/

namespace TypeScribe

/-! ## Places counted in characters -/

namespace Text

/-- The number of characters before a byte offset that is a boundary of the text. -/
def charOffset (text : String) (offset : Nat) : Nat :=
  (boundariesFrom 0 text.toList).idxOf offset

/-- A boundary comes behind as many others as there are characters before it. -/
theorem idxOf_boundariesFrom (before after : List Char) (offset : Nat) :
    (boundariesFrom offset (before ++ after)).idxOf
      (offset + (encode (String.ofList before)).length) = before.length := by
  induction before generalizing offset with
  | nil =>
    rw [String.ofList_nil, encode_empty, List.nil_append]
    cases after <;> exact List.idxOf_cons_self
  | cons c before ih =>
    have hpos : 0 < c.utf8Size := c.utf8Size_pos
    rw [length_encode_cons, ← Nat.add_assoc, List.cons_append, boundariesFrom,
      List.idxOf_cons_ne _ (by omega), ih, List.length_cons]

/-- As many characters stand before a boundary as the text before it has. -/
theorem charOffset_append (before after : String) :
    charOffset (before ++ after) (encode before).length = before.toList.length := by
  have h := idxOf_boundariesFrom before.toList after.toList 0
  rwa [String.ofList_toList, Nat.zero_add, ← String.toList_append] at h

theorem charOffset_zero (text : String) : charOffset text 0 = 0 := by
  have h := charOffset_append "" text
  rwa [encode_empty, String.empty_append] at h

/-- Two boundaries cut a text in three. -/
theorem IsBoundary.exists_between {text : String} {start stop : Nat}
    (hstart : IsBoundary text start) (hstop : IsBoundary text stop) (hle : start ≤ stop) :
    ∃ before between after, text = before ++ between ++ after ∧
      start = (encode before).length ∧ stop = (encode (before ++ between)).length := by
  obtain ⟨a, b, htext, rfl⟩ := hstart
  obtain ⟨c, d, htext', rfl⟩ := hstop
  obtain ⟨e, rfl⟩ := exists_append_of_encode_le (htext.symm.trans htext') hle
  exact ⟨a, e, d, htext', rfl, rfl⟩

/-- Counting in characters keeps the order of boundaries. -/
theorem charOffset_lt {text : String} {start stop : Nat} (hstart : IsBoundary text start)
    (hstop : IsBoundary text stop) (hlt : start < stop) :
    charOffset text start < charOffset text stop := by
  obtain ⟨before, between, after, rfl, rfl, rfl⟩ :=
    hstart.exists_between hstop (Nat.le_of_lt hlt)
  have hne : between.toList ≠ [] := by
    intro hnil
    rw [String.toList_eq_nil_iff.1 hnil, String.append_empty] at hlt
    exact Nat.lt_irrefl _ hlt
  rw [charOffset_append, String.append_assoc, charOffset_append, String.toList_append,
    List.length_append]
  have := List.length_pos_iff.2 hne
  omega

/-- Boundaries are counted in their order. -/
theorem charOffset_lt_iff {text : String} {a b : Nat} (ha : IsBoundary text a)
    (hb : IsBoundary text b) : charOffset text a < charOffset text b ↔ a < b := by
  refine ⟨fun h => ?_, charOffset_lt ha hb⟩
  rcases Nat.lt_trichotomy a b with hlt | rfl | hgt
  · exact hlt
  · exact absurd h (Nat.lt_irrefl _)
  · exact absurd h (Nat.lt_asymm (charOffset_lt hb ha hgt))

/-- The characters from `start` up to `stop`, cut at the end of the list. -/
def charSlice (chars : List Char) (start stop : Nat) : List Char :=
  (chars.drop start).take (stop - start)

/-- The bytes between two boundaries are those of the characters between them. -/
theorem IsBoundary.encode_charSlice {text : String} {start stop : Nat}
    (hstart : IsBoundary text start) (hstop : IsBoundary text stop) (hle : start ≤ stop) :
    encode (String.ofList (charSlice text.toList (charOffset text start) (charOffset text stop))) =
      byteSlice (encode text) start stop := by
  obtain ⟨a, e, d, rfl, rfl, rfl⟩ := hstart.exists_between hstop hle
  have hbytes : byteSlice (encode (a ++ e ++ d)) (encode a).length (encode (a ++ e)).length =
      encode e := by
    rw [byteSlice, encode_append (a ++ e), encode_append a, List.append_assoc, List.drop_left,
      List.length_append, Nat.add_sub_cancel_left, List.take_left]
  have hchars : charSlice (a ++ e ++ d).toList (charOffset (a ++ e ++ d) (encode a).length)
      (charOffset (a ++ e ++ d) (encode (a ++ e)).length) = e.toList := by
    rw [charOffset_append (a ++ e), String.append_assoc, charOffset_append a, charSlice,
      String.toList_append, String.toList_append, String.toList_append, List.drop_left,
      List.length_append, Nat.add_sub_cancel_left, List.take_left]
  rw [hbytes, hchars, String.ofList_toList]

/-- The bytes after a boundary are those of the characters after it. -/
theorem IsBoundary.encode_drop {text : String} {offset : Nat} (h : IsBoundary text offset) :
    encode (String.ofList (text.toList.drop (charOffset text offset))) =
      (encode text).drop offset := by
  obtain ⟨before, after, rfl, rfl⟩ := h
  rw [charOffset_append, String.toList_append, List.drop_left, String.ofList_toList, encode_append,
    List.drop_left]

end Text

/-! ## Edits counted in characters -/

namespace Edit

/-- The edit with its places counted in characters of the text. -/
def inCharacters (text : String) (edit : Edit) : Edit where
  start := Text.charOffset text edit.start.toNat
  stop := Text.charOffset text edit.stop.toNat
  text := edit.text

/-- The characters from `position` on, with the ordered edits in place: the untouched characters up
to each edit, its text, and after the last edit the untouched rest. -/
def spliceCharsFrom (position : Nat) (chars : List Char) : List Edit → List Char
  | [] => chars.drop position
  | edit :: rest =>
    Text.charSlice chars position edit.start.toNat ++ edit.text.toList ++
      spliceCharsFrom edit.stop.toNat chars rest

/-- The text with edits in place that are counted in characters and given in any order. -/
def spliceChars (edits : List Edit) (text : String) : String :=
  String.ofList (spliceCharsFrom 0 text.toList (sort edits))

/-- The edit starts and ends between characters of the text. -/
def CutsBetween (text : String) (edit : Edit) : Prop :=
  Text.IsBoundary text edit.start.toNat ∧ Text.IsBoundary text edit.stop.toNat

instance (text : String) (edit : Edit) : Decidable (edit.CutsBetween text) :=
  inferInstanceAs (Decidable (_ ∧ _))

/-- The bytes of the spliced characters are the spliced bytes. -/
theorem encode_spliceCharsFrom {text : String} {ordered : List Edit} {position : Nat}
    (hposition : Text.IsBoundary text position) (hfits : Fits (Text.encode text).length ordered)
    (hfrom : ∀ edit ∈ ordered, (position : Int) ≤ edit.start)
    (hcuts : ∀ edit ∈ ordered, edit.CutsBetween text) :
    Text.encode (String.ofList (spliceCharsFrom (Text.charOffset text position) text.toList
      (ordered.map (inCharacters text)))) = spliceFrom position (Text.encode text) ordered := by
  induction ordered generalizing position with
  | nil => exact hposition.encode_drop
  | cons edit rest ih =>
    obtain ⟨hrange, hbefore, hrest⟩ := fits_cons.1 hfits
    obtain ⟨hstart, hstop⟩ := hcuts edit List.mem_cons_self
    have hle := hfrom edit List.mem_cons_self
    have hlater : ∀ later ∈ rest, (edit.stop.toNat : Int) ≤ later.start := by
      intro later hmem
      have : edit.stop ≤ later.start := hbefore later hmem
      have := hrange.1
      have := hrange.2.1
      omega
    have hbehind := ih hstop hrest hlater fun e he => hcuts e (List.mem_cons_of_mem _ he)
    have hahead := hposition.encode_charSlice hstart (by omega)
    rw [List.map_cons, spliceCharsFrom, spliceFrom, String.ofList_append, String.ofList_append,
      Text.encode_append, Text.encode_append, String.ofList_toList]
    exact congrArg₂ _ (congrArg₂ _ hahead rfl) hbehind

/-- Edits that are changed in a way that keeps their order are inserted at the same place. -/
theorem insert_map {f : Edit → Edit} {edit : Edit} {edits : List Edit}
    (h : ∀ other ∈ edits, (f edit).le (f other) = edit.le other) :
    insert (f edit) (edits.map f) = (insert edit edits).map f := by
  induction edits with
  | nil => rfl
  | cons other rest ih =>
    obtain ⟨hother, hrest⟩ := List.forall_mem_cons.1 h
    rw [List.map_cons, insert, insert, hother, ih hrest]
    split <;> rfl

/-- Edits that are moved without changing their order are sorted in the same way. -/
theorem sort_map {f : Edit → Edit} {edits : List Edit}
    (h : ∀ edit ∈ edits, ∀ other ∈ edits, (f edit).le (f other) = edit.le other) :
    sort (edits.map f) = (sort edits).map f := by
  induction edits with
  | nil => rfl
  | cons edit rest ih =>
    have hrest : sort (rest.map f) = (sort rest).map f :=
      ih fun e he o ho => h e (List.mem_cons_of_mem _ he) o (List.mem_cons_of_mem _ ho)
    have hinsert : insert (f edit) ((sort rest).map f) = (insert edit (sort rest)).map f :=
      insert_map fun other hother =>
        h edit List.mem_cons_self other (List.mem_cons_of_mem _ (mem_sort.1 hother))
    show insert (f edit) (sort (rest.map f)) = _
    rw [hrest, hinsert]
    rfl

/-- Edits in characters are sorted as they are in bytes. -/
theorem sort_map_inCharacters {text : String} {edits : List Edit}
    (hrange : ∀ edit ∈ edits, edit.InRange (Text.encode text).length)
    (hcuts : ∀ edit ∈ edits, edit.CutsBetween text) :
    sort (edits.map (inCharacters text)) = (sort edits).map (inCharacters text) := by
  refine sort_map fun edit hedit other hother => ?_
  obtain ⟨hstart, hstop⟩ := hcuts edit hedit
  obtain ⟨hstart', hstop'⟩ := hcuts other hother
  obtain ⟨hpos, hle, -⟩ := hrange edit hedit
  obtain ⟨hpos', hle', -⟩ := hrange other hother
  rw [Bool.eq_iff_iff, le_iff, le_iff]
  have h₁ := Text.charOffset_lt_iff hstart hstart'
  have h₂ := Text.charOffset_lt_iff hstart' hstart
  have h₃ := Text.charOffset_lt_iff hstop' hstop
  show ((Text.charOffset text edit.start.toNat : Int) < Text.charOffset text other.start.toNat ∨
    (Text.charOffset text edit.start.toNat : Int) = Text.charOffset text other.start.toNat ∧
      (Text.charOffset text edit.stop.toNat : Int) ≤ Text.charOffset text other.stop.toNat) ↔ _
  omega

end Edit

/-- Edits that get past the checks fit the file. -/
theorem fits_of_applyEdits {edits : List Edit} {bytes : List UInt8}
    (h : ∀ reason, SourceFile.applyEdits bytes edits ≠ .error (.edits reason)) :
    Edit.Fits bytes.length (Edit.sort edits) := by
  cases happly : Edit.applyAll edits bytes with
  | ok out => exact (Edit.applyAll_eq_ok_iff.1 happly).1
  | error reason =>
    refine absurd ?_ (h reason)
    rw [SourceFile.applyEdits, happly]

/-- Where edits start and end between characters and get past the checks, applying them to the bytes
of a text gives the text with the edits in place, counted in characters. -/
theorem applyEdits_eq_spliceChars (text : String) (edits : List Edit)
    (hcuts : ∀ edit ∈ edits, edit.CutsBetween text)
    (hchecks : ∀ reason, SourceFile.applyEdits (Text.encode text) edits ≠ .error (.edits reason)) :
    SourceFile.applyEdits (Text.encode text) edits =
      .ok (Edit.spliceChars (edits.map (Edit.inCharacters text)) text) := by
  have hfits := fits_of_applyEdits hchecks
  have hrange : ∀ edit ∈ edits, edit.InRange (Text.encode text).length := fun edit hedit =>
    hfits.inRange edit (Edit.mem_sort.2 hedit)
  have hbytes := Edit.encode_spliceCharsFrom (Text.isBoundary_zero text) hfits
    (fun edit hedit => (hfits.inRange edit hedit).1) fun edit hedit =>
      hcuts edit (Edit.mem_sort.1 hedit)
  rw [Text.charOffset_zero] at hbytes
  rw [applyEdits_of_fits hfits, ← hbytes, SourceFile.decode, Text.decode?_encode, Edit.spliceChars,
    Edit.sort_map_inCharacters hrange hcuts]

/-- A text with characters of one, two, three and four bytes: a type is inserted after a name of
three bytes, and a literal is replaced. -/
theorem applyEdits_eq_spliceChars_wide :
    (∀ edit ∈ ([⟨11, 17, "ü"⟩, ⟨7, 7, ": String"⟩] : List Edit),
      edit.CutsBetween "let 日 = \"é😀\"") ∧
    [⟨11, 17, "ü"⟩, ⟨7, 7, ": String"⟩].map (Edit.inCharacters "let 日 = \"é😀\"") =
      [⟨9, 11, "ü"⟩, ⟨5, 5, ": String"⟩] ∧
    Edit.spliceChars [⟨9, 11, "ü"⟩, ⟨5, 5, ": String"⟩] "let 日 = \"é😀\"" =
      "let 日: String = \"ü\"" ∧
    SourceFile.applyEdits (Text.encode "let 日 = \"é😀\"") [⟨11, 17, "ü"⟩, ⟨7, 7, ": String"⟩] =
      .ok "let 日: String = \"ü\"" := by
  have hcuts : ∀ edit ∈ ([⟨11, 17, "ü"⟩, ⟨7, 7, ": String"⟩] : List Edit),
      edit.CutsBetween "let 日 = \"é😀\"" := by decide +kernel
  have hplaces : [⟨11, 17, "ü"⟩, ⟨7, 7, ": String"⟩].map (Edit.inCharacters "let 日 = \"é😀\"") =
      [⟨9, 11, "ü"⟩, ⟨5, 5, ": String"⟩] := by decide +kernel
  have hchars : Edit.spliceChars [⟨9, 11, "ü"⟩, ⟨5, 5, ": String"⟩] "let 日 = \"é😀\"" =
      "let 日: String = \"ü\"" := by decide +kernel
  have hbytes : Edit.applyAll [⟨11, 17, "ü"⟩, ⟨7, 7, ": String"⟩]
      (Text.encode "let 日 = \"é😀\"") = .ok (Text.encode "let 日: String = \"ü\"") := by
    decide +kernel
  refine ⟨hcuts, hplaces, hchars, ?_⟩
  rw [applyEdits_eq_spliceChars _ _ hcuts, hplaces, hchars]
  intro reason
  rw [SourceFile.applyEdits, hbytes]
  exact decode_ne_edits

end TypeScribe
