import TypeScribe.Text.Utf8

/-!
# Texts and their bytes

`decode?` undoes `encode` (`decode?_encode`), and `encode` turns the concatenation of texts into
that of their bytes (`encode_append`). An offset at which the bytes of a text may be cut is a
boundary (`IsBoundary`). Between two boundaries lie the bytes of a text again
(`IsBoundary.byteSlice_isText`), which is what makes it safe to cut a file into pieces and to put
other texts between them: texts are closed under concatenation (`IsText.append`).
-/

namespace TypeScribe.Text

/-! ## Bytes of a concatenation -/

/-- The walk that lists the bytes of an array, started at `i` with the bytes before it in
reverse. -/
theorem byteArray_toList_loop (bytes : ByteArray) (i : Nat) (seen : List UInt8) :
    ByteArray.toList.loop bytes i seen = seen.reverse ++ bytes.data.toList.drop i := by
  fun_induction ByteArray.toList.loop bytes i seen with
  | case1 i seen hlt ih =>
    have hi : i < bytes.data.toList.length := hlt
    have hget : bytes.get! i = bytes.data.toList[i] := getElem!_pos bytes.data i hlt
    rw [ih, List.drop_eq_getElem_cons hi, hget, List.reverse_cons, List.append_assoc]
    rfl
  | case2 i seen hge =>
    have hi : bytes.data.toList.length ≤ i := Nat.not_lt.1 hge
    rw [List.drop_eq_nil_of_le hi, List.append_nil]

/-- The bytes of a text, as the data of its array of bytes. -/
theorem encode_eq_data (text : String) : encode text = text.toByteArray.data.toList := by
  show ByteArray.toList.loop text.toByteArray 0 [] = _
  rw [byteArray_toList_loop, List.reverse_nil, List.nil_append, List.drop_zero]

theorem encode_append (a b : String) : encode (a ++ b) = encode a ++ encode b := by
  rw [encode_eq_data, encode_eq_data, encode_eq_data, String.toByteArray_append,
    ByteArray.toList_data_append]

@[simp] theorem encode_empty : encode "" = [] := by
  rw [encode_eq_data]
  rfl

/-- Only the empty text has no bytes. -/
theorem encode_eq_nil {text : String} (h : encode text = []) : text = "" := by
  rw [encode_eq_data] at h
  apply String.toByteArray_inj.1
  exact ByteArray.ext (Array.toList_inj.1 h)

/-- Decoding undoes encoding. -/
theorem decode?_encode (text : String) : decode? (encode text) = some text := by
  have harray : (⟨(encode text).toArray⟩ : ByteArray) = text.toByteArray := by
    rw [encode_eq_data]
  rw [decode?, harray, String.fromUTF8?, dif_pos text.isValidUTF8]
  rfl

/-- Encoding undoes decoding. -/
theorem encode_of_decode? {bytes : List UInt8} {text : String} (h : decode? bytes = some text) :
    encode text = bytes := by
  rw [decode?, String.fromUTF8?] at h
  split at h
  · cases h
    rw [encode_eq_data]
    rfl
  · cases h

/-! ## Bytes that are texts -/

/-- The bytes encode a text. -/
def IsText (bytes : List UInt8) : Prop := ∃ text, bytes = encode text

theorem isText_encode (text : String) : IsText (encode text) := ⟨text, rfl⟩

theorem IsText.append {a b : List UInt8} : IsText a → IsText b → IsText (a ++ b) := by
  rintro ⟨s, rfl⟩ ⟨t, rfl⟩
  exact ⟨s ++ t, (encode_append s t).symm⟩

/-- A text can be read from such bytes. -/
theorem IsText.decode? {bytes : List UInt8} (h : IsText bytes) :
    ∃ text, decode? bytes = some text := by
  obtain ⟨text, rfl⟩ := h
  exact ⟨text, decode?_encode text⟩

/-! ## Boundaries -/

/-- The byte offset lies between two characters of the text, or at one of its ends. -/
def IsBoundary (text : String) (offset : Nat) : Prop :=
  ∃ before after, text = before ++ after ∧ offset = (encode before).length

theorem isBoundary_zero (text : String) : IsBoundary text 0 :=
  ⟨"", text, String.empty_append.symm, by rw [encode_empty]; rfl⟩

/-- A character takes as many bytes as it has in UTF-8. -/
theorem length_encode_cons (c : Char) (rest : List Char) :
    (encode (String.ofList (c :: rest))).length =
      c.utf8Size + (encode (String.ofList rest)).length := by
  have hsplit : String.ofList (c :: rest) = String.ofList [c] ++ String.ofList rest := by
    rw [← String.ofList_append, List.singleton_append]
  have hone : (encode (String.ofList [c])).length = c.utf8Size := by
    rw [encode_eq_data, String.toByteArray_ofList, List.utf8Encode_singleton,
      List.toList_data_toByteArray, String.length_utf8EncodeChar]
  rw [hsplit, encode_append, List.length_append, hone]

/-- The boundaries of a list of characters that starts at `offset`. -/
def boundariesFrom (offset : Nat) : List Char → List Nat
  | [] => [offset]
  | c :: rest => offset :: boundariesFrom (offset + c.utf8Size) rest

/-- A boundary is where some of the characters end. -/
theorem mem_boundariesFrom {n : Nat} {chars : List Char} {offset : Nat} :
    n ∈ boundariesFrom offset chars ↔
      ∃ before after, chars = before ++ after ∧
        n = offset + (encode (String.ofList before)).length := by
  induction chars generalizing offset with
  | nil =>
    rw [boundariesFrom, List.mem_singleton]
    constructor
    · rintro rfl
      exact ⟨[], [], rfl, by rw [String.ofList_nil, encode_empty]; rfl⟩
    · rintro ⟨before, after, hnil, rfl⟩
      rw [(List.append_eq_nil_iff.1 hnil.symm).1, String.ofList_nil, encode_empty]
      rfl
  | cons c rest ih =>
    rw [boundariesFrom, List.mem_cons, ih]
    constructor
    · rintro (rfl | ⟨before, after, rfl, rfl⟩)
      · exact ⟨[], c :: rest, rfl, by rw [String.ofList_nil, encode_empty]; rfl⟩
      · exact ⟨c :: before, after, rfl, by rw [length_encode_cons]; omega⟩
    · rintro ⟨before, after, hcons, rfl⟩
      cases before with
      | nil => exact .inl (by rw [String.ofList_nil, encode_empty]; rfl)
      | cons d before =>
        obtain ⟨rfl, rfl⟩ := List.cons.inj hcons
        exact .inr ⟨before, after, rfl, by rw [length_encode_cons]; omega⟩

/-- The boundaries of a text can be listed. -/
theorem isBoundary_iff_mem {text : String} {offset : Nat} :
    IsBoundary text offset ↔ offset ∈ boundariesFrom 0 text.toList := by
  rw [mem_boundariesFrom]
  constructor
  · rintro ⟨before, after, rfl, rfl⟩
    exact ⟨before.toList, after.toList, String.toList_append,
      by rw [String.ofList_toList, Nat.zero_add]⟩
  · rintro ⟨before, after, htext, rfl⟩
    refine ⟨String.ofList before, String.ofList after, ?_, by rw [Nat.zero_add]⟩
    rw [← String.ofList_append, ← htext, String.ofList_toList]

instance (text : String) (offset : Nat) : Decidable (IsBoundary text offset) :=
  decidable_of_iff (offset ∈ boundariesFrom 0 text.toList) isBoundary_iff_mem.symm

/-- Of two cuts of one text, the first half of the shorter one starts that of the longer one. -/
theorem exists_append_of_encode_le {a b c d : String} (h : a ++ b = c ++ d)
    (hle : (encode a).length ≤ (encode c).length) : ∃ e, c = a ++ e := by
  have hlist : a.toList ++ b.toList = c.toList ++ d.toList := by
    rw [← String.toList_append, ← String.toList_append, h]
  rcases List.append_eq_append_iff.1 hlist with ⟨e, hc, -⟩ | ⟨e, ha, -⟩
  · refine ⟨String.ofList e, ?_⟩
    rw [← String.toList_inj, String.toList_append, String.toList_ofList, hc]
  · -- The longer half is the other one, so the two are equal.
    have ha' : a = c ++ String.ofList e := by
      rw [← String.toList_inj, String.toList_append, String.toList_ofList, ha]
    have hnil : encode (String.ofList e) = [] := by
      rw [ha', encode_append, List.length_append] at hle
      exact List.eq_nil_of_length_eq_zero (by omega)
    exact ⟨"", by rw [ha', encode_eq_nil hnil, String.append_empty, String.append_empty]⟩

/-- Between two boundaries lie the bytes of a text. -/
theorem IsBoundary.byteSlice_isText {text : String} {start stop : Nat}
    (hstart : IsBoundary text start) (hstop : IsBoundary text stop) (hle : start ≤ stop) :
    IsText (byteSlice (encode text) start stop) := by
  obtain ⟨a, b, htext, rfl⟩ := hstart
  obtain ⟨c, d, htext', rfl⟩ := hstop
  obtain ⟨e, rfl⟩ := exists_append_of_encode_le (htext.symm.trans htext') hle
  have hbytes : encode text = encode a ++ (encode e ++ encode d) := by
    rw [htext', encode_append, encode_append, List.append_assoc]
  refine ⟨e, ?_⟩
  rw [byteSlice, hbytes, List.drop_left, encode_append, List.length_append,
    Nat.add_sub_cancel_left, List.take_left]

/-- After a boundary lie the bytes of a text. -/
theorem IsBoundary.drop_isText {text : String} {offset : Nat} (h : IsBoundary text offset) :
    IsText ((encode text).drop offset) := by
  obtain ⟨before, after, rfl, rfl⟩ := h
  refine ⟨after, ?_⟩
  rw [encode_append, List.drop_left]

end TypeScribe.Text
