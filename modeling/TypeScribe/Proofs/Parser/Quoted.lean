import TypeScribe.Proofs.Parser.Bounds

/-!
# Quoted text

What a parser of quoted text reads is told by the text alone: a quote, the text inside, and a quote.
With escapes the inside is made of plain characters and of backslashes with the character that each
protects (`quotable_true_iff`); without, it is any text that does not hold the quote. The inside is
read as it is written, there is one way to read it, and a text that cannot be read is blamed at its
first quote (`quoted_readsQuoted`).
-/

namespace TypeScribe.Parser

/-! ## What may stand between quotes -/

/-- A piece of quoted text: a plain character, or a backslash with the character it protects. -/
def IsPiece (quote : Char) (piece : List Char) : Prop :=
  (∃ x, piece = [x] ∧ x ≠ quote ∧ x ≠ '\\') ∨ ∃ x, piece = ['\\', x]

/-- A text that splits into pieces. -/
def InPieces (quote : Char) (text : List Char) : Prop :=
  ∃ pieces : List (List Char), text = pieces.flatten ∧ ∀ piece ∈ pieces, IsPiece quote piece

variable {quote : Char} {escapes : Bool}

/-- With escapes, a text can be quoted if and only if it splits into pieces. -/
theorem quotable_true_iff {text : List Char} (hquote : quote ≠ '\\') :
    Quotable quote true text ↔ InPieces quote text := by
  constructor
  · intro h
    induction h with
    | nil => exact ⟨[], rfl, List.forall_mem_nil _⟩
    | @plain x rest hx hplain _ ih =>
      obtain ⟨pieces, rfl, hpieces⟩ := ih
      refine ⟨[x] :: pieces, rfl, List.forall_mem_cons.2 ⟨?_, hpieces⟩⟩
      exact .inl ⟨x, rfl, hx, by simpa using hplain⟩
    | @escaped x y rest hx hescaped _ ih =>
      obtain ⟨pieces, rfl, hpieces⟩ := ih
      obtain rfl : x = '\\' := by simpa using hescaped
      refine ⟨['\\', y] :: pieces, rfl, List.forall_mem_cons.2 ⟨.inr ⟨y, rfl⟩, hpieces⟩⟩
  · rintro ⟨pieces, rfl, hpieces⟩
    induction pieces with
    | nil => exact .nil
    | cons piece pieces ih =>
      obtain ⟨hpiece, hrest⟩ := List.forall_mem_cons.1 hpieces
      rw [List.flatten_cons]
      rcases hpiece with ⟨x, rfl, hx, hplain⟩ | ⟨x, rfl⟩
      · exact .plain hx (by simpa using hplain) (ih hrest)
      · exact .escaped (Ne.symm hquote) rfl (ih hrest)

/-- Without escapes, a text can be quoted if and only if the quote does not occur in it. -/
theorem quotable_false_iff {text : List Char} : Quotable quote false text ↔ quote ∉ text := by
  refine ⟨fun h => ?_, quotable_of_notMem⟩
  induction h with
  | nil => exact List.not_mem_nil
  | plain hx _ _ ih =>
    rw [List.mem_cons, not_or]
    exact ⟨Ne.symm hx, ih⟩
  | escaped _ hescaped => cases hescaped

/-! ## Runs at a place in a text -/

/-- From the position up to `stop` stands the value between quotes. -/
structure QuotedAt (quote : Char) (Inside : List Char → Prop) (text : String)
    (position stop : Nat) (value : String) : Prop where
  stop_le : stop ≤ text.length
  extract_eq : text.toList.extract position stop = quote :: value.toList ++ [quote]
  inside : Inside value.toList

/-- The parser reads what stands between quotes at the position, and nothing else. -/
structure ReadsQuoted (p : Parser String) (quote : Char) (Inside : List Char → Prop)
    (text : String) (position : Nat) : Prop where
  ok_iff : ∀ value next, p.runAt text position = .ok value next ↔
    ∃ stop, QuotedAt quote Inside text position stop value ∧ next = .within text.toList stop
  unique : ∀ {value stop value' stop'}, QuotedAt quote Inside text position stop value →
    QuotedAt quote Inside text position stop' value' → value = value' ∧ stop = stop'
  fails : (∀ value stop, ¬ QuotedAt quote Inside text position stop value) →
    p.runAt text position = .failed ⟨position,
      if text.toList[position]? = some quote then "closing " ++ quote.toString
      else quote.toString ++ "-quoted text"⟩

/-- A quoted text is read exactly where it stands between its quotes. -/
theorem quoted_runAt_eq_ok_iff {text value : String} {position : Nat} {next : Cursor}
    (h : position ≤ text.length) :
    (quoted quote escapes).runAt text position = .ok value next ↔
      ∃ stop, QuotedAt quote (Quotable quote escapes) text position stop value ∧
        next = .within text.toList stop := by
  have hposition : position ≤ text.toList.length := by rwa [String.length_toList]
  constructor
  · intro hok
    obtain ⟨hreads, hvalue⟩ := quoted_reads hok
    obtain ⟨hnext, hstop⟩ := hreads.eq_within hposition
    rw [String.length_toList] at hstop
    exact ⟨_, ⟨hstop, extract_of_drop_eq hreads.rest_eq, hvalue⟩, hnext⟩
  · rintro ⟨stop, ⟨hstop, hextract, hvalue⟩, rfl⟩
    rw [← String.length_toList] at hstop
    obtain ⟨hdrop, rfl⟩ := drop_eq_of_extract_eq hextract (List.cons_ne_nil _ _) hstop
    rw [(quoted_accepts hvalue _).runAt hdrop h, String.ofList_toList]

/-- Where nothing is read, the first quote is missing or the last one is. -/
theorem quoted_eq_failed_of_forall_ne {c : Cursor}
    (h : ∀ value next, quoted quote escapes c ≠ .ok value next) :
    quoted quote escapes c = .failed ⟨c.offset,
      if c.rest.head? = some quote then "closing " ++ quote.toString
      else quote.toString ++ "-quoted text"⟩ := by
  unfold quoted at h ⊢
  cases hrest : c.rest with
  | nil => rfl
  | cons x rest =>
    simp only [hrest] at h
    by_cases hx : x = quote
    · simp only [hx, if_true, List.head?_cons] at h ⊢
      cases hsplit : splitAtQuote quote escapes rest with
      | none => rfl
      | some split =>
        rw [hsplit] at h
        exact absurd rfl (h _ _)
    · simp [hx]

/-- The parser reads quoted texts in any terms that say what may stand between the quotes. -/
theorem readsQuoted_of_iff {Inside : List Char → Prop} {text : String} {position : Nat}
    (h : position ≤ text.length)
    (hinside : ∀ value, Quotable quote escapes value ↔ Inside value) :
    ReadsQuoted (quoted quote escapes) quote Inside text position := by
  obtain rfl : Quotable quote escapes = Inside := funext fun value => propext (hinside value)
  refine ⟨fun value next => quoted_runAt_eq_ok_iff h, fun hfirst hsecond => ?_, fun hnone => ?_⟩
  · have hrun := (quoted_runAt_eq_ok_iff h).2 ⟨_, hfirst, rfl⟩
    rw [(quoted_runAt_eq_ok_iff h).2 ⟨_, hsecond, rfl⟩] at hrun
    obtain ⟨hvalue, hnext⟩ := Reply.ok.inj hrun
    exact ⟨hvalue.symm, (congrArg Cursor.offset hnext).symm⟩
  · rw [runAt, quoted_eq_failed_of_forall_ne fun value next hok => ?_]
    · rw [Cursor.within, List.head?_drop]
    · obtain ⟨stop, hquoted, -⟩ := (quoted_runAt_eq_ok_iff h).1 hok
      exact hnone value stop hquoted

/-- The parsers of quoted text read what stands between quotes, which is the same text however it is
read, and fail at their start where nothing does. Between double quotes may stand plain characters
and backslashes with the character that each protects, between single quotes anything else. -/
theorem quoted_readsQuoted (text : String) {position : Nat} (h : position ≤ text.length) :
    ReadsQuoted doubleQuoted '"' (InPieces '"') text position ∧
      ReadsQuoted singleQuoted '\'' (fun value => '\'' ∉ value) text position :=
  ⟨readsQuoted_of_iff h fun _ => quotable_true_iff (by decide),
    readsQuoted_of_iff h fun _ => quotable_false_iff⟩

/-- A quote that a backslash protects does not end the text, and a protected backslash does not
protect the quote after it. -/
theorem quoted_readsQuoted_protected :
    2 ≤ "x \"a\\\"b\\\\\" y".length ∧
    doubleQuoted.runAt "x \"a\\\"b\\\\\" y" 2 =
      .ok "a\\\"b\\\\" (.within "x \"a\\\"b\\\\\" y".toList 10) := by
  have h : 2 ≤ "x \"a\\\"b\\\\\" y".length := by decide
  have hquoted : QuotedAt '"' (InPieces '"') "x \"a\\\"b\\\\\" y" 2 10 "a\\\"b\\\\" := by
    refine ⟨by decide, by decide, [['a'], ['\\', '"'], ['b'], ['\\', '\\']], by decide, ?_⟩
    simp [IsPiece]
  exact ⟨h, ((quoted_readsQuoted _ h).1.ok_iff _ _).2 ⟨10, hquoted, rfl⟩⟩

end TypeScribe.Parser
