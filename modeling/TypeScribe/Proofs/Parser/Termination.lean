import TypeScribe.Proofs.Dump.Nesting
import TypeScribe.Proofs.SwiftType.Nesting

/-!
# Reading ends

Both grammars have one rule that refers to itself: a node holds nodes, and a type holds types. Each
is entered again only further on in the text, and each repetition takes at most one turn more than
there are characters ahead, so reading a dump or a type name ends on every text, well formed or not
(`reading_terminates`). A text can be kept from being read or refused only by a numeral in it that
is too long, or by the call stack, if that has no more room than the text has characters.
-/

namespace TypeScribe

open TypeScribe.Parser

/-- What is read from a place in a text leads to a later place in it. -/
theorem Cursor.Reads.exists_within {text read : List Char} {offset : Nat} {next : Cursor}
    (h : (Cursor.within text offset).Reads read next) (hne : read ≠ []) :
    ∃ place, next = .within text place ∧ offset < place ∧ place ≤ text.length := by
  have hpos : 0 < read.length := List.length_pos_iff.2 hne
  have hlength : text.length - offset = read.length + next.rest.length := by
    rw [← Cursor.length_rest_within, h.length_rest]
  obtain ⟨hnext, hle⟩ := h.eq_within (by omega)
  exact ⟨offset + read.length, hnext, by omega, hle⟩

/-- The runs of a rule that refers to itself end on the text; `within depth` is the rule, followed
`depth` levels deep. -/
structure Parser.EndsOn {α : Type} (rule : Parser α → Parser α) (within : Nat → Parser α)
    (text : String) : Prop where
  /-- There is one parser that reads what is nested by itself. -/
  unfolds : atAnyDepth within = rule (atAnyDepth within)
  /-- It runs as the rule does when more levels are followed than there are characters. -/
  levels : ∀ depth offset, text.length - offset < depth →
    (within depth).runAt text offset = (atAnyDepth within).runAt text offset
  /-- What is nested matters only at the places that a run enters. -/
  unseen : ∀ offset place (other : Parser α),
    ¬Enters rule (atAnyDepth within) (.within text.toList offset) place →
    (∀ c, c ≠ place → other c = atAnyDepth within c) →
    (rule other).runAt text offset = (atAnyDepth within).runAt text offset
  /-- A run enters the rule again only at later places of the text. -/
  later : ∀ offset place, Enters rule (atAnyDepth within) (.within text.toList offset) place →
    ∃ next, place = .within text.toList next ∧ offset < next ∧ next ≤ text.length
  /-- Every run ends: with a value, with a failure, or at a numeral ahead that is too long. -/
  ends : ∀ offset, (∃ value next, (atAnyDepth within).runAt text offset = .ok value next) ∨
    (∃ failure, (atAnyDepth within).runAt text offset = .failed failure) ∨
    ∃ digits, (atAnyDepth within).runAt text offset = .stopped (.notANumeral digits) ∧
      (Cursor.within text.toList offset).HasOverlong digits

/-- A rule that uses what is nested only further on ends on every text. -/
theorem Parser.Unrolls.endsOn {α : Type} {rule : Parser α → Parser α} {within : Nat → Parser α}
    (h : Unrolls rule within) (hrule : ∀ p q, Refines p q → Refines (rule p) (rule q))
    (hbuilt : ∀ depth, Built (within depth)) (text : String) : EndsOn rule within text := by
  have hshallow := h.shallow_atAnyDepth
  have hforward := h.forward_atAnyDepth
  have hlength := Cursor.length_rest_within text.toList
  rw [String.length_toList] at hlength
  refine ⟨h.atAnyDepth_eq, fun depth offset hdepth => ?_, fun offset place other hnot hother => ?_,
    fun offset place henters => ?_, fun offset => ?_⟩
  · exact (h.agree_atAnyDepth hdepth _ (hlength offset).le).1
  · have heq := eq_of_not_enters hrule hnot hother
    rwa [← h.atAnyDepth_eq] at heq
  · obtain ⟨read, hreads, hne⟩ := h.contracts.reads_of_enters henters
    exact String.length_toList ▸ hreads.exists_within hne
  · cases hreply : (atAnyDepth within).runAt text offset with
    | ok value next => exact .inl ⟨value, next, rfl⟩
    | failed failure => exact .inr (.inl ⟨failure, rfl⟩)
    | stopped stop =>
      cases stop with
      | tooDeep => exact absurd hreply (Shallow.ne_tooDeep _)
      | notANumeral digits =>
        exact .inr (.inr ⟨digits, rfl, (hbuilt _).bounded.hasOverlong hreply⟩)

open Dump Dump.Grammar SwiftType.Grammar in
/-- Reading ends on every text. The rules for nodes and for types, from any place in it, enter
themselves again only at later places; each repetition of a parser ends after at most one turn more
than there are characters ahead. A type is read or refused, and so is a node, unless a numeral ahead
of it is too long. A dump and a type name are read or refused in the same way, unless the call stack
has no more room than there are characters. -/
theorem reading_terminates (text : String) :
    EndsOn nodeOf nodeWithin text ∧
    (EndsOn typeOf typeWithin text ∧
      ∀ offset stop, (atAnyDepth typeWithin).runAt text offset ≠ .stopped stop) ∧
    (∀ {α : Type} (p : Parser α), Built p → ∀ offset, ∃ turns ≤ text.length - offset + 1,
      ∀ turns' reply, Loop p (.within text.toList offset) turns' reply ↔
        turns' = turns ∧ reply = (many p).runAt text offset) ∧
    ∀ [CallStack],
      ((∃ root next, anyDocument.runAt text 0 = .ok root next ∧ RawNode.parse text = .ok root) ∨
        (∃ failure, anyDocument.runAt text 0 = .failed failure ∧
          RawNode.parse text = .error (.malformed (.unexpected failure))) ∨
        (∃ digits, anyDocument.runAt text 0 = .stopped (.notANumeral digits) ∧
          RawNode.parse text = .error (.notANumeral digits)) ∨
        CallStack.nodes ≤ text.length ∧ RawNode.parse text = .error (.malformed .tooDeep)) ∧
      ((∃ type next, SwiftType.Grammar.typeName.runAt text 0 = .ok type next ∧
          SwiftType.parse text = .ok type) ∨
        (∃ failure, SwiftType.Grammar.typeName.runAt text 0 = .failed failure ∧
          SwiftType.parse text = .error (.unexpected failure)) ∨
        CallStack.types ≤ text.length ∧ SwiftType.parse text = .error (.stopped .tooDeep)) := by
  refine ⟨unrolls_nodeWithin.endsOn (fun _ _ => nodeOf_refines) built_nodeWithin text,
    ⟨unrolls_typeWithin.endsOn (fun _ _ => typeOf_refines) built_typeWithin text,
      fun offset stop => ?_⟩, fun p hp offset => ?_, ⟨?_, ?_⟩⟩
  · exact Unstopped.ne_stopped (p := type) _ stop
  · have := hp.forward
    obtain ⟨turns, hturns, hloop⟩ := exists_loop (p := p) (c := .within text.toList offset)
    rw [Cursor.length_rest_within, String.length_toList] at hturns
    exact ⟨turns, hturns, hloop⟩
  · rw [runAt, Cursor.within_zero]
    exact RawNode.parse_cases text
  · rw [runAt, Cursor.within_zero]
    exact SwiftType.parse_cases text

open Dump.Grammar SwiftType.Grammar in
/-- A node in a node whose parenthesis is not closed, and a type in an array that is not: both are
entered from the start, and nodes are repeated from where the inner one starts. -/
theorem reading_terminates_nested :
    (Enters nodeOf (atAnyDepth nodeWithin) (.within "(a (b)".toList 0) (.within "(a (b)".toList 3) ∧
      ∃ next, Cursor.within "(a (b)".toList 3 = .within "(a (b)".toList next ∧ 0 < next ∧
        next ≤ "(a (b)".length) ∧
    (Enters typeOf (atAnyDepth typeWithin) (.within "[Int".toList 0) (.within "[Int".toList 1) ∧
      ∃ next, Cursor.within "[Int".toList 1 = .within "[Int".toList next ∧ 0 < next ∧
        next ≤ "[Int".length) ∧
    Built (nodeWithin 2) ∧ ∃ turns ≤ "(a (b)".length - 3 + 1,
      Loop (nodeWithin 2) (.within "(a (b)".toList 3) turns
        ((many (nodeWithin 2)).runAt "(a (b)" 3) := by
  have hnode : Enters nodeOf (atAnyDepth nodeWithin) (.within "(a (b)".toList 0)
      (.within "(a (b)".toList 3) := by decide +kernel
  have htype : Enters typeOf (atAnyDepth typeWithin) (.within "[Int".toList 0)
      (.within "[Int".toList 1) := by decide +kernel
  obtain ⟨hends, -, hloops, -⟩ := reading_terminates "(a (b)"
  obtain ⟨-, ⟨hendsType, -⟩, -⟩ := reading_terminates "[Int"
  obtain ⟨turns, hturns, hloop⟩ := hloops (nodeWithin 2) (built_nodeWithin 2) 3
  exact ⟨⟨hnode, hends.later 0 _ hnode⟩, ⟨htype, hendsType.later 0 _ htype⟩,
    built_nodeWithin 2, turns, hturns, (hloop _ _).2 ⟨rfl, rfl⟩⟩

end TypeScribe
