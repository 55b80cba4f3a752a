import TypeScribe.Proofs.Dump.Declarations
import TypeScribe.Proofs.Parser.Bounds
import TypeScribe.Proofs.Parser.Levels

/-!
# The nesting of nodes

A node opens with a parenthesis, so a node nested in it starts after it (`nodeOf_agree`), and there
is one parser `anyNode` for nodes that nest to any depth. The call stack can only cut it short: a
text with fewer characters than there is room for nodes is never too deep, and any other is either
too deep or read as `anyDocument` reads it (`RawNode.parse_cases`).
-/

namespace TypeScribe.Dump

namespace Grammar

open TypeScribe.Parser

/-! ## Parts without nesting -/

section
variable {stops : Stop → Prop}

instance : Avoids stops typeName := inferInstanceAs (Avoids stops (quoted '\'' false))

instance : Avoids stops doubleQuoted := inferInstanceAs (Avoids stops (quoted '"' true))

instance : Avoids stops elements := by
  unfold elements
  infer_instance

instance : Avoids stops rawText := by
  unfold rawText
  infer_instance

instance : Avoids stops nodeToken := avoids_choice (by
  simp only [List.forall_mem_cons, List.not_mem_nil, false_imp_iff, implies_true, and_true]
  exact ⟨inferInstanceAs (Avoids stops (Token.singleQuoted <$> typeName)), inferInstance,
    inferInstance⟩)

instance : Avoids stops nodeValue := by
  unfold nodeValue
  infer_instance

end

instance : Shallow unknownValue := avoids_choice (by
  simp only [List.forall_mem_cons, List.not_mem_nil, false_imp_iff, implies_true, and_true]
  exact ⟨inferInstance, inferInstance, inferInstance, inferInstance, inferInstance, inferInstance,
    inferInstance, inferInstance⟩)

instance : Shallow trimmedValue := by
  unfold trimmedValue
  infer_instance

instance : Shallow unknown := by
  unfold unknown
  infer_instance

instance : Shallow attr := avoids_choice (by
  simp only [List.forall_mem_cons, List.not_mem_nil, false_imp_iff, implies_true, and_true]
  exact ⟨inferInstance, inferInstance, inferInstance, inferInstance, inferInstance, inferInstance⟩)

instance : Forward keyword := Built.forward inferInstance

instance : Forward attr := Built.forward inferInstance

instance : Forward nodeToken := Built.forward inferInstance

instance : Forward nodeValue := Built.forward inferInstance

instance (node : Parser RawNode) [Forward node] : Forward (entryOf node) := by
  unfold entryOf
  infer_instance

/-! ## Rules agree when what is nested agrees -/

section
variable {places : Cursor → Prop} {p q : Parser RawNode}

theorem entryOf_agree (h : AgreeOn places p q) : AgreeOn places (entryOf p) (entryOf q) :=
  .orElse (.refl _) (.orElse (h.map _) (.refl _))

/-- Where a node starts, the parser of the nodes below it is only used further on. -/
theorem nodeOf_agree [Forward p] (h : AgreeOn (Beyond places) p q) :
    AgreeOn places (nodeOf p) (nodeOf q) := by
  have := advances_token "(" (by decide)
  -- all that follows the parenthesis runs further on
  refine .bind_of_advances fun _ => .bind (.refl _) fun _ => .bind (.refl _) fun _ => ?_
  refine .bind (.refl _) fun _ => .bind (.many ?_) fun _ => .refl _
  exact .bind (.refl _) fun _ => .bind (entryOf_agree h) fun _ => .refl _

theorem entryOf_refines (h : Refines p q) : Refines (entryOf p) (entryOf q) :=
  .orElse (.refl _) (.orElse (h.map _) (.refl _))

/-- Where the nodes below a node are followed less deep, so is the node. -/
theorem nodeOf_refines (h : Refines p q) : Refines (nodeOf p) (nodeOf q) := by
  refine .bind (.refl _) fun _ => .bind (.refl _) fun _ => .bind (.refl _) fun _ => ?_
  refine .bind (.refl _) fun _ => .bind (.many ?_) fun _ => .refl _
  exact .bind (.refl _) fun _ => .bind (entryOf_refines h) fun _ => .refl _

end

/-- A node nests only nodes that start after it. -/
theorem unrolls_nodeWithin : Unrolls nodeOf nodeWithin where
  contracts _ _ _ _ _ := nodeOf_agree
  forward depth := (built_nodeWithin depth).forward
  succ _ := rfl

/-! ## One parser for all levels -/

/-- A node, nested to any depth. -/
def anyNode : Parser RawNode := atAnyDepth nodeWithin

instance : Shallow anyNode := unrolls_nodeWithin.shallow_atAnyDepth

theorem nodeWithin_agree_anyNode {n depth : Nat} (h : n < depth) :
    AgreeOn (AtMost n) (nodeWithin depth) anyNode :=
  unrolls_nodeWithin.agree_atAnyDepth h

theorem nodeWithin_refines_anyNode (depth : Nat) : Refines (nodeWithin depth) anyNode :=
  unrolls_nodeWithin.refines_atAnyDepth (fun _ => rfl) (fun _ _ => nodeOf_refines) depth

/-- A whole dump, nested to any depth. -/
def anyDocument : Parser RawNode := do
  skipSpaces
  let root ← anyNode
  skipSpaces
  endOfInput
  return root

instance : Shallow anyDocument := by
  unfold anyDocument
  infer_instance

theorem document_refines [CallStack] : Refines document anyDocument :=
  .bind (.refl _) fun _ => .bind (nodeWithin_refines_anyNode CallStack.nodes) fun _ => .refl _

/-- A short text is read alike with the room there is and with any. -/
theorem document_agree [CallStack] {n : Nat} (h : n < CallStack.nodes) :
    AgreeOn (AtMost n) document anyDocument := by
  have hnode : AgreeOn (AtMost n) node anyNode := nodeWithin_agree_anyNode h
  have : Forward node := Built.forward inferInstance
  exact .bind (.refl _) fun _ => .bind hnode fun _ => .refl _

end Grammar

open Grammar

/-- A dump is read or refused as the unlimited rule does it; or it is too deep, which takes at least
as many characters as there is room for nodes. -/
theorem RawNode.parse_cases [CallStack] (text : String) :
    (∃ root next, anyDocument (.start text.toList) = .ok root next ∧ parse text = .ok root) ∨
    (∃ failure, anyDocument (.start text.toList) = .failed failure ∧
      parse text = .error (.malformed (.unexpected failure))) ∨
    (∃ digits, anyDocument (.start text.toList) = .stopped (.notANumeral digits) ∧
      parse text = .error (.notANumeral digits)) ∨
    CallStack.nodes ≤ text.length ∧ parse text = .error (.malformed .tooDeep) := by
  unfold parse
  rcases document_refines (.start text.toList) with hdeep | heq
  · refine .inr (.inr (.inr ⟨?_, by rw [hdeep]⟩))
    by_contra! hshort
    refine (document_agree hshort (.start text.toList) ?_).2 hdeep
    exact String.length_toList.le
  · rw [heq]
    cases hreply : anyDocument (.start text.toList) with
    | ok root next => exact .inl ⟨root, next, rfl, rfl⟩
    | failed failure => exact .inr (.inl ⟨failure, rfl, rfl⟩)
    | stopped stop =>
      cases stop with
      | tooDeep => exact absurd hreply (Parser.Shallow.ne_tooDeep _)
      | notANumeral digits => exact .inr (.inr (.inl ⟨digits, rfl, rfl⟩))

end TypeScribe.Dump
