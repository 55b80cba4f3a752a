import Mathlib.Data.List.Perm.Basic
import TypeScribe.Proofs.Source.Nodes

/-!
# Where annotations may be written

Three walks of a syntax tree collect the places of a file that may be edited: the callees of calls,
the ends of bound names, and the parameter clauses of closures with the place of the arrow after
them. Here the places are read off one walk (`SyntaxNode.stretchesBelow`), so that one induction on
the tree covers every pair of them: `SyntaxNode.FitsText.pairwise_apart` says that no two places
overlap, however calls, declarations and closures are nested in one another.

The step of the induction rests on one fact. A place that belongs to a node lies inside one child
of the node, and is apart from every place inside that child (`FitsText.apart_in_child`): a callee
has no parts, a bound name ends where everything in it has ended, and a closure's signature holds
nothing that may be annotated.
-/

namespace TypeScribe

/-- Two stretches of bytes do not overlap: one ends before the other starts, or where it starts. -/
def Apart (a b : Nat × Nat) : Prop := a.2 ≤ b.1 ∨ b.2 ≤ a.1

theorem Apart.symm {a b : Nat × Nat} : Apart a b → Apart b a := Or.symm

/-! ## The parts of a signature -/

namespace SourceFile

/-- Where the effects end, or the parameter clause if there are none. -/
def SignatureParts.effectsEnd (parts : SignatureParts) : Nat := parts.effectsStop.getD parts.stop

/-- At an arrow the signature ends. -/
theorem signatureParts_cons_arrow {child : SyntaxNode} (h : child.kind = "->") (stop : Nat)
    (effectsStop : Option Nat) (rest : List SyntaxNode) :
    signatureParts stop effectsStop (child :: rest) = ⟨stop, effectsStop, true⟩ := by
  cases effectsStop <;> rw [signatureParts, if_pos h]

/-- An effect before the arrow is taken along. -/
theorem signatureParts_cons_effect {child : SyntaxNode} (harrow : child.kind ≠ "->")
    (h : effectKinds.contains child.kind = true) (stop : Nat) (effectsStop : Option Nat)
    (rest : List SyntaxNode) :
    signatureParts stop effectsStop (child :: rest) =
      signatureParts stop (some child.stop) rest := by
  cases effectsStop <;> rw [signatureParts, if_neg harrow, if_pos h]

/-- Any other child moves the end of the parameter clause, until an effect was seen. -/
theorem signatureParts_cons_other {child : SyntaxNode} (harrow : child.kind ≠ "->")
    (h : ¬ effectKinds.contains child.kind = true) (stop : Nat) (effectsStop : Option Nat)
    (rest : List SyntaxNode) :
    signatureParts stop effectsStop (child :: rest) =
      signatureParts (if effectsStop.isSome then stop else child.stop) effectsStop rest := by
  cases effectsStop <;> rw [signatureParts, if_neg harrow, if_neg h] <;> rfl

/-- What one child does to the parts of a signature: the arrow ends the walk, an effect moves the
end of the effects, and anything else moves the end of the parameter clause until an effect was
seen. -/
theorem signatureParts_cons_cases (stop : Nat) (effectsStop : Option Nat) (child : SyntaxNode)
    (rest : List SyntaxNode) :
    signatureParts stop effectsStop (child :: rest) = ⟨stop, effectsStop, true⟩ ∨
    signatureParts stop effectsStop (child :: rest) = signatureParts stop (some child.stop) rest ∨
    effectsStop = none ∧
      signatureParts stop effectsStop (child :: rest) = signatureParts child.stop none rest ∨
    signatureParts stop effectsStop (child :: rest) = signatureParts stop effectsStop rest := by
  by_cases harrow : child.kind = "->"
  · exact .inl (signatureParts_cons_arrow harrow stop effectsStop rest)
  · by_cases heffect : effectKinds.contains child.kind = true
    · exact .inr (.inl (signatureParts_cons_effect harrow heffect stop effectsStop rest))
    · have hother := signatureParts_cons_other harrow heffect stop effectsStop rest
      cases effectsStop with
      | none => exact .inr (.inr (.inl ⟨rfl, hother⟩))
      | some e => exact .inr (.inr (.inr hother))

/-- The parameter clause ends before the effects do, and both inside the signature. What is carried
through the walk: the children still to come start after everything seen so far. -/
theorem signatureParts_bounds {limit : Nat} {children : List SyntaxNode} (stop : Nat)
    (effectsStop : Option Nat) (hstop : stop ≤ limit)
    (heffects : ∀ e, effectsStop = some e → stop ≤ e ∧ e ≤ limit)
    (hchildren : ∀ c ∈ children,
      effectsStop.getD stop ≤ c.start ∧ c.start ≤ c.stop ∧ c.stop ≤ limit)
    (hordered : children.Pairwise fun a b => a.stop ≤ b.start) :
    stop ≤ (signatureParts stop effectsStop children).stop ∧
      (signatureParts stop effectsStop children).stop ≤
        (signatureParts stop effectsStop children).effectsEnd ∧
      (signatureParts stop effectsStop children).effectsEnd ≤ limit := by
  have hend : stop ≤ effectsStop.getD stop ∧ effectsStop.getD stop ≤ limit := by
    cases effectsStop with
    | none => exact ⟨Nat.le_refl _, hstop⟩
    | some e => exact heffects e rfl
  induction children generalizing stop effectsStop with
  | nil => exact ⟨Nat.le_refl _, hend⟩
  | cons child rest ih =>
    obtain ⟨hafter, hordered'⟩ := List.pairwise_cons.1 hordered
    have hchild := hchildren child List.mem_cons_self
    have hrest : ∀ c ∈ rest, child.stop ≤ c.start ∧ c.start ≤ c.stop ∧ c.stop ≤ limit :=
      fun c hc => ⟨hafter c hc, (hchildren c (List.mem_cons_of_mem _ hc)).2⟩
    rcases signatureParts_cons_cases stop effectsStop child rest with h | h | ⟨rfl, h⟩ | h <;>
      rw [h]
    · exact ⟨Nat.le_refl _, hend⟩
    · refine ih stop (some child.stop) hstop (fun e he => ?_) hrest hordered' ?_
      · cases he
        omega
      · exact ⟨by simp only [Option.getD_some]; omega, hchild.2.2⟩
    · have hnext := ih child.stop none hchild.2.2 (by simp) hrest hordered'
        ⟨Nat.le_refl _, hchild.2.2⟩
      simp only [Option.getD_none] at hchild
      exact ⟨by omega, hnext.2⟩
    · exact ih stop effectsStop hstop heffects
        (fun c hc => hchildren c (List.mem_cons_of_mem _ hc)) hordered' hend

/-- Both ends of a signature are ends of its parts, or what the walk started with. -/
theorem signatureParts_ends {P : Nat → Prop} {children : List SyntaxNode} (stop : Nat)
    (effectsStop : Option Nat) (hstop : P stop) (heffects : ∀ e, effectsStop = some e → P e)
    (hchildren : ∀ c ∈ children, P c.stop) :
    P (signatureParts stop effectsStop children).stop ∧
      P (signatureParts stop effectsStop children).effectsEnd := by
  have hend : P (effectsStop.getD stop) := by
    cases effectsStop with
    | none => exact hstop
    | some e => exact heffects e rfl
  induction children generalizing stop effectsStop with
  | nil => exact ⟨hstop, hend⟩
  | cons child rest ih =>
    have hchild := hchildren child List.mem_cons_self
    have hrest : ∀ c ∈ rest, P c.stop := fun c hc => hchildren c (List.mem_cons_of_mem _ hc)
    rcases signatureParts_cons_cases stop effectsStop child rest with h | h | ⟨rfl, h⟩ | h <;>
      rw [h]
    · exact ⟨hstop, hend⟩
    · exact ih stop (some child.stop) hstop (fun e he => by cases he; exact hchild) hrest hchild
    · exact ih child.stop none hchild (by simp) hrest hchild
    · exact ih stop effectsStop hstop heffects hrest hend

/-- The patterns of a declaration are among its children. -/
theorem mem_of_mem_patternGroups {children : List SyntaxNode}
    {group : SyntaxNode × List SyntaxNode} (h : group ∈ patternGroups children) :
    group.1 ∈ children := by
  induction children with
  | nil => cases h
  | cons child rest ih =>
    rw [patternGroups_cons] at h
    split at h
    · rcases List.mem_cons.1 h with rfl | h
      · exact List.mem_cons_self
      · exact List.mem_cons_of_mem _ (ih h)
    · exact List.mem_cons_of_mem _ (ih h)

/-- A callee is a name, right below its call or below the type that is constructed. -/
theorem mem_of_callee?_eq_some {call callee : SyntaxNode} {generic : Bool}
    (h : callee? call = some (callee, generic)) :
    (callee.kind = "simple_identifier" ∨ callee.kind = "type_identifier") ∧
      (callee ∈ call.children ∨
        ∃ type ∈ call.children, type.kind = "user_type" ∧ callee ∈ type.children) := by
  rw [callee?] at h
  split at h
  · cases hrole : call.childInRole? "constructed_type" with
    | none => rw [hrole] at h; cases h
    | some type =>
      rw [hrole] at h
      simp only [bne_iff_ne, ne_eq, ite_not] at h
      split at h
      case isFalse => cases h
      next hkind =>
        split at h
        case h_2 => cases h
        next identifier hnames =>
          cases h
          have hmem : callee ∈ type.namedChildren.filter (·.kind == "type_identifier") := by
            rw [hnames]; exact List.mem_singleton_self _
          obtain ⟨hnamed, hcallee⟩ := List.mem_filter.1 hmem
          exact ⟨.inr (beq_iff_eq.1 hcallee), .inr ⟨type, List.mem_of_find?_eq_some hrole, hkind,
            List.mem_of_mem_filter hnamed⟩⟩
  · split at h
    case h_2 => cases h
    next first following rest hchildren =>
      simp only [bne_iff_ne, ne_eq, ite_not] at h
      split at h
      case isFalse => cases h
      next hkind =>
        have hcallee : first = callee := by
          split at h
          · cases h; rfl
          · split at h
            · cases h; rfl
            · cases h
        subst hcallee
        exact ⟨.inl hkind, .inl (by rw [hchildren]; exact List.mem_cons_self)⟩

end SourceFile

/-! ## The places of one node -/

namespace SyntaxNode

open SourceFile

/-- The callee of a call is below the call. -/
theorem callee_mem_nodes {call callee : SyntaxNode} {generic : Bool}
    (h : callee? call = some (callee, generic)) : callee ∈ call.nodes := by
  obtain ⟨-, hchild | ⟨type, htype, -, hchild⟩⟩ := mem_of_callee?_eq_some h
  · exact mem_nodes_of_mem_child hchild (mem_nodes_self callee)
  · exact mem_nodes_of_mem_child htype (mem_nodes_of_mem_child hchild (mem_nodes_self callee))

/-- The span of a node. -/
def span (node : SyntaxNode) : Nat × Nat := (node.start, node.stop)

/-- The signature of a closure. -/
def signature? (literal : SyntaxNode) : Option SyntaxNode :=
  literal.namedChildren.find? (·.kind == "lambda_function_type")

/-- The callee of a call. -/
def callStretches (node : SyntaxNode) : List (Nat × Nat) :=
  if callKinds.contains node.kind then (callee? node).toList.map fun found => found.1.span else []

/-- The ends of the patterns of a declaration. -/
def bindingStretches (node : SyntaxNode) : List (Nat × Nat) :=
  if ["property_declaration"].contains node.kind then
    (patternGroups node.children).map fun group => (group.1.stop, group.1.stop)
  else []

/-- The parameter clause of a signature, and the place of the arrow after it. -/
def signatureStretches (signature : SyntaxNode) : List (Nat × Nat) :=
  let parts := signatureParts signature.start none signature.children
  [(signature.start, parts.stop), (parts.effectsEnd, parts.effectsEnd)]

/-- The places in the signature of a closure. -/
def closureStretches (node : SyntaxNode) : List (Nat × Nat) :=
  if ["lambda_literal"].contains node.kind then node.signature?.toList.flatMap signatureStretches
  else []

/-- The places that belong to the node itself. -/
def stretches (node : SyntaxNode) : List (Nat × Nat) :=
  node.callStretches ++ node.bindingStretches ++ node.closureStretches

/-- The places that belong to the node or to anything below it. -/
def stretchesBelow (node : SyntaxNode) : List (Nat × Nat) := node.nodes.flatMap stretches

/-- The stretches of a tree are its own and those of its children. -/
theorem stretchesBelow_eq (node : SyntaxNode) :
    node.stretchesBelow = node.stretches ++ node.children.flatMap stretchesBelow := by
  rw [stretchesBelow, nodes_eq_cons, List.flatMap_cons, List.flatMap_assoc]
  rfl

/-- Only nodes of four kinds have places. -/
theorem stretches_eq_nil {node : SyntaxNode} (h : node.kind ∉ annotatedKinds) :
    node.stretches = [] := by
  simp only [annotatedKinds, List.mem_cons, List.not_mem_nil, or_false, not_or] at h
  simp [stretches, callStretches, bindingStretches, closureStretches, callKinds, h]

theorem stretchesBelow_eq_nil {node : SyntaxNode}
    (h : ∀ below ∈ node.nodes, below.kind ∉ annotatedKinds) : node.stretchesBelow = [] :=
  List.flatMap_eq_nil_iff.2 fun below hbelow => stretches_eq_nil (h below hbelow)

/-- The signature of a closure is a child of it. -/
theorem mem_of_signature?_eq_some {literal signature : SyntaxNode}
    (h : literal.signature? = some signature) :
    signature ∈ literal.children ∧ signature.kind = "lambda_function_type" := by
  have hkind := List.find?_some h
  exact ⟨List.mem_of_mem_filter (List.mem_of_find?_eq_some h), beq_iff_eq.1 hkind⟩

/-- What a place of a node can be: a callee, the end of a pattern, or one of the two places of a
closure's signature. -/
theorem mem_stretches_cases {node : SyntaxNode} {m : Nat × Nat} (h : m ∈ node.stretches) :
    (∃ callee generic, callee? node = some (callee, generic) ∧ m = callee.span) ∨
    (∃ pattern ∈ node.children, m = (pattern.stop, pattern.stop)) ∨
    (∃ signature, node.signature? = some signature ∧ m ∈ signature.signatureStretches) := by
  rw [stretches, List.mem_append, List.mem_append] at h
  rcases h with (h | h) | h
  · rw [callStretches] at h
    split at h
    case isFalse => cases h
    obtain ⟨⟨callee, generic⟩, hfound, rfl⟩ := List.mem_map.1 h
    exact .inl ⟨callee, generic, Option.mem_toList.1 hfound, rfl⟩
  · rw [bindingStretches] at h
    split at h
    case isFalse => cases h
    obtain ⟨group, hgroup, rfl⟩ := List.mem_map.1 h
    exact .inr (.inl ⟨group.1, mem_of_mem_patternGroups hgroup, rfl⟩)
  · rw [closureStretches] at h
    split at h
    case isFalse => cases h
    obtain ⟨signature, hfound, hm⟩ := List.mem_flatMap.1 h
    exact .inr (.inr ⟨signature, Option.mem_toList.1 hfound, hm⟩)

/-! ## The places of a tree -/

namespace FitsText

variable {root node : SyntaxNode} {text : String}

/-- The bounds of the parts of a signature of the tree. -/
theorem signatureParts_bounds (h : root.FitsText text) (hnode : node ∈ root.nodes) :
    node.start ≤ (signatureParts node.start none node.children).stop ∧
      (signatureParts node.start none node.children).stop ≤
        (signatureParts node.start none node.children).effectsEnd ∧
      (signatureParts node.start none node.children).effectsEnd ≤ node.stop :=
  SourceFile.signatureParts_bounds node.start none (h.node_in_text hnode).1 (by simp)
    (h.inside node hnode) (h.ordered node hnode)

/-- A place in a signature lies inside it. -/
theorem signatureStretches_inside (h : root.FitsText text) (hnode : node ∈ root.nodes)
    {m : Nat × Nat} (hm : m ∈ node.signatureStretches) :
    node.start ≤ m.1 ∧ m.1 ≤ m.2 ∧ m.2 ≤ node.stop := by
  have hbounds := h.signatureParts_bounds hnode
  simp only [signatureStretches, List.mem_cons, List.not_mem_nil, or_false] at hm
  rcases hm with rfl | rfl
  · exact ⟨Nat.le_refl _, by omega, by omega⟩
  · exact ⟨by omega, Nat.le_refl _, by omega⟩

/-- A place of a node lies inside one of its children. -/
theorem exists_child_of_mem_stretches (h : root.FitsText text) (hnode : node ∈ root.nodes)
    {m : Nat × Nat} (hm : m ∈ node.stretches) :
    ∃ child ∈ node.children, child.start ≤ m.1 ∧ m.1 ≤ m.2 ∧ m.2 ≤ child.stop := by
  rcases mem_stretches_cases hm with ⟨callee, generic, hcallee, rfl⟩ | ⟨pattern, hmem, rfl⟩ |
    ⟨signature, hsignature, hm⟩
  · obtain ⟨-, hchild | ⟨type, htype, -, hchild⟩⟩ := mem_of_callee?_eq_some hcallee
    · exact ⟨callee, hchild, Nat.le_refl _, (h.inside node hnode callee hchild).2.1, Nat.le_refl _⟩
    · exact ⟨type, htype, h.inside type (mem_nodes_of_child_mem hnode htype) callee hchild⟩
  · have hinside := h.inside node hnode pattern hmem
    exact ⟨pattern, hmem, hinside.2.1, Nat.le_refl _, Nat.le_refl _⟩
  · obtain ⟨hchild, -⟩ := mem_of_signature?_eq_some hsignature
    exact ⟨signature, hchild,
      h.signatureStretches_inside (mem_nodes_of_child_mem hnode hchild) hm⟩

/-- Every place in a tree lies inside its root. -/
theorem stretchesBelow_inside (h : root.FitsText text) (hnode : node ∈ root.nodes) :
    ∀ m ∈ node.stretchesBelow, node.start ≤ m.1 ∧ m.1 ≤ m.2 ∧ m.2 ≤ node.stop := by
  induction node using induction_on_children with
  | step node ih =>
    intro m hm
    rw [stretchesBelow_eq, List.mem_append, List.mem_flatMap] at hm
    rcases hm with hm | ⟨child, hchild, hm⟩
    · obtain ⟨child, hchild, hspan⟩ := h.exists_child_of_mem_stretches hnode hm
      have hinside := h.inside node hnode child hchild
      omega
    · have hinside := h.inside node hnode child hchild
      have hspan := ih child hchild (mem_nodes_of_child_mem hnode hchild) m hm
      omega

/-- A name holds no places. -/
theorem stretchesBelow_name (h : root.FitsText text) (hnode : node ∈ root.nodes)
    (hkind : node.kind = "simple_identifier" ∨ node.kind = "type_identifier") :
    node.stretchesBelow = [] := by
  refine stretchesBelow_eq_nil fun below hbelow => ?_
  rw [nodes_eq_cons, h.leaf node hnode hkind, List.flatMap_nil, List.mem_singleton] at hbelow
  subst hbelow
  rcases hkind with hkind | hkind <;> rw [hkind] <;> decide

/-- The signature of a closure holds no places. -/
theorem stretchesBelow_signature (h : root.FitsText text) (hnode : node ∈ root.nodes)
    (hkind : node.kind = "lambda_function_type") : node.stretchesBelow = [] := by
  refine stretchesBelow_eq_nil fun below hbelow => ?_
  rw [nodes_eq_cons] at hbelow
  rcases List.mem_cons.1 hbelow with rfl | hbelow
  · rw [hkind]; decide
  · obtain ⟨child, hchild, hin⟩ := List.mem_flatMap.1 hbelow
    exact h.signature node hnode hkind child hchild below hin

/-- What lies inside different children of a node is apart. -/
theorem apart_of_children (h : root.FitsText text) (hnode : node ∈ root.nodes)
    {a b : SyntaxNode} (ha : a ∈ node.children) (hb : b ∈ node.children) (hne : a ≠ b)
    {m x : Nat × Nat} (hm : a.start ≤ m.1 ∧ m.1 ≤ m.2 ∧ m.2 ≤ a.stop)
    (hx : b.start ≤ x.1 ∧ x.1 ≤ x.2 ∧ x.2 ≤ b.stop) : Apart m x := by
  rcases eq_or_apart_of_pairwise (h.ordered node hnode) ha hb with rfl | hab | hba
  · exact absurd rfl hne
  · exact .inl (by omega)
  · exact .inr (by omega)

/-- A place of a node lies inside one of its children, and is apart from every place in that child:
a callee has no parts, a bound name ends after everything in it, and a signature holds no places. -/
theorem apart_in_child (h : root.FitsText text) (hnode : node ∈ root.nodes)
    {m : Nat × Nat} (hm : m ∈ node.stretches) :
    ∃ child ∈ node.children, (child.start ≤ m.1 ∧ m.1 ≤ m.2 ∧ m.2 ≤ child.stop) ∧
      ∀ x ∈ child.stretchesBelow, Apart m x := by
  rcases mem_stretches_cases hm with ⟨callee, generic, hcallee, rfl⟩ | ⟨pattern, hmem, rfl⟩ |
    ⟨signature, hsignature, hm⟩
  · obtain ⟨hname, hchild | ⟨type, htype, hkind, hchild⟩⟩ := mem_of_callee?_eq_some hcallee
    · have hspan := (h.inside node hnode callee hchild).2.1
      refine ⟨callee, hchild, ⟨Nat.le_refl _, hspan, Nat.le_refl _⟩, fun x hx => ?_⟩
      rw [h.stretchesBelow_name (mem_nodes_of_child_mem hnode hchild) hname] at hx
      cases hx
    · -- The callee is one of the names in the constructed type, which has no places of its own.
      have htype' := mem_nodes_of_child_mem hnode htype
      have hspan := h.inside type htype' callee hchild
      refine ⟨type, htype, hspan, fun x hx => ?_⟩
      have hnone : type.stretches = [] := stretches_eq_nil (by rw [hkind]; decide)
      rw [stretchesBelow_eq, hnone, List.nil_append] at hx
      obtain ⟨part, hpart, hx⟩ := List.mem_flatMap.1 hx
      have hpart' := mem_nodes_of_child_mem htype' hpart
      by_cases heq : callee = part
      · subst heq
        rw [h.stretchesBelow_name hpart' hname] at hx
        cases hx
      · exact h.apart_of_children htype' hchild hpart heq
          ⟨Nat.le_refl _, hspan.2.1, Nat.le_refl _⟩ (h.stretchesBelow_inside hpart' x hx)
  · have hspan := (h.inside node hnode pattern hmem).2.1
    refine ⟨pattern, hmem, ⟨hspan, Nat.le_refl _, Nat.le_refl _⟩, fun x hx => .inr ?_⟩
    exact (h.stretchesBelow_inside (mem_nodes_of_child_mem hnode hmem) x hx).2.2
  · obtain ⟨hchild, hkind⟩ := mem_of_signature?_eq_some hsignature
    have hchild' := mem_nodes_of_child_mem hnode hchild
    refine ⟨signature, hchild, h.signatureStretches_inside hchild' hm, fun x hx => ?_⟩
    rw [h.stretchesBelow_signature hchild' hkind] at hx
    cases hx

/-- The places of one node are apart from one another. Only nodes of different kinds have callees,
patterns and signatures, so they are of one sort; ends of patterns have no width, and a parameter
clause ends before the place of its arrow. -/
theorem stretches_pairwise (h : root.FitsText text) (hnode : node ∈ root.nodes) :
    node.stretches.Pairwise Apart := by
  by_cases hcall : node.kind ∈ callKinds
  · have hstretches : node.stretches = node.callStretches := by
      simp only [callKinds, List.mem_cons, List.not_mem_nil, or_false] at hcall
      rcases hcall with hkind | hkind <;>
        simp [stretches, bindingStretches, closureStretches, hkind]
    rw [hstretches, callStretches]
    cases callee? node <;> split <;> simp
  · have hcalls : node.callStretches = [] := by
      rw [callStretches, if_neg (by simpa using hcall)]
    rw [stretches, hcalls, List.nil_append]
    by_cases hdecl : node.kind = "property_declaration"
    · have hclosures : node.closureStretches = [] := by
        rw [closureStretches, hdecl]; rfl
      rw [hclosures, List.append_nil, bindingStretches, hdecl, if_pos (by decide)]
      refine List.pairwise_map.2 (List.pairwise_of_forall fun a b => ?_)
      exact Nat.le_total _ _
    · have hbindings : node.bindingStretches = [] := by
        rw [bindingStretches, if_neg (by simpa using hdecl)]
      rw [hbindings, List.nil_append, closureStretches]
      split
      case isFalse => exact List.Pairwise.nil
      cases hsignature : node.signature? with
      | none => exact List.Pairwise.nil
      | some signature =>
        obtain ⟨hchild, -⟩ := mem_of_signature?_eq_some hsignature
        have hbounds := h.signatureParts_bounds (mem_nodes_of_child_mem hnode hchild)
        simp only [Option.toList_some, List.flatMap_singleton, signatureStretches,
          List.pairwise_cons, List.mem_singleton, forall_eq]
        exact ⟨.inl hbounds.2.1, by simp⟩

/-- No two places of a tree overlap. -/
theorem pairwise_apart (h : root.FitsText text) (hnode : node ∈ root.nodes) :
    node.stretchesBelow.Pairwise Apart := by
  induction node using induction_on_children with
  | step node ih =>
    rw [stretchesBelow_eq, List.pairwise_append, List.pairwise_flatMap]
    refine ⟨h.stretches_pairwise hnode, ⟨fun child hchild =>
      ih child hchild (mem_nodes_of_child_mem hnode hchild), ?_⟩, fun m hm x hx => ?_⟩
    · -- Places of two children are ordered as the children are.
      refine (h.ordered node hnode).imp_of_mem fun ha hb hab m hm x hx => .inl ?_
      have hm := h.stretchesBelow_inside (mem_nodes_of_child_mem hnode ha) m hm
      have hx := h.stretchesBelow_inside (mem_nodes_of_child_mem hnode hb) x hx
      omega
    · obtain ⟨other, hother, hx⟩ := List.mem_flatMap.1 hx
      obtain ⟨child, hchild, hspan, hapart⟩ := h.apart_in_child hnode hm
      by_cases heq : child = other
      · exact hapart x (heq ▸ hx)
      · exact h.apart_of_children hnode hchild hother heq hspan
          (h.stretchesBelow_inside (mem_nodes_of_child_mem hnode hother) x hx)

/-- Every place of a tree starts and ends between two characters of the text. -/
theorem stretches_boundary (h : root.FitsText text) (hnode : node ∈ root.nodes)
    {m : Nat × Nat} (hm : m ∈ node.stretches) :
    Text.IsBoundary text m.1 ∧ Text.IsBoundary text m.2 := by
  rcases mem_stretches_cases hm with ⟨callee, generic, hcallee, rfl⟩ | ⟨pattern, hmem, rfl⟩ |
    ⟨signature, hsignature, hm⟩
  · exact h.boundary callee (mem_nodes_trans hnode (callee_mem_nodes hcallee))
  · have hstop := (h.boundary pattern (mem_nodes_of_child_mem hnode hmem)).2
    exact ⟨hstop, hstop⟩
  · obtain ⟨hchild, -⟩ := mem_of_signature?_eq_some hsignature
    have hchild' := mem_nodes_of_child_mem hnode hchild
    have hstart := (h.boundary signature hchild').1
    have hends := signatureParts_ends (P := Text.IsBoundary text) signature.start none hstart
      (by simp) fun c hc => (h.boundary c (mem_nodes_of_child_mem hchild' hc)).2
    simp only [signatureStretches, List.mem_cons, List.not_mem_nil, or_false] at hm
    rcases hm with rfl | rfl
    · exact ⟨hstart, hends.1⟩
    · exact ⟨hends.2, hends.2⟩

end FitsText

end SyntaxNode

end TypeScribe
