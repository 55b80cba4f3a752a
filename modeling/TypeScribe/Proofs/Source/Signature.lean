import TypeScribe.Proofs.Source.Patterns
import TypeScribe.Proofs.Source.Stretches

/-!
# The ends of a closure's signature

The signature of a closure is a parameter clause, then effects, then an arrow with a return type.
The parameter clause and the place of the arrow are edited apart from one another, and both are read
off the children of the signature in one walk (`SourceFile.signatureParts`).

The clause ends with what comes last before the first effect or arrow
(`SourceFile.signatureParts_stop`). Where children stand in order, this cuts them in two: everything
before has ended there, and nothing from the effect or arrow on has started
(`SourceFile.signatureParts_cut`). The effects end with the last one before the arrow, whatever
stands between them (`SourceFile.signatureParts_effectsStop`). So a site has its four places in
order, and its two edits are apart (`SourceFile.closureSite_spans_signature`).
-/

namespace TypeScribe

namespace SyntaxNode

/-- The children of a node are inside it, in order, and do not overlap. -/
structure ChildrenInOrder (node : SyntaxNode) : Prop where
  inside : ∀ child ∈ node.children,
    node.start ≤ child.start ∧ child.start ≤ child.stop ∧ child.stop ≤ node.stop
  ordered : node.children.Pairwise fun a b => a.stop ≤ b.start

/-- Is it an `async` or a `throws`? -/
def isEffect (node : SyntaxNode) : Bool := SourceFile.effectKinds.contains node.kind

/-- Is it an effect or an arrow? -/
def endsClause (node : SyntaxNode) : Bool := node.kind == "->" || node.isEffect

/-- The parameter clause of a signature: what comes before the first effect or arrow. -/
def clause (signature : SyntaxNode) : List SyntaxNode :=
  signature.children.takeWhile (!endsClause ·)

/-- The effects of a signature: those before the arrow, if there is one. -/
def effects (signature : SyntaxNode) : List SyntaxNode :=
  (signature.children.takeWhile (·.kind != "->")).filter isEffect

/-- The parameter clause of a signature ends at `stop`, and its effects at `effectsStop`. -/
structure EndsAt (signature : SyntaxNode) (stop effectsStop : Nat) : Prop where
  in_order : signature.start ≤ stop ∧ stop ≤ effectsStop ∧ effectsStop ≤ signature.stop
  covers : ∀ child ∈ signature.clause, signature.start ≤ child.start ∧ child.stop ≤ stop
  /-- Nothing from the first effect or arrow on has started. -/
  apart : ∀ child ∈ signature.children.dropWhile (!endsClause ·), stop ≤ child.start
  clause_end : stop = signature.clause.getLast?.elim signature.start (·.stop)
  effects_end : effectsStop = signature.effects.getLast?.elim stop (·.stop)

end SyntaxNode

namespace SourceFile

open SyntaxNode

/-! ## The walk over a signature -/

/-- After an effect, nothing moves the end of the parameter clause. -/
theorem signatureParts_stop_of_effect (stop effectsStop : Nat) (children : List SyntaxNode) :
    (signatureParts stop (some effectsStop) children).stop = stop := by
  induction children generalizing effectsStop with
  | nil => rfl
  | cons child rest ih =>
    by_cases harrow : child.kind = "->"
    · rw [signatureParts_cons_arrow harrow]
    · by_cases heffect : child.isEffect = true
      · rw [signatureParts_cons_effect harrow heffect, ih]
      · rw [signatureParts_cons_other harrow heffect]
        exact ih effectsStop

/-- A child that does not end the clause prolongs it. -/
theorem signatureParts_cons_of_not_endsClause {child : SyntaxNode} (h : child.endsClause = false)
    (stop : Nat) (rest : List SyntaxNode) :
    signatureParts stop none (child :: rest) = signatureParts child.stop none rest := by
  have hother : child.kind ≠ "->" ∧ ¬ child.isEffect = true := by simpa [endsClause] using h
  exact signatureParts_cons_other hother.1 hother.2 stop none rest

/-- A child that ends it leaves it as it is. -/
theorem signatureParts_stop_of_endsClause {child : SyntaxNode} (h : child.endsClause = true)
    (stop : Nat) (rest : List SyntaxNode) :
    (signatureParts stop none (child :: rest)).stop = stop := by
  by_cases harrow : child.kind = "->"
  · rw [signatureParts_cons_arrow harrow]
  · have heffect : child.isEffect = true := by simpa [endsClause, harrow] using h
    rw [signatureParts_cons_effect harrow heffect, signatureParts_stop_of_effect]

/-- The parameter clause ends with what comes last before the first effect or arrow. -/
theorem signatureParts_stop (stop : Nat) (children : List SyntaxNode) :
    (signatureParts stop none children).stop =
      (children.takeWhile (!endsClause ·)).getLast?.elim stop (·.stop) := by
  induction children generalizing stop with
  | nil => rfl
  | cons child rest ih =>
    cases hends : child.endsClause with
    | true =>
      rw [signatureParts_stop_of_endsClause hends, List.takeWhile_cons_of_neg (by simp [hends])]
      rfl
    | false =>
      rw [signatureParts_cons_of_not_endsClause hends, ih,
        List.takeWhile_cons_of_pos (by simp [hends]), List.getLast?_cons]
      cases (rest.takeWhile (!endsClause ·)).getLast? <;> rfl

/-- The effects end with the last one before the arrow. What is carried through the walk is the end
of the last one seen so far. -/
theorem signatureParts_effectsStop (stop : Nat) (effectsStop : Option Nat)
    (children : List SyntaxNode) :
    (signatureParts stop effectsStop children).effectsStop =
      (((children.takeWhile (·.kind != "->")).filter isEffect).getLast?.map (·.stop)).or
        effectsStop := by
  induction children generalizing stop effectsStop with
  | nil => rfl
  | cons child rest ih =>
    by_cases harrow : child.kind = "->"
    · rw [signatureParts_cons_arrow harrow, List.takeWhile_cons_of_neg (by simp [harrow])]
      rfl
    · rw [List.takeWhile_cons_of_pos (by simp [harrow])]
      by_cases heffect : child.isEffect = true
      · rw [signatureParts_cons_effect harrow heffect, ih, List.filter_cons_of_pos heffect,
          List.getLast?_cons]
        cases ((rest.takeWhile (·.kind != "->")).filter isEffect).getLast? <;> rfl
      · rw [signatureParts_cons_other harrow heffect, ih, List.filter_cons_of_neg heffect]

/-- The walk cuts children that stand in order: what comes before the first effect or arrow has
ended where the parameter clause ends, and nothing from there on has started. What is carried
through the walk: the children still to come start after the end found so far. -/
theorem signatureParts_cut {limit : Nat} {children : List SyntaxNode} (stop : Nat)
    (hstop : stop ≤ limit)
    (hchildren : ∀ c ∈ children, stop ≤ c.start ∧ c.start ≤ c.stop ∧ c.stop ≤ limit)
    (hordered : children.Pairwise fun a b => a.stop ≤ b.start) :
    (∀ child ∈ children.takeWhile (!endsClause ·),
      child.stop ≤ (signatureParts stop none children).stop) ∧
    ∀ child ∈ children.dropWhile (!endsClause ·),
      (signatureParts stop none children).stop ≤ child.start := by
  induction children generalizing stop with
  | nil => simp
  | cons child rest ih =>
    obtain ⟨hafter, hordered'⟩ := List.pairwise_cons.1 hordered
    have hchild := hchildren child List.mem_cons_self
    have hrest : ∀ c ∈ rest, child.stop ≤ c.start ∧ c.start ≤ c.stop ∧ c.stop ≤ limit :=
      fun c hc => ⟨hafter c hc, (hchildren c (List.mem_cons_of_mem _ hc)).2⟩
    cases hends : child.endsClause with
    | true =>
      rw [List.takeWhile_cons_of_neg (by simp [hends]),
        List.dropWhile_cons_of_neg (by simp [hends]), signatureParts_stop_of_endsClause hends]
      exact ⟨by simp, fun c hc => (hchildren c hc).1⟩
    | false =>
      have hbounds := signatureParts_bounds child.stop none hchild.2.2 (by simp) hrest hordered'
      obtain ⟨hcovers, hapart⟩ := ih child.stop hchild.2.2 hrest hordered'
      rw [List.takeWhile_cons_of_pos (by simp [hends]),
        List.dropWhile_cons_of_pos (by simp [hends]), signatureParts_cons_of_not_endsClause hends]
      exact ⟨List.forall_mem_cons.2 ⟨hbounds.1, hcovers⟩, hapart⟩

/-- The ends that the walk over a signature finds. -/
theorem signatureParts_endsAt {signature : SyntaxNode} (hspan : signature.start ≤ signature.stop)
    (h : signature.ChildrenInOrder) :
    signature.EndsAt (signatureParts signature.start none signature.children).stop
      (signatureParts signature.start none signature.children).effectsEnd := by
  have hcut := signatureParts_cut signature.start hspan h.inside h.ordered
  refine ⟨signatureParts_bounds signature.start none hspan (by simp) h.inside h.ordered,
    fun child hchild => ⟨?_, hcut.1 child hchild⟩, hcut.2, signatureParts_stop _ _, ?_⟩
  · exact (h.inside child ((List.takeWhile_sublist _).mem hchild)).1
  · rw [SignatureParts.effectsEnd, signatureParts_effectsStop, Option.or_none, effects]
    cases ((signature.children.takeWhile (·.kind != "->")).filter isEffect).getLast? <;> rfl

/-! ## The site of a closure -/

/-- A function of a value that may be missing succeeds if the value is there. -/
theorem bind_pure_eq_ok_iff {ε α β : Type} {outcome : Except ε α} {f : α → β} {result : β} :
    (outcome >>= fun value => pure (f value)) = .ok result ↔
      ∃ value, outcome = .ok value ∧ result = f value := by
  cases outcome with
  | error fault => exact iff_of_false nofun nofun
  | ok value =>
    constructor
    · intro h
      exact ⟨value, rfl, (Except.ok.inj h).symm⟩
    · rintro ⟨_, h, rfl⟩
      cases h
      rfl

/-- The site of a closure with a signature is put together from its parameters and has the places
that the walk over the signature finds. -/
theorem closureSite_of_signature? {literal signature : SyntaxNode} (file : SourceFile)
    (h : literal.signature? = some signature) :
    ∃ toSite : List ClosureParameter → ClosureSite,
      (∀ site, file.closureSite literal = .ok site ↔
        ∃ parameters, (signature.descendants "lambda_parameter" ["lambda_literal"]).mapM
          (fun parameter => file.textOf parameter >>= closureParameter) = .ok parameters ∧
            site = toSite parameters) ∧
      ∀ parameters,
        (toSite parameters).signatureStart = some (signature.start : Int) ∧
        (toSite parameters).signatureEnd =
          some ((signatureParts signature.start none signature.children).stop : Int) ∧
        (toSite parameters).effectsEnd =
          some ((signatureParts signature.start none signature.children).effectsEnd : Int) := by
  rw [signature?] at h
  rw [closureSite, h]
  exact ⟨_, fun site => bind_pure_eq_ok_iff, fun _ => ⟨rfl, rfl, rfl⟩⟩

/-- Of a closure whose tree stands in order, with a signature, the site has the places of that
signature in order: its start, the end of the parameter clause, and the end of the effects. The
clause takes in everything before the first effect or arrow and nothing from there on, so the edits
of a closure do not overlap. The site is given if and only if each parameter can be read, which
means that its text is UTF-8 and has a name before its colon. -/
theorem closureSite_spans_signature (file : SourceFile) {literal : SyntaxNode}
    (hchildren : literal.ChildrenInOrder)
    (hgrandchildren : ∀ child ∈ literal.children, child.ChildrenInOrder)
    (hsignature : ∃ child ∈ literal.namedChildren, child.kind = "lambda_function_type") :
    ∃ signature, literal.signature? = some signature ∧
      ((∃ site, file.closureSite literal = .ok site) ↔
        ∀ parameter ∈ signature.descendants "lambda_parameter" ["lambda_literal"],
          ∃ read, (file.textOf parameter >>= closureParameter) = .ok read) ∧
      ∀ site, file.closureSite literal = .ok site →
        ∃ stop effectsStop : Nat,
          site.signatureStart = some (signature.start : Int) ∧
          site.signatureEnd = some (stop : Int) ∧
          site.effectsEnd = some (effectsStop : Int) ∧
          signature.EndsAt stop effectsStop := by
  have hfound : literal.signature?.isSome := by simpa [signature?] using hsignature
  obtain ⟨signature, hfound⟩ := Option.isSome_iff_exists.1 hfound
  obtain ⟨hmem, -⟩ := mem_of_signature?_eq_some hfound
  obtain ⟨toSite, hsite, hplaces⟩ := closureSite_of_signature? file hfound
  refine ⟨signature, hfound, ?_, fun site hok => ?_⟩
  · rw [← exists_mapM_eq_ok_iff]
    constructor
    · rintro ⟨site, hok⟩
      obtain ⟨parameters, hparameters, -⟩ := (hsite site).1 hok
      exact ⟨parameters, hparameters⟩
    · rintro ⟨parameters, hparameters⟩
      exact ⟨toSite parameters, (hsite _).2 ⟨parameters, hparameters, rfl⟩⟩
  · obtain ⟨parameters, -, rfl⟩ := (hsite site).1 hok
    obtain ⟨hstart, hstop, heffects⟩ := hplaces parameters
    obtain ⟨-, hspan, -⟩ := hchildren.inside signature hmem
    exact ⟨_, _, hstart, hstop, heffects,
      signatureParts_endsAt hspan (hgrandchildren signature hmem)⟩

/-- A closure in a file of its own: `{ (x: Int) async throws -> Int in x }`. -/
def throwingFile : SourceFile :=
  let piece (kind : String) (start stop : Nat) (children : List SyntaxNode) : SyntaxNode :=
    ⟨kind, start, stop, 0, start, true, none, children⟩
  { name := "main.swift"
    bytes := Text.encode "\x7b (x: Int) async throws -> Int in x \x7d"
    root := piece "lambda_literal" 0 37 [
      piece "\x7b" 0 1 [],
      piece "lambda_function_type" 2 30 [
        piece "(" 2 3 [],
        piece "lambda_function_type_parameters" 3 9 [piece "lambda_parameter" 3 9 []],
        piece ")" 9 10 [],
        piece "async" 11 16 [],
        piece "throws" 17 23 [],
        piece "->" 24 26 [],
        piece "user_type" 27 30 []],
      piece "in" 31 33 [],
      piece "statements" 34 35 [],
      piece "\x7d" 36 37 []] }

/-- Its clause runs from 2 to 10, and its effects end at 23. -/
theorem closureSite_spans_throwingFile :
    (throwingFile.root.ChildrenInOrder ∧
      (∀ child ∈ throwingFile.root.children, child.ChildrenInOrder) ∧
      ∃ child ∈ throwingFile.root.namedChildren, child.kind = "lambda_function_type") ∧
    ∃ site, throwingFile.closureSite throwingFile.root = .ok site ∧
      site.signatureStart = some 2 ∧ site.signatureEnd = some 10 ∧ site.effectsEnd = some 23 := by
  have hchildren : throwingFile.root.ChildrenInOrder := ⟨by decide +kernel, by decide +kernel⟩
  have hgrandchildren : ∀ child ∈ throwingFile.root.children, child.ChildrenInOrder := by
    have hinside : ∀ child ∈ throwingFile.root.children, ∀ part ∈ child.children,
        child.start ≤ part.start ∧ part.start ≤ part.stop ∧ part.stop ≤ child.stop := by
      decide +kernel
    have hordered : ∀ child ∈ throwingFile.root.children,
        child.children.Pairwise fun a b => a.stop ≤ b.start := by
      decide +kernel
    exact fun child hchild => ⟨hinside child hchild, hordered child hchild⟩
  have hsignature : ∃ child ∈ throwingFile.root.namedChildren,
      child.kind = "lambda_function_type" := by
    decide +kernel
  refine ⟨⟨hchildren, hgrandchildren, hsignature⟩, ?_⟩
  obtain ⟨signature, hfound, hgiven, hspans⟩ :=
    closureSite_spans_signature throwingFile hchildren hgrandchildren hsignature
  have hreads : ∀ found ∈ throwingFile.root.signature?,
      ∀ parameter ∈ found.descendants "lambda_parameter" ["lambda_literal"],
        (throwingFile.textOf parameter >>= closureParameter).isOk := by
    decide +kernel
  have hplaces : ∀ found ∈ throwingFile.root.signature?, found.start = 2 ∧
      found.clause.getLast?.elim found.start (·.stop) = 10 ∧
      found.effects.getLast?.elim 10 (·.stop) = 23 := by
    decide +kernel
  obtain ⟨site, hsite⟩ := hgiven.2 fun parameter hparameter => by
    have hread := hreads signature hfound parameter hparameter
    cases hcase : throwingFile.textOf parameter >>= closureParameter with
    | ok read => exact ⟨read, rfl⟩
    | error fault =>
      rw [hcase] at hread
      cases hread
  obtain ⟨stop, effectsStop, hstart, hstop, heffects, hends⟩ := hspans site hsite
  obtain ⟨hfirst, hclause, hlast⟩ := hplaces signature hfound
  have hstop' : stop = 10 := hends.clause_end.trans hclause
  have heffects' : effectsStop = 23 := by rw [hends.effects_end, hstop', hlast]
  rw [hfirst] at hstart
  rw [hstop'] at hstop
  rw [heffects'] at heffects
  exact ⟨site, hsite, hstart, hstop, heffects⟩

end SourceFile

end TypeScribe
