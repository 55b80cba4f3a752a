import Mathlib.Data.List.TakeWhile
import TypeScribe.Proofs.Annotate.Places
import TypeScribe.Proofs.Source.Signature

/-!
# The sites of a parsed text

Of a text whose tree keeps the promises of a Swift parser (`SyntaxNode.FitsText`), all sites can be
listed: every text that is cut out of it can be read, and every closure parameter has a name. The
places of the listed sites are those of the tree (`FitsText.calls_listed`,
`FitsText.bindings_listed`, `FitsText.closures_listed`).
-/

namespace TypeScribe

/-! ## Lists -/

/-- A map that may fail succeeds on a list if it succeeds on its members, and what is known of the
members' images is known of the list of images. -/
theorem mapM_ok_of_forall {ε α β γ : Type} {f : α → Except ε β} {g : α → γ} {k : β → γ}
    {P : β → Prop} {l : List α} (h : ∀ a ∈ l, ∃ b, f a = .ok b ∧ k b = g a ∧ P b) :
    ∃ bs, l.mapM f = .ok bs ∧ bs.map k = l.map g ∧ ∀ b ∈ bs, P b := by
  induction l with
  | nil => exact ⟨[], by rw [List.mapM_nil]; rfl, rfl, by simp⟩
  | cons a rest ih =>
    obtain ⟨b, hb, hkey, hP⟩ := h a List.mem_cons_self
    obtain ⟨bs, hbs, hkeys, hPs⟩ := ih fun x hx => h x (List.mem_cons_of_mem _ hx)
    refine ⟨b :: bs, ?_, ?_, ?_⟩
    · rw [List.mapM_cons, hb, hbs]
      rfl
    · rw [List.map_cons, List.map_cons, hkey, hkeys]
    · intro x hx
      rcases List.mem_cons.1 hx with rfl | hx
      · exact hP
      · exact hPs x hx

/-- What a map that may fail gives are images of the members. -/
theorem exists_of_mem_mapM {ε α β : Type} {f : α → Except ε β} {l : List α} {bs : List β} {b : β}
    (h : l.mapM f = .ok bs) (hb : b ∈ bs) : ∃ a ∈ l, f a = .ok b := by
  have himages := mapM_eq_ok_iff_forall₂.1 h
  clear h
  induction himages with
  | nil => cases hb
  | @cons a first _ _ hfirst _ ih =>
    rcases List.mem_cons.1 hb with rfl | hb
    · exact ⟨a, List.mem_cons_self, hfirst⟩
    · obtain ⟨other, hother, heq⟩ := ih hb
      exact ⟨other, List.mem_cons_of_mem _ hother, heq⟩

/-- Walking over the members that satisfy a test is walking over all members with a test. -/
theorem flatMap_filter {α β : Type} (p : α → Bool) (f : α → List β) (l : List α) :
    (l.filter p).flatMap f = l.flatMap fun a => if p a then f a else [] := by
  induction l with
  | nil => rfl
  | cons a rest ih =>
    rw [List.filter_cons, List.flatMap_cons, ← ih]
    split
    · rw [List.flatMap_cons]
    · rw [List.nil_append]

/-! ## Closure parameters -/

/-- Where a character is not blank, there is a last word. -/
theorem exists_lastWord? {text : List Char} (h : ∃ c ∈ text, Text.isBlank c = false) :
    ∃ word, Text.lastWord? text = some word := by
  obtain ⟨c, hmem, hblank⟩ := h
  rw [Text.lastWord?, Text.trimEnd, List.reverse_reverse]
  cases hdrop : text.reverse.dropWhile Text.isBlank with
  | nil =>
    have hall := List.dropWhile_eq_nil_iff.1 hdrop c (List.mem_reverse.2 hmem)
    rw [hblank] at hall
    cases hall
  | cons d rest =>
    have hd : Text.isBlank d = false := by
      have hne : text.reverse.dropWhile Text.isBlank ≠ [] := by rw [hdrop]; simp
      have := List.head_dropWhile_not Text.isBlank hne
      simpa [hdrop] using this
    rw [List.takeWhile_cons, if_pos (by rw [hd]; rfl)]
    exact ⟨_, rfl⟩

/-- A parameter without a colon, or with a name before it, can be read. -/
theorem exists_closureParameter {text : String}
    (h : ':' ∈ text.toList → ∃ c ∈ text.toList.takeWhile (· != ':'), Text.isBlank c = false) :
    ∃ parameter, SourceFile.closureParameter text = .ok parameter := by
  rw [SourceFile.closureParameter]
  split
  · next hcolon =>
    obtain ⟨word, hword⟩ := exists_lastWord? (h (List.contains_iff_mem.1 hcolon))
    rw [hword]
    exact ⟨_, rfl⟩
  · exact ⟨_, rfl⟩

/-! ## The sites -/

/-- The stretch of a node as that of a site. -/
def toStretch (m : Nat × Nat) : Int × Int := (m.1, m.2)

namespace SyntaxNode.FitsText

open SourceFile

variable {root : SyntaxNode} {text : String}

/-- The text of a node of the tree can be read. -/
theorem exists_textOf (h : root.FitsText text) (name : String) {node : SyntaxNode}
    (hnode : node ∈ root.nodes) :
    ∃ written, Text.decode? (Text.byteSlice (Text.encode text) node.start node.stop) =
      some written ∧ textOf ⟨name, Text.encode text, root⟩ node = .ok written := by
  obtain ⟨hstart, hstop⟩ := h.boundary node hnode
  obtain ⟨written, hwritten⟩ :=
    (hstart.byteSlice_isText hstop (h.node_in_text hnode).1).decode?
  refine ⟨written, hwritten, ?_⟩
  rw [textOf, decode, hwritten]

/-- All calls are listed, with the places of their callees. -/
theorem calls_listed (h : root.FitsText text) (name : String) :
    ∃ sites, calls ⟨name, Text.encode text, root⟩ = .ok sites ∧
      sites.map CallSite.stretch = (root.nodes.flatMap callStretches).map toStretch := by
  have hsite : ∀ found ∈ (root.ofKinds callKinds).filterMap callee?,
      ∃ site, callSite ⟨name, Text.encode text, root⟩ found.1 found.2 = .ok site ∧
        site.stretch = toStretch found.1.span ∧ True := by
    rintro ⟨callee, generic⟩ hfound
    obtain ⟨call, hcall, hcallee⟩ := List.mem_filterMap.1 hfound
    rw [ofKinds_eq_filter] at hcall
    have hcall' := List.mem_of_mem_filter hcall
    have hnode := mem_nodes_trans hcall' (callee_mem_nodes hcallee)
    obtain ⟨written, -, hwritten⟩ := h.exists_textOf name hnode
    rw [callSite, hwritten]
    exact ⟨_, rfl, rfl, trivial⟩
  obtain ⟨sites, hsites, hplaces, -⟩ := mapM_ok_of_forall hsite
  refine ⟨sites, hsites, ?_⟩
  rw [hplaces, List.filterMap_eq_flatMap_toList, ofKinds_eq_filter, flatMap_filter,
    List.map_flatMap, List.map_flatMap]
  refine List.flatMap_congr fun node _ => ?_
  rw [callStretches]
  split
  · rw [List.map_map]
    rfl
  · rfl

/-- All bindings are listed, with the ends of their names. -/
theorem bindings_listed (h : root.FitsText text) (name : String) :
    ∃ sites, bindings ⟨name, Text.encode text, root⟩ = .ok sites ∧
      sites.map BindingSite.stretch = (root.nodes.flatMap bindingStretches).map toStretch := by
  have hsite : ∀ group ∈ (root.ofKinds ["property_declaration"]).flatMap
        fun declaration => patternGroups declaration.children,
      ∃ site, bindingSite ⟨name, Text.encode text, root⟩ group.1 group.2 = .ok site ∧
        site.stretch = toStretch (group.1.stop, group.1.stop) ∧ True := by
    intro group hgroup
    obtain ⟨declaration, hdeclaration, hmem⟩ := List.mem_flatMap.1 hgroup
    rw [ofKinds_eq_filter] at hdeclaration
    have hnode := mem_nodes_of_child_mem (List.mem_of_mem_filter hdeclaration)
      (mem_of_mem_patternGroups hmem)
    obtain ⟨written, -, hwritten⟩ := h.exists_textOf name hnode
    rw [bindingSite, hwritten]
    exact ⟨_, rfl, rfl, trivial⟩
  obtain ⟨sites, hsites, hplaces, -⟩ := mapM_ok_of_forall hsite
  refine ⟨sites, hsites, ?_⟩
  rw [hplaces, ofKinds_eq_filter, flatMap_filter, List.map_flatMap, List.map_flatMap]
  refine List.flatMap_congr fun node _ => ?_
  rw [bindingStretches]
  split
  · rw [List.map_map]
    rfl
  · rfl

/-- The site of a closure of the tree. -/
theorem exists_closureSite (h : root.FitsText text) (name : String) {literal : SyntaxNode}
    (hliteral : literal ∈ root.nodes) :
    ∃ site, closureSite ⟨name, Text.encode text, root⟩ literal = .ok site ∧
      site.stretches =
        (literal.signature?.toList.flatMap signatureStretches).map toStretch ∧
      site.IsClosed := by
  cases hsignature : literal.signature? with
  | none =>
    rw [signature?] at hsignature
    rw [closureSite, hsignature]
    exact ⟨_, rfl, rfl, by simp [ClosureSite.IsClosed]⟩
  | some signature =>
    have hchild := (mem_of_signature?_eq_some hsignature).1
    obtain ⟨toSite, hsite, hplaces⟩ :=
      closureSite_of_signature? ⟨name, Text.encode text, root⟩ hsignature
    have hparameter : ∀ node ∈ signature.descendants "lambda_parameter" ["lambda_literal"],
        ∃ parameter, (textOf ⟨name, Text.encode text, root⟩ node >>= closureParameter) =
          .ok parameter := by
      intro node hnode
      obtain ⟨hkind, hbelow⟩ := mem_nodes_of_mem_descendants hnode
      have hnode' := mem_nodes_trans (mem_nodes_of_child_mem hliteral hchild) hbelow
      obtain ⟨written, hdecoded, hwritten⟩ := h.exists_textOf name hnode'
      rw [hwritten]
      exact exists_closureParameter (h.parameter node hnode' hkind written hdecoded)
    obtain ⟨parameters, hparameters⟩ := exists_mapM_eq_ok_iff.2 hparameter
    obtain ⟨hstart, hstop, heffects⟩ := hplaces parameters
    refine ⟨toSite parameters, (hsite _).2 ⟨parameters, hparameters, rfl⟩, ?_, fun _ => ?_⟩
    · rw [ClosureSite.stretches, hstart, hstop, heffects]
      rfl
    · rw [hstop]
      rfl

/-- All closures are listed, with the places in their signatures. -/
theorem closures_listed (h : root.FitsText text) (name : String) :
    ∃ sites, closures ⟨name, Text.encode text, root⟩ = .ok sites ∧
      sites.flatMap ClosureSite.stretches =
        (root.nodes.flatMap closureStretches).map toStretch ∧
      ∀ site ∈ sites, site.IsClosed := by
  obtain ⟨sites, hsites, hplaces, hclosed⟩ :=
    mapM_ok_of_forall (l := root.ofKinds ["lambda_literal"]) fun literal hliteral => by
      rw [ofKinds_eq_filter] at hliteral
      exact h.exists_closureSite name (List.mem_of_mem_filter hliteral)
  refine ⟨sites, hsites, ?_, hclosed⟩
  rw [List.flatMap_def, hplaces, ← List.flatMap_def, ofKinds_eq_filter, flatMap_filter,
    List.map_flatMap]
  refine List.flatMap_congr fun node _ => ?_
  rw [closureStretches]
  split
  · rfl
  · rfl

end SyntaxNode.FitsText

end TypeScribe
