import TypeScribe.Proofs.Annotate.Idempotence

/-!
# The order of the sites does not matter

The sites of a file may be listed in any order: a plan comes to the same edits, as long as edits
made for different sites are made at different stretches (`plan_outcome_of_reorders`).

What one site contributes does not depend on the other sites, but for the bindings that are left to
calls, and there only the set of edited calls counts. So a plan is a sort of the edits of all sites,
taken site by site (`inTurn`), and two runs differ in the order in which the groups of edits are put
together. The sort is stable and keeps the order of edits at one stretch. These are edits of one
site by assumption, such as a parameter clause and an arrow that are both inserted at one place, and
their order within the site is the same in both runs (`Edit.sort_flatMap_of_perm`).

A site whose edits cannot be made stops both runs. Where there are two such sites, the order tells
which one does; so both runs fail, but they may do so for different reasons (`Alike`).
-/

namespace TypeScribe

open Dump Logged Plan

/-! ## Sorting groups of edits -/

/-- Groups may change places if only one of them has members. -/
theorem flatMap_eq_of_perm {α β : Type} {group : α → List β} {a b : List α} (hperm : a.Perm b)
    (honly : ∀ x ∈ a, ∀ y ∈ a, group x ≠ [] → group y ≠ [] → x = y) :
    a.flatMap group = b.flatMap group := by
  induction hperm with
  | nil => rfl
  | cons x _ ih =>
    rw [List.flatMap_cons, List.flatMap_cons]
    congr 1
    exact ih fun y hy z hz => honly y (List.mem_cons_of_mem _ hy) z (List.mem_cons_of_mem _ hz)
  | swap x y rest =>
    simp only [List.flatMap_cons]
    by_cases hx : group x = []
    · rw [hx, List.nil_append, List.nil_append]
    · by_cases hy : group y = []
      · rw [hy, List.nil_append, List.nil_append]
      · rw [honly x (by simp) y (by simp) hx hy]
  | trans hfirst _ ih ih' =>
    refine (ih honly).trans (ih' fun y hy z hz => ?_)
    exact honly y (hfirst.mem_iff.2 hy) z (hfirst.mem_iff.2 hz)

namespace Edit

/-- Is the edit made at the stretch? -/
def isAt (place : Int × Int) (edit : Edit) : Bool := edit.start = place.1 ∧ edit.stop = place.2

theorem isAt_iff {place : Int × Int} {edit : Edit} :
    edit.isAt place = true ↔ edit.stretch = place := by
  simp [isAt, stretch, Prod.ext_iff]

theorem isAt_stretch (edit : Edit) : edit.isAt edit.stretch = true := isAt_iff.2 rfl

/-- Lists with the same edits at each stretch have the same edits. -/
theorem mem_of_filter_isAt_eq {a b : List Edit}
    (h : ∀ place, a.filter (isAt place) = b.filter (isAt place)) {edit : Edit} (hedit : edit ∈ a) :
    edit ∈ b := by
  have hmem : edit ∈ a.filter (isAt edit.stretch) := List.mem_filter.2 ⟨hedit, edit.isAt_stretch⟩
  rw [h] at hmem
  exact List.mem_of_mem_filter hmem

/-- Ordered edits are determined by what they are at each stretch. -/
theorem eq_of_filter_isAt_eq {a b : List Edit} (ha : a.Pairwise fun x y => x.le y = true)
    (hb : b.Pairwise fun x y => x.le y = true)
    (h : ∀ place, a.filter (isAt place) = b.filter (isAt place)) : a = b := by
  induction a generalizing b with
  | nil =>
    cases b with
    | nil => rfl
    | cons y b => cases mem_of_filter_isAt_eq (fun place => (h place).symm) List.mem_cons_self
  | cons x a ih =>
    cases b with
    | nil => cases mem_of_filter_isAt_eq h List.mem_cons_self
    | cons y b =>
      obtain ⟨hx, harest⟩ := List.pairwise_cons.1 ha
      obtain ⟨hy, hbrest⟩ := List.pairwise_cons.1 hb
      -- Each of the two first edits is also in the other list, so neither comes before the other.
      have hstretch : y.stretch = x.stretch := by
        rcases List.mem_cons.1 (mem_of_filter_isAt_eq h List.mem_cons_self) with rfl | hxb
        · rfl
        · rcases List.mem_cons.1 (mem_of_filter_isAt_eq (fun place => (h place).symm)
              List.mem_cons_self) with rfl | hya
          · rfl
          · have hxy := le_iff.1 (hx y hya)
            have hyx := le_iff.1 (hy x hxb)
            rw [stretch, stretch, Prod.mk.injEq]
            omega
      have hplace := h x.stretch
      rw [List.filter_cons_of_pos x.isAt_stretch,
        List.filter_cons_of_pos (isAt_iff.2 hstretch)] at hplace
      obtain ⟨rfl, -⟩ := List.cons.inj hplace
      congr 1
      refine ih harest hbrest fun place => ?_
      have hplace := h place
      rw [List.filter_cons, List.filter_cons] at hplace
      split at hplace
      · exact (List.cons.inj hplace).2
      · exact hplace

/-- A sort comes to the same edits if they are listed in the same order at each stretch. -/
theorem sort_eq_of_filter_isAt_eq {a b : List Edit}
    (h : ∀ place, a.filter (isAt place) = b.filter (isAt place)) : sort a = sort b := by
  refine eq_of_filter_isAt_eq (sort_pairwise_le a) (sort_pairwise_le b) fun place => ?_
  have hkept := fun edits => filter_sort edits place.1 place.2
  exact (hkept a).trans ((h place).trans (hkept b).symm)

/-- A sort does not depend on the order in which groups of edits are put together, if edits of
different groups are made at different stretches. -/
theorem sort_flatMap_of_perm {α : Type} {made : α → List Edit} {a b : List α} (hperm : a.Perm b)
    (hapart : ∀ x ∈ a, ∀ y ∈ a, x ≠ y → ∀ edit ∈ made x, ∀ other ∈ made y,
      edit.stretch ≠ other.stretch) : sort (a.flatMap made) = sort (b.flatMap made) := by
  refine sort_eq_of_filter_isAt_eq fun place => ?_
  rw [List.filter_flatMap, List.filter_flatMap]
  refine flatMap_eq_of_perm hperm fun x hx y hy hne hne' => ?_
  obtain ⟨edit, hedit⟩ := List.exists_mem_of_ne_nil _ hne
  obtain ⟨other, hother⟩ := List.exists_mem_of_ne_nil _ hne'
  obtain ⟨hedit, hplace⟩ := List.mem_filter.1 hedit
  obtain ⟨hother, hplace'⟩ := List.mem_filter.1 hother
  by_contra hxy
  exact hapart x hx y hy hxy edit hedit other hother
    ((isAt_iff.1 hplace).trans (isAt_iff.1 hplace').symm)

end Edit

/-! ## Sites of all kinds -/

/-- A site of any kind. -/
inductive Site where
  | call (site : CallSite)
  | binding (site : BindingSite)
  | closure (site : ClosureSite)
deriving DecidableEq

namespace SiteLists

/-- All sites, in the order in which a plan takes them. -/
def all (sites : SiteLists) : List Site :=
  sites.calls.map .call ++ sites.bindings.map .binding ++ sites.closures.map .closure

variable [CallStack] (root : Node) (sites : SiteLists)

/-- The edits of the calls, each with the position of its call. -/
def callEdits : List ((Int × Int) × Edit) :=
  sites.calls.flatMap fun site =>
    ((callEdit root (recordedFileName root sites.fileName) site).value?.join.map fun edit =>
      ((site.line, site.column), edit)).toList

/-- The edits that are made for a site, which is one of those listed. -/
def editsFor : Site → List Edit
  | .call site => (callEdit root (recordedFileName root sites.fileName) site).value?.join.toList
  | .binding site =>
    if isSpelledByCall ((sites.callEdits root).map (·.1)) site then []
    else (bindingEdit root (recordedFileName root sites.fileName) site).value?.join.toList
  | .closure site =>
    (closureEdits root (recordedFileName root sites.fileName) site).value?.getD []

end SiteLists

/-- The sites of one kind that a plan looks at: none if the kind is switched off. -/
def listed {α : Type} (annotate : Bool) (listing : Except Fault (List α)) :
    Except Fault (List α) :=
  if annotate then listing else .ok []

/-- The sites that a plan looks at, if they can be listed. -/
def SiteListing.considered (settings : Settings) (sites : SiteListing) :
    Except Fault SiteLists := do
  let calls ← listed settings.annotateCalls sites.calls
  let bindings ← listed settings.annotateBindings sites.bindings
  let closures ← listed settings.annotateClosures sites.closures
  return ⟨sites.fileName, calls, bindings, closures⟩

/-! ## Sites taken in turn -/

section InTurn

variable {σ α β ρ : Type}

/-- What is made for each of some sites, put together in the order of the sites. -/
def inTurn (one : σ → Logged α) (put : σ → α → List β) : List σ → Logged (List β)
  | [] => return []
  | site :: rest => do
    let made ← one site
    let later ← inTurn one put rest
    return put site made ++ later

/-- What is made for a site, if it can be made. -/
def madeFor (one : σ → Logged α) (put : σ → α → List β) (site : σ) : List β :=
  ((one site).value?.map (put site)).getD []

/-- What is made for a site is what its computation gives. -/
theorem madeFor_of_gives {one : σ → Logged α} {site : σ} {value : α} (h : (one site).Gives value)
    (put : σ → α → List β) : madeFor one put site = put site value := by
  rw [madeFor, value?_eq_some_iff.2 h]
  rfl

/-- Everything is made for each site, or a site stops the run. -/
theorem inTurn_cases {one : σ → Logged α} {put : σ → α → List β} {faults : Fault → Prop}
    (hfaults : ∀ site, (one site).FailsBy faults) (sites : List σ) :
    (∀ site ∈ sites, ∃ value, (one site).Gives value) ∧
        (inTurn one put sites).Gives (sites.flatMap (madeFor one put)) ∨
      (∃ site ∈ sites, ∀ value, ¬(one site).Gives value) ∧
        ∃ fault, faults fault ∧ (inTurn one put sites).outcome = .error fault := by
  induction sites with
  | nil => exact .inl ⟨List.forall_mem_nil _, gives_pure _⟩
  | cons site rest ih =>
    rcases (one site).gives_or_error with ⟨value, hvalue⟩ | ⟨fault, hfault⟩
    · rcases ih with ⟨hall, hrest⟩ | ⟨⟨other, hother, hnone⟩, fault, hfault, hrest⟩
      · refine .inl ⟨List.forall_mem_cons.2 ⟨⟨value, hvalue⟩, hall⟩, ?_⟩
        rw [List.flatMap_cons, madeFor_of_gives hvalue]
        exact hvalue.bind (hrest.bind (gives_pure _))
      · refine .inr ⟨⟨other, List.mem_cons_of_mem site hother, hnone⟩, fault, hfault, ?_⟩
        exact hvalue.outcome_bind.trans (outcome_bind_of_error hrest)
    · refine .inr ⟨⟨site, List.mem_cons_self, fun value hvalue => ?_⟩, fault,
        hfaults site fault hfault, outcome_bind_of_error hfault⟩
      cases hvalue.symm.trans hfault

/-- Taken in turn, the sites have the edits that are made for each. -/
theorem eq_flatMap_of_inTurn_gives {one : σ → Logged α} {put : σ → α → List β} {sites : List σ}
    {made : List β} (h : (inTurn one put sites).Gives made) :
    made = sites.flatMap (madeFor one put) := by
  have hany (site : σ) : (one site).FailsBy fun _ => True := fun _ _ => trivial
  rcases inTurn_cases hany sites with ⟨-, hmade⟩ | ⟨-, fault, -, hfault⟩
  · exact Except.ok.inj (h.symm.trans hmade)
  · cases h.symm.trans hfault

end InTurn

namespace Plan

variable [CallStack] (root : Node) (fileName : String)

/-- The edit of a call, with its position. -/
def placeCall (site : CallSite) (edit : Option Edit) : List ((Int × Int) × Edit) :=
  (edit.map fun edit => ((site.line, site.column), edit)).toList

/-- The edit of a binding that is not left to a call. -/
def unlessSpelled (edited : List (Int × Int)) (site : BindingSite) : Logged (Option Edit) :=
  if isSpelledByCall edited site then do
    Logged.note (.spelledByCall site.name)
    pure none
  else bindingEdit root fileName site

/-- The calls are taken in turn. -/
theorem callEdits_eq_inTurn (sites : List CallSite) :
    callEdits root fileName sites = inTurn (callEdit root fileName) placeCall sites := by
  induction sites with
  | nil => rfl
  | cons site rest ih =>
    rw [callEdits, inTurn, ih]
    rfl

/-- So are the bindings, but for those that a call spells. -/
theorem bindingEdits_eq_inTurn (edited : List (Int × Int)) (sites : List BindingSite) :
    bindingEdits root fileName edited sites =
      inTurn (unlessSpelled root fileName edited) (fun _ => Option.toList) sites := by
  induction sites with
  | nil => rfl
  | cons site rest ih =>
    rw [bindingEdits, inTurn, ih, unlessSpelled]
    split <;> rfl

/-- And so are the closures. -/
theorem allClosureEdits_eq_inTurn (sites : List ClosureSite) :
    allClosureEdits root fileName sites =
      inTurn (closureEdits root fileName) (fun _ edits => edits) sites := by
  induction sites with
  | nil => rfl
  | cons site rest ih =>
    rw [allClosureEdits, inTurn, ih]

omit [CallStack] in
/-- Which bindings are left to calls does not depend on the order of the calls. -/
theorem isSpelledByCall_of_perm {edited edited' : List (Int × Int)} (h : edited.Perm edited')
    (site : BindingSite) : isSpelledByCall edited' site = isSpelledByCall edited site := by
  rw [isSpelledByCall, isSpelledByCall]
  cases site.initializerCall with
  | none => rfl
  | some position => exact h.symm.contains_eq

/-- The order of the edited calls does not matter to the bindings. -/
theorem bindingEdits_of_perm {edited edited' : List (Int × Int)} (h : edited.Perm edited') :
    bindingEdits root fileName edited' = bindingEdits root fileName edited := by
  have hone : unlessSpelled root fileName edited' = unlessSpelled root fileName edited := by
    funext site
    rw [unlessSpelled, unlessSpelled, isSpelledByCall_of_perm h]
  funext sites
  rw [bindingEdits_eq_inTurn, bindingEdits_eq_inTurn, hone]

end Plan

/-! ## The edits of each site -/

namespace SiteLists

variable [CallStack] (root : Node) (sites : SiteLists)

/-- The edits of the calls are those made for each of them. -/
theorem callEdits_eq_flatMap :
    sites.callEdits root = sites.calls.flatMap
      (madeFor (callEdit root (recordedFileName root sites.fileName)) placeCall) := by
  refine List.flatMap_congr fun site _ => ?_
  rw [madeFor]
  cases (callEdit root (recordedFileName root sites.fileName) site).value? <;> rfl

/-- The edits for a binding are those made for it. -/
theorem editsFor_binding_eq (site : BindingSite) :
    sites.editsFor root (.binding site) =
      madeFor (unlessSpelled root (recordedFileName root sites.fileName)
        ((sites.callEdits root).map (·.1))) (fun _ => Option.toList) site := by
  rw [editsFor, madeFor, unlessSpelled]
  split
  · rfl
  · cases (bindingEdit root (recordedFileName root sites.fileName) site).value? <;> rfl

/-- The edits for a closure are those made for it. -/
theorem editsFor_closure_eq (site : ClosureSite) :
    sites.editsFor root (.closure site) =
      madeFor (closureEdits root (recordedFileName root sites.fileName)) (fun _ edits => edits)
        site := by
  rw [editsFor, madeFor]
  cases (closureEdits root (recordedFileName root sites.fileName) site).value? <;> rfl

/-- The edits for a call are those made for it. -/
theorem map_madeFor_placeCall (site : CallSite) :
    (madeFor (callEdit root (recordedFileName root sites.fileName)) placeCall site).map (·.2) =
      sites.editsFor root (.call site) := by
  rw [editsFor, madeFor]
  cases (callEdit root (recordedFileName root sites.fileName) site).value? with
  | none => rfl
  | some edit => cases edit <;> rfl

/-- The edits of some sites are those of the calls, of the bindings and of the closures. -/
theorem flatMap_editsFor (other : SiteLists) :
    other.all.flatMap (sites.editsFor root) =
      (other.calls.flatMap (madeFor (callEdit root (recordedFileName root sites.fileName))
        placeCall)).map (·.2) ++
        other.bindings.flatMap (madeFor (unlessSpelled root
          (recordedFileName root sites.fileName) ((sites.callEdits root).map (·.1)))
          fun _ => Option.toList) ++
        other.closures.flatMap (madeFor
          (closureEdits root (recordedFileName root sites.fileName)) fun _ edits => edits) := by
  rw [all, List.flatMap_append, List.flatMap_append, List.flatMap_map, List.flatMap_map,
    List.flatMap_map, List.map_flatMap]
  simp only [map_madeFor_placeCall, editsFor_binding_eq, editsFor_closure_eq]

end SiteLists

/-! ## Two orders -/

/-- Two outcomes agree: their values are related, or they are the same fault. -/
inductive Agree {α β : Type} (related : α → β → Prop) : Except Fault α → Except Fault β → Prop
  | ok {a : α} {b : β} : related a b → Agree related (.ok a) (.ok b)
  | error (fault : Fault) : Agree related (.error fault) (.error fault)

/-- The sites of a file, each kind in any order; or listings that fail alike. -/
structure SiteListing.Reorders (sites other : SiteListing) : Prop where
  fileName : other.fileName = sites.fileName
  calls : Agree List.Perm sites.calls other.calls
  bindings : Agree List.Perm sites.bindings other.bindings
  closures : Agree List.Perm sites.closures other.closures

namespace SiteLists

/-- Sites that could all be listed, each kind in any order. -/
structure Reorders (sites other : SiteLists) : Prop where
  fileName : other.fileName = sites.fileName
  calls : sites.calls.Perm other.calls
  bindings : sites.bindings.Perm other.bindings
  closures : sites.closures.Perm other.closures

section
variable [CallStack]

/-- Edits that are made for different sites are made at different stretches. -/
def EditsApart (root : Node) (sites : SiteLists) : Prop :=
  ∀ site ∈ sites.all, ∀ other ∈ sites.all, site ≠ other →
    ∀ edit ∈ sites.editsFor root site, ∀ edit' ∈ sites.editsFor root other,
      edit.stretch ≠ edit'.stretch

instance (root : Node) (sites : SiteLists) : Decidable (sites.EditsApart root) :=
  inferInstanceAs (Decidable (∀ site ∈ sites.all, ∀ other ∈ sites.all, site ≠ other →
    ∀ edit ∈ sites.editsFor root site, ∀ edit' ∈ sites.editsFor root other,
      edit.stretch ≠ edit'.stretch))

end

theorem Reorders.all_perm {sites other : SiteLists} (h : sites.Reorders other) :
    sites.all.Perm other.all :=
  ((h.calls.map _).append (h.bindings.map _)).append (h.closures.map _)

end SiteLists

/-- Two listings agree on the sites that are looked at. -/
theorem Agree.listed {α : Type} {listing other : Except Fault (List α)}
    (h : Agree List.Perm listing other) (annotate : Bool) :
    Agree List.Perm (listed annotate listing) (listed annotate other) := by
  cases annotate with
  | false => exact .ok (.refl _)
  | true => exact h

/-! ## Two runs -/

/-- The fault of a site for which no edits can be made: there is no room for its type, or its
signature has no end. -/
inductive Unmade : Fault → Prop
  | tooDeep : Unmade .tooDeep
  | openSignature : Unmade .openSignature

/-- Two outcomes are the same, or each is the fault of a site for which no edits can be made. -/
inductive Alike {α : Type} : Except Fault α → Except Fault α → Prop
  | refl (outcome : Except Fault α) : Alike outcome outcome
  | unmade {fault fault' : Fault} : Unmade fault → Unmade fault' →
      Alike (.error fault) (.error fault')

/-- A step of a plan goes on with the edits of the sites that it looks at. -/
theorem outcome_step {α β σ : Type} {annotate : Bool} {listing : Except Fault (List α)}
    {step : List α → Logged (List β)} {rest : List β → Logged σ} (hnil : (step []).Gives []) :
    (if annotate = true then do
        let sites ← Logged.ofExcept listing
        let edits ← step sites
        rest edits
      else do
        let edits ← pure []
        rest edits).outcome =
      (listed annotate listing).bind fun sites => (step sites >>= rest).outcome := by
  cases annotate with
  | false => exact ((gives_pure _).outcome_bind).trans (hnil.outcome_bind).symm
  | true =>
    cases listing with
    | error fault => exact outcome_bind_of_error rfl
    | ok sites => exact (gives_ofExcept rfl).outcome_bind

/-- A step of two plans, each over the sites that it looks at. -/
theorem alike_step {α β σ : Type} {annotate : Bool} {listing other : Except Fault (List α)}
    {step : List α → Logged (List β)} {rest rest' : List β → Logged σ} (hnil : (step []).Gives [])
    (h : Agree List.Perm listing other)
    (hsites : ∀ sites sites', listed annotate listing = .ok sites →
      listed annotate other = .ok sites' → sites.Perm sites' →
      Alike (step sites >>= rest).outcome (step sites' >>= rest').outcome) :
    Alike
      (if annotate = true then do
        let sites ← Logged.ofExcept listing
        let edits ← step sites
        rest edits
      else do
        let edits ← pure []
        rest edits).outcome
      (if annotate = true then do
        let sites ← Logged.ofExcept other
        let edits ← step sites
        rest' edits
      else do
        let edits ← pure []
        rest' edits).outcome := by
  rw [outcome_step hnil, outcome_step hnil]
  have hlisted := h.listed annotate
  generalize hx : listed annotate listing = x at hlisted hsites ⊢
  generalize hy : listed annotate other = y at hlisted hsites ⊢
  cases hlisted with
  | ok hperm => exact hsites _ _ rfl rfl hperm
  | error fault => exact .refl _

/-- Taking sites in two orders, both runs go on with what is made for them, or both are stopped. -/
theorem alike_inTurn {σ α β ρ : Type} {one : σ → Logged α} {put : σ → α → List β}
    {sites sites' : List σ} (hperm : sites.Perm sites')
    (hfaults : ∀ site, (one site).FailsBy Unmade) {rest rest' : List β → Logged ρ}
    (hrest : Alike (rest (sites.flatMap (madeFor one put))).outcome
      (rest' (sites'.flatMap (madeFor one put))).outcome) :
    Alike (inTurn one put sites >>= rest).outcome (inTurn one put sites' >>= rest').outcome := by
  rcases inTurn_cases hfaults sites with
    ⟨hall, hmade⟩ | ⟨⟨site, hsite, hnone⟩, fault, hunmade, hfault⟩
  · rcases inTurn_cases hfaults sites' with ⟨-, hmade'⟩ | ⟨⟨site, hsite, hnone⟩, -⟩
    · rw [hmade.outcome_bind, hmade'.outcome_bind]
      exact hrest
    · obtain ⟨value, hvalue⟩ := hall site (hperm.mem_iff.2 hsite)
      exact absurd hvalue (hnone value)
  · rcases inTurn_cases hfaults sites' with ⟨hall, -⟩ | ⟨-, fault', hunmade', hfault'⟩
    · obtain ⟨value, hvalue⟩ := hall site (hperm.mem_iff.1 hsite)
      exact absurd hvalue (hnone value)
    · rw [outcome_bind_of_error hfault, outcome_bind_of_error hfault']
      exact .unmade hunmade hunmade'

section
variable [CallStack] (root : Node)

theorem Unmade.of_tooDeep {fault : Fault} (h : TooDeep root fault) : Unmade fault := by
  obtain ⟨-, -, rfl, -⟩ := h
  exact .tooDeep

theorem callEdit_failsBy_unmade (fileName : String) (site : CallSite) :
    (callEdit root fileName site).FailsBy Unmade :=
  (callEdit_failsBy root fileName site).mono fun _ => .of_tooDeep root

/-- A binding fails only for want of room. -/
theorem unlessSpelled_failsBy (fileName : String) (edited : List (Int × Int))
    (site : BindingSite) : (unlessSpelled root fileName edited site).FailsBy Unmade := by
  rw [unlessSpelled]
  split
  · exact failsBy_note_pure _ _
  · exact (bindingEdit_failsBy root fileName site).mono fun _ => .of_tooDeep root

/-- A closure fails for want of room or of an end of its signature. -/
theorem closureEdits_failsBy_unmade (fileName : String) (site : ClosureSite) :
    (closureEdits root fileName site).FailsBy Unmade := by
  refine (closureEdits_failsBy root fileName site).mono fun fault hfault => ?_
  rcases hfault with ⟨rfl, -⟩ | hdeep
  · exact .openSignature
  · exact .of_tooDeep root hdeep

/-- A plan does not depend on the order in which the sites of each kind are listed, if edits that
are made for different sites are made at different stretches. -/
theorem plan_outcome_of_reorders (settings : Settings) {sites other : SiteListing}
    (h : sites.Reorders other)
    (hapart : ∀ lists, sites.considered settings = .ok lists → lists.EditsApart root) :
    Alike (plan root settings sites).outcome (plan root settings other).outcome := by
  obtain ⟨_, otherCalls, otherBindings, otherClosures⟩ := other
  obtain ⟨rfl, hcalls, hbindings, hclosures⟩ := h
  set fileName := recordedFileName root sites.fileName with hname
  have hnil : (callEdits root fileName []).Gives [] := gives_pure _
  refine alike_step hnil hcalls fun calls calls' hcalls hcalls' hcallsPerm => ?_
  rw [callEdits_eq_inTurn, callEdits_eq_inTurn]
  refine alike_inTurn hcallsPerm (callEdit_failsBy_unmade root fileName) ?_
  have hedited := (hcallsPerm.flatMap_right (madeFor (callEdit root fileName) placeCall)).map
    Prod.fst
  rw [bindingEdits_of_perm root fileName hedited]
  have hnil : (bindingEdits root fileName ((calls.flatMap
      (madeFor (callEdit root fileName) placeCall)).map (·.1)) []).Gives [] := gives_pure _
  refine alike_step hnil hbindings fun bindings bindings' hbindings hbindings' hbindingsPerm => ?_
  rw [bindingEdits_eq_inTurn, bindingEdits_eq_inTurn]
  refine alike_inTurn hbindingsPerm (unlessSpelled_failsBy root fileName _) ?_
  have hnil : (allClosureEdits root fileName []).Gives [] := gives_pure _
  refine alike_step hnil hclosures fun closures closures' hclosures hclosures' hperm => ?_
  rw [allClosureEdits_eq_inTurn, allClosureEdits_eq_inTurn]
  refine alike_inTurn hperm (closureEdits_failsBy_unmade root fileName) ?_
  -- Both runs have listed their sites, and sort the same groups of edits.
  let lists : SiteLists := ⟨sites.fileName, calls, bindings, closures⟩
  let lists' : SiteLists := ⟨sites.fileName, calls', bindings', closures'⟩
  have hconsidered : sites.considered settings = .ok lists := by
    rw [SiteListing.considered, hcalls, hbindings, hclosures]
    rfl
  have hreorders : lists.Reorders lists' := ⟨rfl, hcallsPerm, hbindingsPerm, hperm⟩
  have hsort := Edit.sort_flatMap_of_perm hreorders.all_perm (hapart lists hconsidered)
  rw [lists.flatMap_editsFor root, lists.flatMap_editsFor root, lists.callEdits_eq_flatMap root]
    at hsort
  show Alike (.ok _) (.ok _)
  rw [hsort]
  exact .refl _

end

/-- What is recorded of two closures, with a call in each, and of the names bound to them. -/
def turnedTree : Node :=
  ⟨"source_file", [], [], [nodeAt "var_decl" "(Int) -> Box<Int>" 5 [],
    nodeAt closureNode "(Int) -> Box<Int>" 12 [boxCall 19], nodeAt "var_decl" "Box<Int>" 31 [],
    boxCall 35, nodeAt closureNode "() -> Box<Int>" 44 [boxCall 48]]⟩

/-- Sites of each kind. The second closure has an empty clause, so that both of its edits are made
at one place, and the second binding is left to its call. -/
def turnedSites : SiteLists where
  fileName := "main.swift"
  calls := [⟨"Box", 1, 19, 18, 21, false⟩, ⟨"Box", 1, 35, 34, 37, false⟩,
    ⟨"Box", 1, 48, 47, 50, false⟩]
  bindings := [⟨"make", 1, 5, 8, false, true, false, none⟩,
    ⟨"b", 1, 31, 31, false, true, false, some (1, 35)⟩]
  closures := [⟨1, 12, [⟨"x", "x", false⟩], some 13, some 14, none, false, false, false⟩,
    ⟨1, 44, [], some 44, some 44, none, false, false, false⟩]

/-- The same sites from the last to the first. -/
def turnedBack : SiteLists :=
  { turnedSites with
    calls := turnedSites.calls.reverse
    bindings := turnedSites.bindings.reverse
    closures := turnedSites.closures.reverse }

/-- The edits of one place stay in their order. -/
theorem plan_outcome_of_reorders_turnedSites :
    letI := CallStack.uniform 4
    turnedSites.listing.Reorders turnedBack.listing ∧ turnedSites.EditsApart turnedTree ∧
      (plan turnedTree .standard turnedBack.listing).Gives
        [⟨8, 8, ": (Int) -> Box<Int>"⟩, ⟨13, 14, "(x: Int)"⟩, ⟨14, 14, " -> Box<Int>"⟩,
          ⟨18, 21, "Box<Int>"⟩, ⟨34, 37, "Box<Int>"⟩, ⟨44, 44, "()"⟩, ⟨44, 44, " -> Box<Int>"⟩,
          ⟨47, 50, "Box<Int>"⟩] := by
  let _ := CallStack.uniform 4
  have hreorders : turnedSites.listing.Reorders turnedBack.listing :=
    ⟨rfl, .ok (List.reverse_perm _).symm, .ok (List.reverse_perm _).symm,
      .ok (List.reverse_perm _).symm⟩
  have hapart : turnedSites.EditsApart turnedTree := by decide +kernel
  have hplan : (plan turnedTree .standard turnedSites.listing).outcome =
      .ok [⟨8, 8, ": (Int) -> Box<Int>"⟩, ⟨13, 14, "(x: Int)"⟩, ⟨14, 14, " -> Box<Int>"⟩,
        ⟨18, 21, "Box<Int>"⟩, ⟨34, 37, "Box<Int>"⟩, ⟨44, 44, "()"⟩, ⟨44, 44, " -> Box<Int>"⟩,
        ⟨47, 50, "Box<Int>"⟩] := value?_eq_some_iff.1 (by decide +kernel)
  have halike := plan_outcome_of_reorders turnedTree .standard hreorders fun lists hlists => by
    cases hlists
    exact hapart
  refine ⟨hreorders, hapart, ?_⟩
  rw [hplan] at halike
  generalize houtcome : (plan turnedTree .standard turnedBack.listing).outcome = outcome at halike
  cases halike
  exact houtcome

end TypeScribe
