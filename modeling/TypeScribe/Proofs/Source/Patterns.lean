import Mathlib.Data.List.Forall2
import Mathlib.Data.List.TakeWhile
import TypeScribe.Proofs.Source.Nodes

/-!
# Bindings and their patterns

A declaration may bind several patterns, each followed by what belongs to it: a type, an equals sign
and an initializer. The children of a declaration are put into groups in one pass; here the groups
are described by where a pattern stands (`Owns`), and the sites of a file by which pattern of which
declaration they are for (`PatternAt`). A site says about its pattern what the siblings up to the
next pattern say (`SiteOf`), so nothing that belongs to another pattern has any influence on it
(`bindings_by_pattern`).
-/

namespace TypeScribe

/-! ## Lists -/

section
variable {ε α β : Type} {f : α → Except ε β}

/-- A list is mapped if its first member is and the others are. -/
theorem mapM_cons_eq_ok_iff {a : α} {list : List α} {images : List β} :
    (a :: list).mapM f = .ok images ↔
      ∃ image later, f a = .ok image ∧ list.mapM f = .ok later ∧ images = image :: later := by
  rw [List.mapM_cons]
  cases ha : f a with
  | error fault => exact iff_of_false nofun (by simp)
  | ok image =>
    cases hlist : list.mapM f with
    | error fault => exact iff_of_false nofun (by simp)
    | ok later =>
      constructor
      · intro h
        exact ⟨image, later, rfl, rfl, (Except.ok.inj h).symm⟩
      · rintro ⟨_, _, himage, hlater, rfl⟩
        cases himage
        cases hlater
        rfl

/-- A map that may fail gives the images of the members, one for each. -/
theorem mapM_eq_ok_iff_forall₂ {list : List α} {images : List β} :
    list.mapM f = .ok images ↔ list.Forall₂ (fun a image => f a = .ok image) images := by
  induction list generalizing images with
  | nil =>
    rw [List.mapM_nil, List.forall₂_nil_left_iff]
    exact ⟨fun h => (Except.ok.inj h).symm, fun h => h ▸ rfl⟩
  | cons a list ih =>
    rw [mapM_cons_eq_ok_iff, List.forall₂_cons_left_iff]
    simp only [ih, exists_and_left]

/-- A map that may fail succeeds on a list if and only if it succeeds on the members. -/
theorem exists_mapM_eq_ok_iff {list : List α} :
    (∃ images, list.mapM f = .ok images) ↔ ∀ a ∈ list, ∃ image, f a = .ok image := by
  induction list with
  | nil => exact iff_of_true ⟨[], List.mapM_nil⟩ (List.forall_mem_nil _)
  | cons a list ih =>
    rw [List.forall_mem_cons, ← ih]
    simp only [mapM_cons_eq_ok_iff]
    constructor
    · rintro ⟨_, image, later, himage, hlater, rfl⟩
      exact ⟨⟨image, himage⟩, later, hlater⟩
    · rintro ⟨⟨image, himage⟩, later, hlater⟩
      exact ⟨_, image, later, himage, hlater, rfl⟩

/-- A map that fails does so at a member. -/
theorem exists_of_mapM_eq_error {list : List α} {fault : ε} (h : list.mapM f = .error fault) :
    ∃ a ∈ list, f a = .error fault := by
  induction list with
  | nil => cases h
  | cons a list ih =>
    rw [List.mapM_cons] at h
    cases ha : f a with
    | error other =>
      rw [ha] at h
      cases h
      exact ⟨a, List.mem_cons_self, ha⟩
    | ok image =>
      rw [ha] at h
      cases hlist : list.mapM f with
      | error other =>
        rw [hlist] at h
        cases h
        obtain ⟨x, hx, hfault⟩ := ih hlist
        exact ⟨x, List.mem_cons_of_mem _ hx, hfault⟩
      | ok later =>
        rw [hlist] at h
        cases h

end

/-- What stands at an index of a list that is put together from several stands at an index of one of
them. -/
theorem getElem?_flatMap_eq_some_iff {α β : Type} {f : α → List β} {l : List α} {index : Nat}
    {b : β} :
    (l.flatMap f)[index]? = some b ↔
      ∃ earlier a later k, l = earlier ++ a :: later ∧ (f a)[k]? = some b ∧
        index = (earlier.flatMap f).length + k := by
  constructor
  · intro h
    induction l generalizing index with
    | nil => cases h
    | cons a rest ih =>
      rw [List.flatMap_cons, List.getElem?_append] at h
      split at h
      · exact ⟨[], a, rest, index, rfl, h, (Nat.zero_add index).symm⟩
      · next hlt =>
        obtain ⟨earlier, x, later, k, rfl, hk, hindex⟩ := ih h
        refine ⟨a :: earlier, x, later, k, rfl, hk, ?_⟩
        rw [List.flatMap_cons, List.length_append]
        omega
  · rintro ⟨earlier, a, later, k, rfl, hk, rfl⟩
    obtain ⟨hlt, -⟩ := List.getElem?_eq_some_iff.1 hk
    rw [List.flatMap_append, List.getElem?_append_right (Nat.le_add_right _ _),
      Nat.add_sub_cancel_left, List.flatMap_cons, List.getElem?_append_left hlt, hk]

/-! ## Groups of children -/

namespace SyntaxNode

/-- The patterns of a declaration. -/
def patterns (declaration : SyntaxNode) : List SyntaxNode :=
  declaration.children.filter (·.kind == "pattern")

/-- The declarations of properties in the tree, parents before children. -/
def declarations (root : SyntaxNode) : List SyntaxNode :=
  root.nodes.filter (·.kind == "property_declaration")

/-- The patterns of all declarations in the tree. -/
def declaredPatterns (root : SyntaxNode) : List SyntaxNode := root.declarations.flatMap patterns

end SyntaxNode

namespace SourceFile

/-- Among the children of a declaration, the pattern stands after `before`, and `own` are the
siblings from it to the next pattern, or to the end. -/
structure Owns (children before : List SyntaxNode) (pattern : SyntaxNode)
    (own : List SyntaxNode) : Prop where
  kind : pattern.kind = "pattern"
  siblings : ∀ sibling ∈ own, sibling.kind ≠ "pattern"
  split : ∃ after, children = before ++ pattern :: (own ++ after) ∧
    ∀ next ∈ after.head?, next.kind = "pattern"

/-- A child in front does not change what a pattern owns. -/
theorem Owns.cons {children before : List SyntaxNode} {pattern : SyntaxNode}
    {own : List SyntaxNode} (h : Owns children before pattern own) (child : SyntaxNode) :
    Owns (child :: children) (child :: before) pattern own := by
  obtain ⟨after, rfl, hafter⟩ := h.split
  exact ⟨h.kind, h.siblings, after, rfl, hafter⟩

/-- What follows the next pattern does not belong to the groups before it. -/
theorem patternGroups_append {before : List SyntaxNode} {pattern : SyntaxNode}
    (hpattern : pattern.kind = "pattern") (rest : List SyntaxNode) :
    patternGroups (before ++ pattern :: rest) =
      patternGroups before ++ patternGroups (pattern :: rest) := by
  induction before with
  | nil => rfl
  | cons child before ih =>
    have hstop : (before ++ pattern :: rest).takeWhile (·.kind != "pattern") =
        before.takeWhile (·.kind != "pattern") := by
      rw [List.takeWhile_append, List.takeWhile_cons_of_neg (by simp [hpattern]), List.append_nil]
      split
      · next hall => exact (List.takeWhile_sublist _).eq_of_length hall |>.symm
      · rfl
    rw [List.cons_append, patternGroups_cons, patternGroups_cons child before, ih, hstop]
    split
    · rw [List.cons_append]
    · rfl

/-- The groups are those of the patterns, in their order. -/
theorem map_fst_patternGroups (children : List SyntaxNode) :
    (patternGroups children).map Prod.fst = children.filter (·.kind == "pattern") := by
  induction children with
  | nil => rfl
  | cons child rest ih =>
    rw [patternGroups_cons, List.filter_cons, ← ih]
    by_cases hpattern : child.kind = "pattern" <;> simp [hpattern]

theorem length_patternGroups (children : List SyntaxNode) :
    (patternGroups children).length = (children.filter (·.kind == "pattern")).length := by
  rw [← map_fst_patternGroups, List.length_map]

/-- The groups of a declaration are its patterns, each with what it owns. -/
theorem getElem?_patternGroups_iff {children own : List SyntaxNode} {index : Nat}
    {pattern : SyntaxNode} :
    (patternGroups children)[index]? = some (pattern, own) ↔
      ∃ before, Owns children before pattern own ∧
        index = (before.filter (·.kind == "pattern")).length := by
  constructor
  · intro h
    induction children generalizing index with
    | nil => cases h
    | cons child rest ih =>
      rw [patternGroups_cons] at h
      by_cases hpattern : child.kind = "pattern"
      · rw [if_pos hpattern] at h
        cases index with
        | zero =>
          cases h
          refine ⟨[], ⟨hpattern, fun sibling hsibling => ?_,
            rest.dropWhile (·.kind != "pattern"), ?_, fun next hnext => ?_⟩, rfl⟩
          · simpa using List.mem_takeWhile_imp hsibling
          · rw [List.takeWhile_append_dropWhile, List.nil_append]
          · have hhead := List.head?_dropWhile_not (·.kind != "pattern") rest
            rw [Option.mem_def.1 hnext] at hhead
            simpa using hhead
        | succ index =>
          obtain ⟨before, howns, rfl⟩ := ih h
          exact ⟨child :: before, howns.cons child, by simp [hpattern]⟩
      · rw [if_neg hpattern] at h
        obtain ⟨before, howns, rfl⟩ := ih h
        exact ⟨child :: before, howns.cons child, by simp [hpattern]⟩
  · rintro ⟨before, howns, rfl⟩
    obtain ⟨after, rfl, hafter⟩ := howns.split
    have hown : (own ++ after).takeWhile (·.kind != "pattern") = own := by
      have hall : ∀ sibling ∈ own, (sibling.kind != "pattern") = true := fun sibling hsibling => by
        simpa using howns.siblings sibling hsibling
      rw [List.takeWhile_append_of_pos hall]
      cases after with
      | nil => simp
      | cons next after => simp [hafter next rfl]
    rw [patternGroups_append howns.kind, patternGroups_cons, if_pos howns.kind, hown,
      ← length_patternGroups, List.getElem?_append_right (Nat.le_refl _), Nat.sub_self]
    rfl

/-! ## Patterns of a file -/

/-- Of the patterns of all declarations in the tree, the one at the index is `pattern`, and `own`
are the siblings that belong to it. -/
def PatternAt (root : SyntaxNode) (index : Nat) (pattern : SyntaxNode) (own : List SyntaxNode) :
    Prop :=
  ∃ earlier declaration later before,
    root.declarations = earlier ++ declaration :: later ∧
    Owns declaration.children before pattern own ∧
    index = (earlier.flatMap SyntaxNode.patterns).length +
      (before.filter (·.kind == "pattern")).length

/-- The groups of all declarations in the tree. -/
def declaredGroups (root : SyntaxNode) : List (SyntaxNode × List SyntaxNode) :=
  root.declarations.flatMap fun declaration => patternGroups declaration.children

/-- So they are over all declarations. -/
theorem map_fst_declaredGroups (root : SyntaxNode) :
    (declaredGroups root).map Prod.fst = root.declaredPatterns := by
  rw [declaredGroups, List.map_flatMap]
  exact List.flatMap_congr fun declaration _ => map_fst_patternGroups declaration.children

/-- The group at an index is that of the pattern that stands there. -/
theorem getElem?_declaredGroups_iff {root : SyntaxNode} {index : Nat} {pattern : SyntaxNode}
    {own : List SyntaxNode} :
    (declaredGroups root)[index]? = some (pattern, own) ↔ PatternAt root index pattern own := by
  have hlength : ∀ earlier : List SyntaxNode,
      (earlier.flatMap fun declaration => patternGroups declaration.children).length =
        (earlier.flatMap SyntaxNode.patterns).length := by
    intro earlier
    rw [List.length_flatMap, List.length_flatMap]
    congr 2
    funext declaration
    exact length_patternGroups declaration.children
  rw [declaredGroups, getElem?_flatMap_eq_some_iff]
  constructor
  · rintro ⟨earlier, declaration, later, k, hsplit, hk, rfl⟩
    obtain ⟨before, howns, rfl⟩ := getElem?_patternGroups_iff.1 hk
    exact ⟨earlier, declaration, later, before, hsplit, howns, by rw [hlength]⟩
  · rintro ⟨earlier, declaration, later, before, hsplit, howns, rfl⟩
    exact ⟨earlier, declaration, later, _, hsplit,
      getElem?_patternGroups_iff.2 ⟨before, howns, rfl⟩, by rw [hlength]⟩

/-- The bindings of a file are the sites of its groups. -/
theorem bindings_eq_mapM (file : SourceFile) :
    file.bindings =
      (declaredGroups file.root).mapM fun group => file.bindingSite group.1 group.2 := by
  rw [bindings, SyntaxNode.ofKinds_eq_filter, declaredGroups, SyntaxNode.declarations]
  simp only [List.contains_cons, List.contains_nil, Bool.or_false]

/-! ## What a site says -/

/-- The initializer among the siblings of a pattern: the first construct after the first `=`. -/
def IsInitializer (siblings : List SyntaxNode) (value : SyntaxNode) : Prop :=
  ∃ before sign between after, siblings = before ++ sign :: (between ++ value :: after) ∧
    (∀ sibling ∈ before, sibling.kind ≠ "=") ∧ sign.kind = "=" ∧
    (∀ sibling ∈ between, sibling.named = false) ∧ value.named = true

/-- The initializer of a pattern is the first construct after the first `=` among its siblings. -/
theorem initializer?_eq_some_iff {siblings : List SyntaxNode} {value : SyntaxNode} :
    initializer? siblings = some value ↔ IsInitializer siblings value := by
  induction siblings with
  | nil =>
    refine ⟨fun h => (by cases h), ?_⟩
    rintro ⟨before, sign, between, after, hsplit, -⟩
    cases before <;> cases hsplit
  | cons child rest ih =>
    by_cases hsign : child.kind = "="
    · have hdrop : initializer? (child :: rest) = rest.find? (·.named) := by
        simp [initializer?, hsign]
      rw [hdrop, List.find?_eq_some_iff_append]
      constructor
      · rintro ⟨hnamed, between, after, rfl, hbetween⟩
        exact ⟨[], child, between, after, rfl, List.forall_mem_nil _, hsign,
          fun sibling hsibling => by simpa using hbetween sibling hsibling, hnamed⟩
      · rintro ⟨before, sign, between, after, hsplit, hbefore, -, hbetween, hnamed⟩
        cases before with
        | nil =>
          cases hsplit
          exact ⟨hnamed, between, after, rfl, fun sibling hsibling => by
            simpa using hbetween sibling hsibling⟩
        | cons first before =>
          cases hsplit
          exact absurd hsign (hbefore child List.mem_cons_self)
    · have hdrop : initializer? (child :: rest) = initializer? rest := by
        simp [initializer?, hsign]
      rw [hdrop, ih]
      constructor
      · rintro ⟨before, sign, between, after, rfl, hbefore, hrest⟩
        exact ⟨child :: before, sign, between, after, rfl,
          List.forall_mem_cons.2 ⟨hsign, hbefore⟩, hrest⟩
      · rintro ⟨before, sign, between, after, hsplit, hbefore, hkind, hrest⟩
        cases before with
        | nil =>
          cases hsplit
          exact absurd hkind hsign
        | cons first before =>
          cases hsplit
          exact ⟨before, sign, between, after, rfl, (List.forall_mem_cons.1 hbefore).2, hkind,
            hrest⟩

/-- The site of a pattern, told by its text, its place and the siblings that belong to it. -/
structure SiteOf (file : SourceFile) (pattern : SyntaxNode) (own : List SyntaxNode)
    (site : BindingSite) : Prop where
  name : file.textOf pattern = .ok site.name
  position : (site.line, site.column) = pattern.position
  nameEnd : site.nameEnd = pattern.stop
  isTyped : site.isTyped = true ↔ ∃ sibling ∈ own, sibling.kind = "type_annotation"
  hasInitializer : site.hasInitializer = true ↔ ∃ value, IsInitializer own value
  isTuplePattern : site.isTuplePattern = true ↔ ∃ rest, site.name.toList = '(' :: rest
  initializerCall : ∀ position, site.initializerCall = some position ↔
    ∃ value, IsInitializer own value ∧ value.kind ∈ callKinds ∧ value.position = position

/-- A binding site says what its pattern and its siblings say. -/
theorem siteOf_of_bindingSite {file : SourceFile} {pattern : SyntaxNode} {own : List SyntaxNode}
    {site : BindingSite} (h : file.bindingSite pattern own = .ok site) :
    file.SiteOf pattern own site := by
  rw [bindingSite] at h
  cases htext : file.textOf pattern with
  | error fault =>
    rw [htext] at h
    cases h
  | ok name =>
    rw [htext] at h
    cases h
    refine ⟨htext, rfl, rfl, ?_, ?_, ?_, fun position => ?_⟩
    · simp
    · simp only [Option.isSome_iff_exists, initializer?_eq_some_iff]
    · simp [List.head?_eq_some_iff]
    · simp only [Option.map_eq_some_iff, Option.filter_eq_some_iff, List.contains_iff_mem,
        initializer?_eq_some_iff, and_assoc]

/-- The site of a pattern does not depend on anything but the text of the pattern and the siblings
that belong to it. -/
theorem SiteOf.unique {file other : SourceFile} {pattern : SyntaxNode} {own : List SyntaxNode}
    {site second : BindingSite} (h : file.SiteOf pattern own site)
    (h' : other.SiteOf pattern own second) (htext : other.textOf pattern = file.textOf pattern) :
    second = site := by
  have hname : second.name = site.name := Except.ok.inj (h'.name.symm.trans (htext.trans h.name))
  have hposition := h'.position.trans h.position.symm
  have hnameEnd := h'.nameEnd.trans h.nameEnd.symm
  have htyped := Bool.eq_iff_iff.2 (h'.isTyped.trans h.isTyped.symm)
  have hinitializer := Bool.eq_iff_iff.2 (h'.hasInitializer.trans h.hasInitializer.symm)
  have htuple : second.isTuplePattern = site.isTuplePattern :=
    Bool.eq_iff_iff.2 (by rw [h'.isTuplePattern, h.isTuplePattern, hname])
  have hcall : second.initializerCall = site.initializerCall :=
    Option.ext fun position => (h'.initializerCall position).trans (h.initializerCall position).symm
  obtain ⟨hline, hcolumn⟩ := Prod.mk.inj hposition
  obtain ⟨name, line, column, nameEnd, typed, initialized, tuple, call⟩ := site
  obtain ⟨name', line', column', nameEnd', typed', initialized', tuple', call'⟩ := second
  dsimp only at *
  subst hname hline hcolumn hnameEnd htyped hinitializer htuple hcall
  rfl

/-- A binding has no site only if the text of its pattern cannot be decoded. -/
theorem bindingSite_eq_error {file : SourceFile} {pattern : SyntaxNode} {own : List SyntaxNode}
    {fault : Fault} (h : file.bindingSite pattern own = .error fault) :
    fault = .notUtf8 ∧ file.textOf pattern = .error .notUtf8 := by
  rw [bindingSite] at h
  cases htext : file.textOf pattern with
  | ok name =>
    rw [htext] at h
    cases h
  | error other =>
    rw [htext] at h
    cases h
    have hother := htext
    rw [textOf, decode] at hother
    split at hother
    · cases hother
    · cases hother
      exact ⟨rfl, rfl⟩

/-! ## The bindings of a file -/

/-- The site at an index is the one of the pattern there. -/
theorem exists_siteOf_of_patternAt {file : SourceFile} {sites : List BindingSite}
    (h : file.bindings = .ok sites) {index : Nat} {pattern : SyntaxNode} {own : List SyntaxNode}
    (hpattern : PatternAt file.root index pattern own) :
    ∃ site, sites[index]? = some site ∧ file.SiteOf pattern own site := by
  rw [bindings_eq_mapM, mapM_eq_ok_iff_forall₂] at h
  have hgroup := getElem?_declaredGroups_iff.2 hpattern
  obtain ⟨hlt, hget⟩ := List.getElem?_eq_some_iff.1 hgroup
  have hlt' : index < sites.length := h.length_eq ▸ hlt
  have hsite := h.get hlt hlt'
  simp only [List.get_eq_getElem, hget] at hsite
  exact ⟨sites[index], List.getElem?_eq_getElem hlt', siteOf_of_bindingSite hsite⟩

/-- A file lists its bindings if the texts of all patterns can be decoded. -/
theorem exists_bindings_iff (file : SourceFile) :
    (∃ sites, file.bindings = .ok sites) ↔
      ∀ pattern ∈ file.root.declaredPatterns, ∃ name, file.textOf pattern = .ok name := by
  rw [bindings_eq_mapM, exists_mapM_eq_ok_iff, ← map_fst_declaredGroups, List.forall_mem_map]
  refine forall₂_congr fun group _ => ⟨?_, ?_⟩
  · rintro ⟨site, hsite⟩
    exact ⟨site.name, (siteOf_of_bindingSite hsite).name⟩
  · rintro ⟨name, hname⟩
    rw [bindingSite, hname]
    exact ⟨_, rfl⟩

/-- The bindings of a file are the patterns of its declarations, in pre-order and in the order of
the source, if the text of each can be read; otherwise the fault is that it cannot. Each site is
told by its pattern and the siblings up to the next pattern alone: wherever else the same pattern
stands with the same siblings and the same text, whatever belongs to other patterns there, its site
is the same. -/
theorem bindings_by_pattern (file : SourceFile) :
    ((∃ sites, file.bindings = .ok sites) ↔
      ∀ pattern ∈ file.root.declaredPatterns, ∃ name, file.textOf pattern = .ok name) ∧
    (∀ fault, file.bindings = .error fault → fault = .notUtf8) ∧
    ∀ sites, file.bindings = .ok sites →
      sites.length = file.root.declaredPatterns.length ∧
      (∀ index < sites.length, ∃ pattern own, PatternAt file.root index pattern own) ∧
      ∀ index pattern own, PatternAt file.root index pattern own →
        file.root.declaredPatterns[index]? = some pattern ∧
        ∃ site, sites[index]? = some site ∧ file.SiteOf pattern own site ∧
          ∀ (other : SourceFile) (others : List BindingSite) (k : Nat),
            other.bindings = .ok others → PatternAt other.root k pattern own →
            other.textOf pattern = file.textOf pattern → others[k]? = some site := by
  refine ⟨exists_bindings_iff file, fun fault hfault => ?_, fun sites hsites => ?_⟩
  · rw [bindings_eq_mapM] at hfault
    obtain ⟨group, -, hgroup⟩ := exists_of_mapM_eq_error hfault
    exact (bindingSite_eq_error hgroup).1
  · have hlength : (declaredGroups file.root).length = sites.length := by
      rw [bindings_eq_mapM, mapM_eq_ok_iff_forall₂] at hsites
      exact hsites.length_eq
    refine ⟨?_, fun index hindex => ?_, fun index pattern own hpattern => ⟨?_, ?_⟩⟩
    · rw [← map_fst_declaredGroups, List.length_map, hlength]
    · rw [← hlength] at hindex
      exact ⟨_, _, getElem?_declaredGroups_iff.1 (List.getElem?_eq_getElem hindex)⟩
    · rw [← map_fst_declaredGroups, List.getElem?_map, getElem?_declaredGroups_iff.2 hpattern]
      rfl
    · obtain ⟨site, hsite, hspec⟩ := exists_siteOf_of_patternAt hsites hpattern
      refine ⟨site, hsite, hspec, fun other others k hothers hpattern' htext => ?_⟩
      obtain ⟨second, hsecond, hspec'⟩ := exists_siteOf_of_patternAt hothers hpattern'
      rw [hsecond, hspec.unique hspec' htext]

/-- In `let a: Int, b = f()` the type belongs to `a` and the initializer to `b`. -/
example :
    let piece (kind : String) (start stop : Nat) : SyntaxNode :=
      ⟨kind, start, stop, 0, start, true, none, []⟩
    let declaration : SyntaxNode := ⟨"property_declaration", 0, 17, 0, 0, true, none,
      [piece "value_binding_pattern" 0 3, piece "pattern" 4 5, piece "type_annotation" 5 10,
        piece "," 10 11, piece "pattern" 12 13, piece "=" 14 15,
        piece "call_expression" 16 19]⟩
    (bindings ⟨"main.swift", Text.encode "let a: Int, b = f()", declaration⟩).map
        (·.map fun site => (site.name, site.isTyped, site.initializerCall)) =
      .ok [("a", true, none), ("b", false, some (1, 17))] := by
  decide +kernel

end SourceFile

end TypeScribe
