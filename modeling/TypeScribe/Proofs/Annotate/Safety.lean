import TypeScribe.Annotate.Result
import TypeScribe.Proofs.Parser.Bounds
import TypeScribe.Proofs.Source.Sites
import TypeScribe.Proofs.Source.Splice

/-!
# Annotation of a parsed text

The edits of a plan are made at places of the syntax tree, no two places of the tree overlap, and
all of them lie between characters of the text. So the edits can be applied, whatever the dump
records and whatever is switched on, and the outcome is a text again. What is left are the ways in
which the dump can be at fault (`annotateSource_cases`): it cannot be read, a numeral in it has too
many digits, or it records a type for which the call stack has no room.
-/

namespace TypeScribe

open Dump

/-! ## From places to edits -/

/-- Of two ordered edits that do not overlap, the first ends before the second starts. Both may have
no width and stand at one place; then the order of the list tells them apart. -/
theorem Edit.before_of_apart {a b : Edit} (hb : b.start ≤ b.stop)
    (hapart : a.stop ≤ b.start ∨ b.stop ≤ a.start) (hle : a.le b = true) : a.Before b := by
  rw [Edit.le_iff] at hle
  show a.stop ≤ b.start
  omega

/-- The place of an edit among the places that the edits are made at. -/
theorem Edit.exists_place {edits : List Edit} {places : List (Nat × Nat)}
    (hsub : (edits.map Edit.stretch).Sublist (places.map toStretch)) {edit : Edit}
    (hedit : edit ∈ edits) : ∃ m ∈ places, edit.start = m.1 ∧ edit.stop = m.2 := by
  obtain ⟨m, hm, heq⟩ := List.mem_map.1 (hsub.subset (List.mem_map_of_mem hedit))
  simp only [Edit.stretch, toStretch, Prod.mk.injEq] at heq
  exact ⟨m, hm, heq.1.symm, heq.2.symm⟩

/-- Edits at places that lie in the file and are apart fit the file. -/
theorem Edit.fits_of_places {edits : List Edit} {places : List (Nat × Nat)} {size : Nat}
    (hsub : (edits.map Edit.stretch).Sublist (places.map toStretch))
    (hinside : ∀ m ∈ places, m.1 ≤ m.2 ∧ m.2 ≤ size) (hapart : places.Pairwise Apart) :
    Edit.Fits size (Edit.sort edits) := by
  have hrange : ∀ edit ∈ edits, edit.InRange size := by
    intro edit hedit
    obtain ⟨m, hm, hstart, hstop⟩ := Edit.exists_place hsub hedit
    have hspan := hinside m hm
    exact ⟨by omega, by omega, by omega⟩
  have hplaces : (places.map toStretch).Pairwise fun s t => s.2 ≤ t.1 ∨ t.2 ≤ s.1 :=
    List.pairwise_map.2 (hapart.imp fun {m n} h => by simpa [toStretch, Apart] using h)
  have hedits : edits.Pairwise fun a b => a.stop ≤ b.start ∨ b.stop ≤ a.start :=
    List.pairwise_map.1 (hplaces.sublist hsub)
  have hsorted : (Edit.sort edits).Pairwise fun a b => a.stop ≤ b.start ∨ b.stop ≤ a.start :=
    hedits.perm (Edit.sort_perm edits).symm Or.symm
  refine ⟨fun edit hedit => hrange edit (Edit.mem_sort.1 hedit), ?_⟩
  refine ((Edit.sort_pairwise_le edits).and hsorted).imp_of_mem fun _ hb hab => ?_
  exact Edit.before_of_apart (hrange _ (Edit.mem_sort.1 hb)).2.1 hab.2 hab.1

/-- The text around edits that start and end between characters is a text again. -/
theorem Edit.spliceFrom_isText {text : String} {ordered : List Edit} {position : Nat}
    (hposition : Text.IsBoundary text position)
    (hfits : Edit.Fits (Text.encode text).length ordered)
    (hfrom : ∀ edit ∈ ordered, (position : Int) ≤ edit.start)
    (hboundary : ∀ edit ∈ ordered, Text.IsBoundary text edit.start.toNat ∧
      Text.IsBoundary text edit.stop.toNat) :
    Text.IsText (Edit.spliceFrom position (Text.encode text) ordered) := by
  induction ordered generalizing position with
  | nil => exact hposition.drop_isText
  | cons edit rest ih =>
    obtain ⟨hrange, hbefore, hrest⟩ := Edit.fits_cons.1 hfits
    obtain ⟨hstart, hstop⟩ := hboundary edit List.mem_cons_self
    have hle := hfrom edit List.mem_cons_self
    have hfrom' : ∀ later ∈ rest, (edit.stop.toNat : Int) ≤ later.start := by
      intro later hlater
      have : edit.stop ≤ later.start := hbefore later hlater
      have := hrange.1
      have := hrange.2.1
      omega
    have hlater := ih hstop hrest hfrom' fun e he => hboundary e (List.mem_cons_of_mem _ he)
    exact ((hposition.byteSlice_isText hstart (by omega)).append
      (Text.isText_encode edit.text)).append hlater

/-! ## Plans of a parsed text -/

/-- The stretches of all sites are those of the tree, in another order. -/
theorem SyntaxNode.stretchesBelow_perm (root : SyntaxNode) :
    (root.nodes.flatMap SyntaxNode.callStretches ++
      root.nodes.flatMap SyntaxNode.bindingStretches ++
      root.nodes.flatMap SyntaxNode.closureStretches).Perm root.stretchesBelow := by
  refine List.Perm.trans (List.Perm.append_right _ (List.flatMap_append_perm _ _ _)) ?_
  exact List.flatMap_append_perm _ _ _

/-- Without edits the file's own text is read. -/
theorem applyEdits_nil (text : String) :
    SourceFile.applyEdits (Text.encode text) [] = .ok text := by
  rw [applyEdits_of_fits (Edit.fits_nil _)]
  show SourceFile.decode (Text.encode text) = .ok text
  rw [SourceFile.decode, Text.decode?_encode]

section
variable [CallStack]

/-- The edits planned for a parsed text fit it, and they can be applied. -/
theorem SyntaxNode.FitsText.plan_applies {root : SyntaxNode} {text : String}
    (h : root.FitsText text) (name : String) (dump : Node) (settings : Settings) :
    (∃ edits, (plan dump settings (SourceFile.sites ⟨name, Text.encode text, root⟩)).Gives edits ∧
      edits.Pairwise Edit.Before ∧ (∀ edit ∈ edits, edit.InRange (Text.encode text).length) ∧
      ∃ after, SourceFile.applyEdits (Text.encode text) edits = .ok after) ∨
    ∃ fault, (plan dump settings (SourceFile.sites ⟨name, Text.encode text, root⟩)).outcome =
      .error fault ∧ TooDeep dump fault := by
  obtain ⟨calls, hcalls, hcallPlaces⟩ := h.calls_listed name
  obtain ⟨bindings, hbindings, hbindingPlaces⟩ := h.bindings_listed name
  obtain ⟨closures, hclosures, hclosurePlaces, hclosed⟩ := h.closures_listed name
  refine (plan_cases dump settings (SourceFile.sites ⟨name, Text.encode text, root⟩) hcalls
    hbindings hclosures hclosed).imp_left fun ⟨edits, hplan, hsub⟩ => ?_
  rw [hcallPlaces, hbindingPlaces, hclosurePlaces, ← List.map_append, ← List.map_append] at hsub
  have hperm := root.stretchesBelow_perm
  have hroot := root.mem_nodes_self
  have hinside : ∀ m ∈ root.stretchesBelow, m.1 ≤ m.2 ∧ m.2 ≤ (Text.encode text).length := by
    intro m hm
    have hspan := h.stretchesBelow_inside hroot m hm
    have := h.root_in_text
    omega
  have hfits := Edit.fits_of_places hsub (fun m hm => hinside m (hperm.mem_iff.1 hm))
    ((h.pairwise_apart hroot).perm hperm.symm Apart.symm)
  have hboundary : ∀ edit ∈ Edit.sort edits, Text.IsBoundary text edit.start.toNat ∧
      Text.IsBoundary text edit.stop.toNat := by
    intro edit hedit
    obtain ⟨m, hm, hstart, hstop⟩ := Edit.exists_place hsub (Edit.mem_sort.1 hedit)
    obtain ⟨node, hnode, hm⟩ := List.mem_flatMap.1 (hperm.mem_iff.1 hm)
    rw [hstart, hstop]
    exact h.stretches_boundary hnode hm
  obtain ⟨after, hafter⟩ := (Edit.spliceFrom_isText (Text.isBoundary_zero text) hfits
    (fun edit hedit => (hfits.inRange edit hedit).1) hboundary).decode?
  refine ⟨Edit.sort edits, hplan, hfits.apart, hfits.inRange, after, ?_⟩
  rw [applyEdits_of_fits (by rwa [Edit.sort_sort]), Edit.sort_sort, SourceFile.decode, hafter]

/-- A dump that is read goes on to the plan. -/
theorem annotateSource_outcome {dump : String} {raw : RawNode}
    (hparse : RawNode.parse dump = .ok raw) (source fileName : String) (tree : SyntaxTree)
    (settings : Settings) :
    (annotateSource source dump fileName tree settings).outcome =
      (SourceFile.annotate ⟨fileName, Text.encode source, tree.root⟩ (Node.ofRaw raw)
        settings).outcome := by
  have hroot : (Node.parse dump).Gives (Node.ofRaw raw) := by
    rw [Node.parse, hparse]
    exact (Logged.gives_note _).bind (Logged.gives_pure _)
  have hfile : (SourceFile.ofBytes fileName (Text.encode source) tree).Gives
      ⟨fileName, Text.encode source, tree.root⟩ := by
    rw [SourceFile.ofBytes]
    split
    · exact (Logged.gives_note _).bind (Logged.gives_pure _)
    · exact (Logged.gives_pure _).bind (Logged.gives_pure _)
  exact hroot.outcome_bind.trans hfile.outcome_bind

/-- A dump that is not read ends the annotation with the reason. -/
theorem annotateSource_of_parse_error {dump : String} {reason : Unread}
    (hparse : RawNode.parse dump = .error reason) (source fileName : String) (tree : SyntaxTree)
    (settings : Settings) :
    (annotateSource source dump fileName tree settings).outcome = .error (.ofUnread reason) := by
  have hroot : Node.parse dump = Logged.fail (.ofUnread reason) := by rw [Node.parse, hparse]
  rw [annotateSource, hroot]
  rfl

/-- What annotation comes to for a text with the tree that a Swift parser gives for it. A dump that
cannot be read is malformed, or digits that stand in it are too many for a numeral. A dump that is
read may record a type for which the call stack has no room. Otherwise annotation succeeds: the
edits planned from the calls, bindings and closures lie in the text, each one ends before every
later one starts, and both the text before and the text after them can be read. -/
theorem annotateSource_cases (source dump fileName : String) (tree : SyntaxTree)
    (settings : Settings) (h : tree.root.FitsText source) :
    (∃ reason, RawNode.parse dump = .error (.malformed reason) ∧
      (annotateSource source dump fileName tree settings).outcome =
        .error (.malformedDump reason)) ∨
    (∃ digits, Parser.IsOverlong digits.toList ∧ digits.toList <:+: dump.toList ∧
      RawNode.parse dump = .error (.notANumeral digits) ∧
      (annotateSource source dump fileName tree settings).outcome =
        .error (.notANumeral digits)) ∨
    (∃ raw text, RawNode.parse dump = .ok raw ∧ IsRecorded (Node.ofRaw raw) text ∧
      OutOfReach text ∧
      (annotateSource source dump fileName tree settings).outcome = .error .tooDeep) ∨
    (∃ raw file, RawNode.parse dump = .ok raw ∧
      (annotateSource source dump fileName tree settings).outcome = .ok file ∧
      file.before = source ∧
      (plan (Node.ofRaw raw) settings
        (SourceFile.sites ⟨fileName, Text.encode source, tree.root⟩)).outcome = .ok file.edits ∧
      file.edits.Pairwise Edit.Before ∧
      ∀ edit ∈ file.edits, edit.InRange (Text.encode source).length) := by
  rcases RawNode.parse_endsBetween dump with ⟨raw, hparse⟩ | ⟨reason, hparse, -⟩ |
    ⟨digits, hparse, hlong, hstands⟩
  · have houtcome := annotateSource_outcome hparse source fileName tree settings
    rw [houtcome]
    rcases h.plan_applies fileName (Node.ofRaw raw) settings with
      ⟨edits, hplan, hapart, hrange, after, hafter⟩ | ⟨fault, hplan, text, htext, rfl, hdeep⟩
    · have hannotate : (SourceFile.annotate ⟨fileName, Text.encode source, tree.root⟩
          (Node.ofRaw raw) settings).Gives ⟨fileName, source, after, edits⟩ :=
        hplan.bind ((Logged.gives_ofExcept hafter).bind ((Logged.gives_note _).bind
          ((Logged.gives_ofExcept (applyEdits_nil source)).bind (Logged.gives_pure _))))
      exact .inr (.inr (.inr ⟨raw, _, hparse, hannotate, rfl, hplan, hapart, hrange⟩))
    · exact .inr (.inr (.inl ⟨raw, text, hparse, htext, hdeep,
        Logged.outcome_bind_of_error hplan⟩))
  · exact .inl ⟨reason, hparse, annotateSource_of_parse_error hparse source fileName tree settings⟩
  · exact .inr (.inl ⟨digits, hlong, hstands, hparse,
      annotateSource_of_parse_error hparse source fileName tree settings⟩)

end

/-- A node on the first line of a file. -/
def nodeOnFirstLine (kind : String) (start stop : Nat) (children : List SyntaxNode) : SyntaxNode :=
  ⟨kind, start, stop, 0, start, true, none, children⟩

/-- A call in a closure in a binding. -/
def closureText : String := "let é = \x7b (x: Int) in Box(x) \x7d"

/-- The tree of `closureText`. -/
def closureTree : SyntaxTree where
  hasError := false
  root := nodeOnFirstLine "source_file" 0 31 [
    nodeOnFirstLine "property_declaration" 0 31 [
      nodeOnFirstLine "value_binding_pattern" 0 3 [],
      nodeOnFirstLine "pattern" 4 6 [nodeOnFirstLine "simple_identifier" 4 6 []],
      nodeOnFirstLine "=" 7 8 [],
      nodeOnFirstLine "lambda_literal" 9 31 [
        nodeOnFirstLine "\x7b" 9 10 [],
        nodeOnFirstLine "lambda_function_type" 11 19 [
          nodeOnFirstLine "(" 11 12 [],
          nodeOnFirstLine "lambda_parameter" 12 18 [
            nodeOnFirstLine "simple_identifier" 12 13 [],
            nodeOnFirstLine "user_type" 15 18 [nodeOnFirstLine "type_identifier" 15 18 []]],
          nodeOnFirstLine ")" 18 19 []],
        nodeOnFirstLine "statements" 23 29 [
          nodeOnFirstLine "call_expression" 23 29 [
            nodeOnFirstLine "simple_identifier" 23 26 [],
            nodeOnFirstLine "call_suffix" 26 29 []]],
        nodeOnFirstLine "\x7d" 30 31 []]]]

/-- The tree keeps the promises of a parser. -/
theorem closureTree_fitsText : closureTree.root.FitsText closureText where
  root_in_text := by
    have hlength : (Text.encode closureText).length = 31 := by decide +kernel
    rw [hlength]
    decide
  inside := by decide +kernel
  ordered := by decide +kernel
  boundary := by decide +kernel
  leaf := by decide +kernel
  signature := by decide +kernel
  parameter := by
    have hspans : ∀ node ∈ closureTree.root.nodes, node.kind = "lambda_parameter" →
        node.start = 12 ∧ node.stop = 18 := by decide +kernel
    have hread : Text.decode? (Text.byteSlice (Text.encode closureText) 12 18) =
        some "x: Int" := by decide +kernel
    intro node hnode hkind written hwritten _
    obtain ⟨hstart, hstop⟩ := hspans node hnode hkind
    rw [hstart, hstop, hread] at hwritten
    cases hwritten
    exact ⟨'x', by decide, by decide⟩

/-- A dump that records the type of the closure. -/
def closureDump : String :=
  "(source_file (closure_expr type='(Int) -> Box<Int>' location=main.swift:1:10))"

/-- The closure of a text beyond ASCII is annotated. -/
theorem annotateSource_closureTree :
    letI := CallStack.uniform 4
    closureTree.root.FitsText closureText ∧
    ∃ file,
      (annotateSource closureText closureDump "main.swift" closureTree .standard).outcome =
        .ok file ∧
      file.before = closureText ∧ file.edits.Pairwise Edit.Before ∧
      ∀ edit ∈ file.edits, edit.InRange (Text.encode closureText).length := by
  let _ := CallStack.uniform 4
  have hok : (annotateSource closureText closureDump "main.swift" closureTree
      .standard).outcome.isOk = true := by decide +kernel
  refine ⟨closureTree_fitsText, ?_⟩
  rcases annotateSource_cases closureText closureDump "main.swift" closureTree
    .standard closureTree_fitsText with ⟨reason, -, hfault⟩ | ⟨digits, -, -, -, hfault⟩ |
    ⟨raw, text, -, -, -, hfault⟩ | ⟨raw, file, -, hfile, hbefore, -, hapart, hrange⟩
  · rw [hfault] at hok
    cases hok
  · rw [hfault] at hok
    cases hok
  · rw [hfault] at hok
    cases hok
  · exact ⟨file, hfile, hbefore, hapart, hrange⟩

/-- A text that keeps the promises of a parser, and a dump with a line of too many digits: the dump
is not called malformed, and nothing is annotated. -/
theorem not_annotateSource_of_manyDigits :
    letI := CallStack.uniform 4
    closureTree.root.FitsText closureText ∧
      (annotateSource closureText (atLine manyDigits) "main.swift" closureTree .standard).outcome =
        .error (.notANumeral (String.ofList manyDigits)) ∧
      ¬∃ reason, RawNode.parse (atLine manyDigits) = .error (.malformed reason) := by
  let _ := CallStack.uniform 4
  have hparse := parse_atLine (show 0 < 4 by decide) isOverlong_manyDigits
  refine ⟨closureTree_fitsText,
    annotateSource_of_parse_error hparse closureText "main.swift" closureTree .standard, ?_⟩
  rintro ⟨reason, hreason⟩
  cases hparse.symm.trans hreason

end TypeScribe
