import Mathlib.Data.List.Basic
import TypeScribe.Proofs.Annotate.Lookups
import TypeScribe.Proofs.SwiftType.Nesting
import TypeScribe.Proofs.SwiftType.Parts

/-!
# Planned edits are made at sites

A plan of sites whose signatures end where they start (`ClosureSite.IsClosed`) fails only if the
dump records a type for which the call stack has no room (`TooDeep`), and every edit that it makes
is made at a place of a site: a call is edited at its callee, a binding at the end of its name, and
a closure at its parameter clause and at the place of its arrow. `plan_cases` says so for a whole
plan, with multiplicities: the stretches of the edits are a sublist of the stretches of the sites.

The way back is open too: an edit that a list of sites gives is the edit of one of the sites
(`exists_of_mem_callEdits` and its companions).
-/

namespace TypeScribe

open Dump

/-! ## Computations that give a value -/

/-- The computation ends with the value. -/
def Logged.Gives {α : Type} (x : Logged α) (value : α) : Prop := x.outcome = .ok value

namespace Logged

variable {α β : Type}

theorem gives_pure (value : α) : (pure value : Logged α).Gives value := rfl

theorem gives_note (event : Event) : (note event).Gives () := rfl

/-- A computation gives a value or ends with a fault. -/
theorem gives_or_error (x : Logged α) :
    (∃ value, x.Gives value) ∨ ∃ fault, x.outcome = .error fault := by
  unfold Gives
  cases x.outcome with
  | ok value => exact .inl ⟨value, rfl⟩
  | error fault => exact .inr ⟨fault, rfl⟩

theorem gives_ofExcept {outcome : Except Fault α} {value : α} (h : outcome = .ok value) :
    (ofExcept outcome).Gives value := h

/-- One computation after another gives what the second gives for the value of the first. -/
theorem Gives.bind {x : Logged α} {f : α → Logged β} {value : α} {next : β}
    (hx : x.Gives value) (hf : (f value).Gives next) : (x >>= f).Gives next := by
  show (Logged.bind x f).outcome = .ok next
  rw [Logged.bind, show x.outcome = .ok value from hx]
  exact hf

/-- A computation that ends with a value has one after each of its steps. -/
theorem exists_of_bind_gives {x : Logged α} {f : α → Logged β} {value : β}
    (h : (x >>= f).Gives value) : ∃ found, x.Gives found ∧ (f found).Gives value := by
  have h : (Logged.bind x f).outcome = .ok value := h
  rw [Logged.bind] at h
  split at h
  · cases h
  · next found hfound => exact ⟨found, hfound, h⟩

/-- A fault of the first computation is the outcome. -/
theorem outcome_bind_of_error {x : Logged α} {f : α → Logged β} {fault : Fault}
    (h : x.outcome = .error fault) : (x >>= f).outcome = .error fault := by
  show (Logged.bind x f).outcome = _
  rw [Logged.bind, h]

/-- If the first computation gives a value, the outcome is that of the second. -/
theorem Gives.outcome_bind {x : Logged α} {f : α → Logged β} {value : α} (h : x.Gives value) :
    (x >>= f).outcome = (f value).outcome := by
  show (Logged.bind x f).outcome = _
  rw [Logged.bind, show x.outcome = .ok value from h]

/-- If the computation ends in a fault, it is one of these. -/
def FailsBy (faults : Fault → Prop) (x : Logged α) : Prop :=
  ∀ fault, x.outcome = .error fault → faults fault

section

variable {faults : Fault → Prop} {x : Logged α}

theorem Gives.failsBy {value : α} (h : x.Gives value) : x.FailsBy faults := by
  intro fault hfault
  cases h.symm.trans hfault

theorem failsBy_fail {fault : Fault} (h : faults fault) :
    (fail fault : Logged α).FailsBy faults := by
  rintro _ ⟨⟩
  exact h

/-- One computation after another has the faults of the two. -/
theorem FailsBy.bind {f : α → Logged β} (hx : x.FailsBy faults)
    (hf : ∀ value, x.Gives value → (f value).FailsBy faults) : (x >>= f).FailsBy faults := by
  intro fault hfault
  rcases x.gives_or_error with ⟨value, hvalue⟩ | ⟨first, hfirst⟩
  · exact hf value hvalue fault (hvalue.outcome_bind ▸ hfault)
  · obtain rfl := Except.error.inj ((outcome_bind_of_error hfirst).symm.trans hfault)
    exact hx first hfirst

theorem FailsBy.mono {faults' : Fault → Prop} (h : x.FailsBy faults)
    (hle : ∀ fault, faults fault → faults' fault) : x.FailsBy faults' :=
  fun fault hfault => hle fault (h fault hfault)

/-- A report and a value. -/
theorem failsBy_note_pure (event : Event) (value : α) :
    (do note event; return value : Logged α).FailsBy faults :=
  ((gives_note event).bind (gives_pure value)).failsBy

end

end Logged

open Logged

/-! ## Stretches of edits and sites -/

/-- Where an edit starts and ends. -/
def Edit.stretch (edit : Edit) : Int × Int := (edit.start, edit.stop)

/-- The place at which a call may be edited. -/
def CallSite.stretch (site : CallSite) : Int × Int := (site.calleeStart, site.calleeEnd)

/-- The place at which a binding may be edited. -/
def BindingSite.stretch (site : BindingSite) : Int × Int := (site.nameEnd, site.nameEnd)

/-- The places at which a closure may be edited. -/
def ClosureSite.stretches (site : ClosureSite) : List (Int × Int) :=
  match site.signatureStart, site.signatureEnd with
  | some start, some stop =>
    [(start, stop), (site.effectsEnd.getD stop, site.effectsEnd.getD stop)]
  | _, _ => []

/-- A signature that starts also ends. -/
def ClosureSite.IsClosed (site : ClosureSite) : Prop :=
  site.signatureStart.isSome → site.signatureEnd.isSome

/-! ## What is written -/

namespace Plan

open SwiftType in
/-- What is written for a callee nests no deeper than what is recorded. -/
theorem depth_le_of_calleeType? {callee : String} {type written : SwiftType}
    (h : calleeType? callee type = some written) : written.depth ≤ type.depth := by
  have hconstructed : (constructed type).depth ≤ type.depth := by
    cases type with
    | function parameters result effects =>
      exact (depth_lt_of_mem_parts (List.mem_append_right _ (List.mem_singleton_self result))).le
    | _ => exact Nat.le_refl _
  have hname {name : String} (type : SwiftType) : (named name type.parts).depth = type.depth := by
    rw [depth_eq, depth_eq type]
    simp [named, parts]
  have hunder (name : String) (type : SwiftType) : (underName name type).depth = type.depth := by
    unfold underName
    split
    · split
      · exact hname (.array _)
      · rfl
    · split
      · exact hname (.dictionary _ _)
      · rfl
    · split
      · exact hname (.optional _ false)
      · rfl
    · rfl
  rw [calleeType?] at h
  split at h
  · next segments hsegments =>
    split at h
    · cases h
    · cases h
      rw [← hsegments, hunder]
      exact hconstructed
  · cases h

open SwiftType in
/-- What is written into a signature nests less deep than the recorded function type. -/
theorem depth_lt_of_mem_writtenTypes {site : ClosureSite}
    {parameters elements : List (TypeElement SwiftType)} {result : SwiftType}
    {effects : List String} (h : matchParameters? site.parameters parameters = some elements) :
    ∀ written ∈ writtenTypes site elements result,
      written.depth < (SwiftType.function parameters result effects).depth := by
  have helement : ∀ element ∈ elements,
      element.type.depth < (SwiftType.function parameters result effects).depth := by
    have hparameter : ∀ element ∈ parameters,
        element.type.depth < (SwiftType.function parameters result effects).depth :=
      fun element helement =>
        depth_lt_of_mem_parts (List.mem_append_left _ (List.mem_map_of_mem helement))
    unfold matchParameters? at h
    split at h
    · cases h
      exact hparameter
    · split at h
      · next label inner variadic _ =>
        split at h
        · cases h
          refine List.forall_mem_map.2 fun element helement => ?_
          have hinner : element.type.depth < (SwiftType.tuple inner).depth :=
            depth_lt_of_mem_parts (List.mem_map_of_mem helement)
          exact hinner.trans (hparameter ⟨label, .tuple inner, variadic⟩ List.mem_cons_self)
        · cases h
      · cases h
  intro written hwritten
  rcases List.mem_append.1 hwritten with hwritten | hwritten
  · obtain ⟨⟨_, element⟩, hpair, rfl⟩ := List.mem_map.1 hwritten
    exact helement element (List.of_mem_zip (List.mem_of_mem_filter hpair)).2
  · split at hwritten
    · cases hwritten
    · rw [List.mem_singleton.1 hwritten]
      exact depth_lt_of_mem_parts (by simp [parts])

/-- The edits of a signature are made at its parameter clause and at the place of its arrow. -/
theorem signatureEdits_sublist (site : ClosureSite) (start stop : Int)
    (elements : List (TypeElement SwiftType)) (result : SwiftType) (effects : List String) :
    ((signatureEdits site start stop elements result effects).map Edit.stretch).Sublist
      [(start, stop), (site.effectsEnd.getD stop, site.effectsEnd.getD stop)] := by
  have hplaces : [(start, stop), (site.effectsEnd.getD stop, site.effectsEnd.getD stop)] =
      [(start, stop)] ++ [(site.effectsEnd.getD stop, site.effectsEnd.getD stop)] := rfl
  rw [signatureEdits, List.map_append, hplaces]
  refine List.Sublist.append ?_ ?_
  · split
    · exact List.Sublist.refl _
    · exact List.nil_sublist _
  · split
    · exact List.nil_sublist _
    · exact List.Sublist.refl _

end Plan

/-! ## Types without room -/

/-- The call stack has no room for the type, to read it or to write it. -/
inductive OutOfReach [CallStack] (text : String) : Prop
  | read : SwiftType.parse text = .error (.stopped .tooDeep) → OutOfReach text
  | write {type : SwiftType} : SwiftType.parse text = .ok type → CallStack.spelled < type.depth →
      OutOfReach text

/-- The fault that tells of such a type. -/
def NoRoom [CallStack] (text : String) (fault : Fault) : Prop :=
  fault = .tooDeep ∧ OutOfReach text

/-- The fault that tells of such a type in a dump. -/
def TooDeep [CallStack] (root : Node) (fault : Fault) : Prop :=
  ∃ text, IsRecorded root text ∧ NoRoom text fault

namespace Plan

variable [CallStack] (root : Node) (fileName : String)

/-- A type is not read only for want of room. -/
theorem readType_failsBy (text : String) :
    (readType text).FailsBy (NoRoom text) := by
  rw [readType]
  rcases SwiftType.parse_cases text with ⟨type, _, -, hparse⟩ | ⟨failure, -, hparse⟩ |
    ⟨-, hparse⟩ <;> rw [hparse]
  · exact (gives_pure _).failsBy
  · exact failsBy_note_pure _ _
  · exact failsBy_fail ⟨rfl, .read hparse⟩

/-- A type that is read is the one that its text says. -/
theorem parse_of_readType_gives {text : String} {type : SwiftType}
    (h : (readType text).Gives (some type)) : SwiftType.parse text = .ok type := by
  rw [readType] at h
  split at h
  · next read hread =>
    cases h
    exact hread
  · obtain ⟨_, -, h⟩ := exists_of_bind_gives h
    cases h
  · cases h

/-- There is no room for types only if one of them has more levels than can be written. -/
theorem makeRoom_failsBy (types : List SwiftType) :
    (makeRoom types).FailsBy fun fault =>
      fault = .tooDeep ∧ ∃ type ∈ types, CallStack.spelled < type.depth := by
  rw [makeRoom]
  split
  · exact (gives_pure _).failsBy
  · next hdeep =>
    refine failsBy_fail ⟨rfl, ?_⟩
    simpa using hdeep

/-- There is no room to write types that nest no deeper than one that was read. -/
theorem makeRoom_failsBy_of_le {text : String} {type : SwiftType}
    (hparse : SwiftType.parse text = .ok type) {types : List SwiftType}
    (hle : ∀ written ∈ types, written.depth ≤ type.depth) :
    (makeRoom types).FailsBy (NoRoom text) := by
  refine (makeRoom_failsBy types).mono fun fault hfault => ⟨hfault.1, ?_⟩
  obtain ⟨written, hwritten, hdeep⟩ := hfault.2
  exact .write hparse (hdeep.trans_le (hle written hwritten))

/-- A type is not spelled only for want of room. -/
theorem spelling_failsBy (text : String) :
    (spelling text).FailsBy (NoRoom text) := by
  refine (readType_failsBy text).bind fun read hread => ?_
  cases read with
  | none => exact (gives_pure _).failsBy
  | some type =>
    refine FailsBy.bind ?_ fun _ _ => (gives_pure _).failsBy
    exact makeRoom_failsBy_of_le (parse_of_readType_gives hread) (by simp)

theorem tooDeep_of_isRecorded {root : Node} {text : String} (h : IsRecorded root text)
    (fault : Fault) (hfault : NoRoom text fault) : TooDeep root fault :=
  ⟨text, h, hfault⟩

/-! ## One site -/

/-- A call has no edit to make, or one, unless a type recorded for it is too deep. -/
theorem callEdit_failsBy (site : CallSite) :
    (callEdit root fileName site).FailsBy (TooDeep root) := by
  rw [callEdit]
  split
  · exact (gives_pure _).failsBy
  · dsimp only
    split
    · exact failsBy_note_pure _ _
    · next hit hhit =>
      split
      · exact failsBy_note_pure _ _
      · next text htext =>
        have hdeep := tooDeep_of_isRecorded (isRecorded_of_constructedType? hhit htext)
        refine ((readType_failsBy text).mono hdeep).bind fun read hread => ?_
        split
        · exact (gives_pure _).failsBy
        · next written hwritten =>
          obtain ⟨type, rfl, hcallee⟩ := Option.bind_eq_some_iff.1 hwritten
          have hroom : (makeRoom [written]).FailsBy _ :=
            makeRoom_failsBy_of_le (parse_of_readType_gives hread)
              (by simpa using depth_le_of_calleeType? hcallee)
          exact (hroom.mono hdeep).bind fun _ _ => (gives_pure _).failsBy

/-- What an edited call is: a bare type name for which a generic type is recorded, which is written
in its place. -/
theorem exists_of_callEdit_gives {site : CallSite} {edit : Edit}
    (h : (callEdit root fileName site).Gives (some edit)) :
    site.hasGenericArguments = false ∧ isTypeName site.callee = true ∧
      ∃ hit text type written, root.find ⟨fileName, site.line, site.column⟩ = some hit ∧
        constructedType? hit.node ⟨fileName, site.line, site.column⟩ = some text ∧
        SwiftType.parse text = .ok type ∧ calleeType? site.callee type = some written ∧
        edit = ⟨site.calleeStart, site.calleeEnd, written.render⟩ := by
  rw [callEdit] at h
  split at h
  · cases h
  · next hname =>
    rw [Bool.or_eq_true, not_or, Bool.not_eq_true, Bool.not_eq_true, Bool.not_eq_false'] at hname
    dsimp only at h
    split at h
    · obtain ⟨_, -, h⟩ := exists_of_bind_gives h
      cases h
    · next hit hhit =>
      split at h
      · obtain ⟨_, -, h⟩ := exists_of_bind_gives h
        cases h
      · next text htext =>
        obtain ⟨read, hread, h⟩ := exists_of_bind_gives h
        split at h
        · cases h
        · next written hwritten =>
          obtain ⟨_, -, h⟩ := exists_of_bind_gives h
          cases h
          obtain ⟨type, rfl, hcallee⟩ := Option.bind_eq_some_iff.1 hwritten
          exact ⟨hname.1, hname.2, hit, text, type, written, hhit, htext,
            parse_of_readType_gives hread, hcallee, rfl⟩

/-- A call is edited at its callee. -/
theorem stretch_of_callEdit_gives {site : CallSite} {edit : Edit}
    (h : (callEdit root fileName site).Gives (some edit)) : edit.stretch = site.stretch := by
  obtain ⟨-, -, _, _, _, _, -, -, -, -, rfl⟩ := exists_of_callEdit_gives root fileName h
  rfl

/-- A binding has no edit to make, or one, unless a type recorded for it is too deep. -/
theorem bindingEdit_failsBy (site : BindingSite) :
    (bindingEdit root fileName site).FailsBy (TooDeep root) := by
  rw [bindingEdit]
  split
  · exact (gives_pure _).failsBy
  · split
    · exact failsBy_note_pure _ _
    · dsimp only
      split
      · exact failsBy_note_pure _ _
      · next text htext =>
        have hdeep := tooDeep_of_isRecorded (isRecorded_of_bindingType? htext)
        exact ((spelling_failsBy text).mono hdeep).bind fun _ _ => (gives_pure _).failsBy

/-- What an edited binding is: one for which a type is recorded, which is written after its name. -/
theorem exists_of_bindingEdit_gives {site : BindingSite} {edit : Edit}
    (h : (bindingEdit root fileName site).Gives (some edit)) :
    ∃ text spelled, bindingType? root ⟨fileName, site.line, site.column⟩ = some text ∧
      (spelling text).Gives spelled ∧ edit = ⟨site.nameEnd, site.nameEnd, ": " ++ spelled⟩ := by
  rw [bindingEdit] at h
  split at h
  · cases h
  · split at h
    · obtain ⟨_, -, h⟩ := exists_of_bind_gives h
      cases h
    · dsimp only at h
      split at h
      · obtain ⟨_, -, h⟩ := exists_of_bind_gives h
        cases h
      · next text htext =>
        obtain ⟨spelled, hspelled, h⟩ := exists_of_bind_gives h
        cases h
        exact ⟨text, spelled, htext, hspelled, rfl⟩

/-- A binding is edited at the end of its name. -/
theorem stretch_of_bindingEdit_gives {site : BindingSite} {edit : Edit}
    (h : (bindingEdit root fileName site).Gives (some edit)) : edit.stretch = site.stretch := by
  obtain ⟨_, _, -, -, rfl⟩ := exists_of_bindingEdit_gives root fileName h
  rfl

/-- The edits of a closure can be made, unless its signature has no end or there is no room for a
recorded type. -/
theorem closureEdits_failsBy (site : ClosureSite) :
    (closureEdits root fileName site).FailsBy fun fault =>
      fault = .openSignature ∧ ¬site.IsClosed ∨ TooDeep root fault := by
  rw [closureEdits]
  split
  · exact (gives_pure _).failsBy
  · next hsignature =>
    split
    · exact (gives_pure _).failsBy
    · dsimp only
      split
      · exact failsBy_note_pure _ _
      · next text htext =>
        have hdeep fault (hfault : NoRoom text fault) :
            fault = .openSignature ∧ ¬site.IsClosed ∨ TooDeep root fault :=
          .inr (tooDeep_of_isRecorded (isRecorded_of_closureNode? htext) fault hfault)
        refine ((readType_failsBy text).mono hdeep).bind fun read hread => ?_
        split
        · split
          · exact failsBy_note_pure _ _
          · next elements helements =>
            split
            · have hroom := makeRoom_failsBy_of_le (parse_of_readType_gives hread)
                fun written hwritten => (depth_lt_of_mem_writtenTypes helements written hwritten).le
              exact (hroom.mono hdeep).bind fun _ _ => (gives_pure _).failsBy
            · next hopen =>
              refine failsBy_fail (.inl ⟨rfl, fun hclosed => ?_⟩)
              -- There is a signature, so a closed one has two ends.
              obtain ⟨start, hstart⟩ : ∃ start, site.signatureStart = some start := by
                simpa [ClosureSite.hasSignature, Option.ne_none_iff_exists'] using hsignature
              obtain ⟨stop, hstop⟩ :=
                Option.isSome_iff_exists.1 (hclosed (by rw [hstart]; rfl))
              exact hopen start stop hstart hstop
        · exact failsBy_note_pure _ _

/-- What an edited closure is: one for which a function type is recorded that its parameters match,
which is written into its signature. -/
theorem exists_of_closureEdits_gives {site : ClosureSite} {edits : List Edit} {edit : Edit}
    (h : (closureEdits root fileName site).Gives edits) (hedit : edit ∈ edits) :
    ∃ node text parameters result effects elements start stop,
      closureNode? root ⟨fileName, site.line, site.column⟩ = some node ∧ node.type = some text ∧
      SwiftType.parse text = .ok (.function parameters result effects) ∧
      matchParameters? site.parameters parameters = some elements ∧
      site.signatureStart = some start ∧ site.signatureEnd = some stop ∧
      edits = signatureEdits site start stop elements result effects := by
  -- Every branch but the last ends without an edit.
  have hnone {other : List Edit} (hother : (pure other : Logged (List Edit)).Gives edits)
      (hnil : other = []) : False := by
    cases hother
    rw [hnil] at hedit
    cases hedit
  rw [closureEdits] at h
  split at h
  · exact (hnone h rfl).elim
  · split at h
    · exact (hnone h rfl).elim
    · dsimp only at h
      split at h
      · obtain ⟨_, -, h⟩ := exists_of_bind_gives h
        exact (hnone h rfl).elim
      · next text htext =>
        obtain ⟨node, hnode, htype⟩ := Option.bind_eq_some_iff.1 htext
        obtain ⟨read, hread, h⟩ := exists_of_bind_gives h
        split at h
        · next parameters result effects =>
          split at h
          · obtain ⟨_, -, h⟩ := exists_of_bind_gives h
            exact (hnone h rfl).elim
          · next elements helements =>
            split at h
            · next start stop hstart hstop =>
              obtain ⟨_, -, h⟩ := exists_of_bind_gives h
              cases h
              exact ⟨node, text, parameters, result, effects, elements, start, stop, hnode, htype,
                parse_of_readType_gives hread, helements, hstart, hstop, rfl⟩
            · cases h
        · obtain ⟨_, -, h⟩ := exists_of_bind_gives h
          exact (hnone h rfl).elim

/-- The edits of a closure are made at its stretches, in their order. -/
theorem closureEdits_sublist {site : ClosureSite} {edits : List Edit}
    (h : (closureEdits root fileName site).Gives edits) :
    (edits.map Edit.stretch).Sublist site.stretches := by
  rcases edits.eq_nil_or_concat' with rfl | ⟨_, edit, rfl⟩
  · exact List.nil_sublist _
  · obtain ⟨_, _, _, _, _, _, start, stop, -, -, -, -, hstart, hstop, hedits⟩ :=
      exists_of_closureEdits_gives root fileName h (List.mem_append_right _ List.mem_cons_self)
    rw [hedits, ClosureSite.stretches, hstart, hstop]
    exact signatureEdits_sublist site start stop _ _ _

/-! ## Lists of sites -/

/-- The calls are edited unless a type recorded for one is too deep. -/
theorem callEdits_failsBy (sites : List CallSite) :
    (callEdits root fileName sites).FailsBy (TooDeep root) := by
  induction sites with
  | nil => exact (gives_pure _).failsBy
  | cons site rest ih =>
    exact (callEdit_failsBy root fileName site).bind fun _ _ =>
      ih.bind fun _ _ => (gives_pure _).failsBy

/-- The edits of calls, each at most one per callee. -/
theorem callEdits_sublist {sites : List CallSite} {edits : List ((Int × Int) × Edit)}
    (h : (callEdits root fileName sites).Gives edits) :
    (edits.map fun e => e.2.stretch).Sublist (sites.map CallSite.stretch) := by
  induction sites generalizing edits with
  | nil =>
    cases h
    exact List.nil_sublist _
  | cons site rest ih =>
    obtain ⟨edit, hedit, h⟩ := exists_of_bind_gives h
    obtain ⟨later, hlater, h⟩ := exists_of_bind_gives h
    cases h
    cases edit with
    | none => exact (ih hlater).cons _
    | some e =>
      have he := stretch_of_callEdit_gives root fileName hedit
      simpa [he] using ih hlater

/-- So are the bindings. -/
theorem bindingEdits_failsBy (edited : List (Int × Int)) (sites : List BindingSite) :
    (bindingEdits root fileName edited sites).FailsBy (TooDeep root) := by
  induction sites with
  | nil => exact (gives_pure _).failsBy
  | cons site rest ih =>
    have hrest (edit : Option Edit) :
        (do let later ← bindingEdits root fileName edited rest
            return edit.toList ++ later).FailsBy (TooDeep root) :=
      ih.bind fun _ _ => (gives_pure _).failsBy
    rw [bindingEdits]
    split
    · exact (gives_note _).failsBy.bind fun _ _ => (gives_pure _).failsBy.bind fun _ _ => hrest _
    · exact (bindingEdit_failsBy root fileName site).bind fun _ _ => hrest _

/-- What the first binding and the others give. -/
theorem exists_of_bindingEdits_cons_gives {edited : List (Int × Int)} {site : BindingSite}
    {rest : List BindingSite} {edits : List Edit}
    (h : (bindingEdits root fileName edited (site :: rest)).Gives edits) :
    ∃ edit later, edits = edit.toList ++ later ∧
      (bindingEdits root fileName edited rest).Gives later ∧
      (isSpelledByCall edited site = true ∧ edit = none ∨
        isSpelledByCall edited site = false ∧ (bindingEdit root fileName site).Gives edit) := by
  rw [bindingEdits] at h
  split at h
  · next hspelled =>
    obtain ⟨_, -, h⟩ := exists_of_bind_gives h
    obtain ⟨_, hnone, h⟩ := exists_of_bind_gives h
    obtain ⟨later, hlater, h⟩ := exists_of_bind_gives h
    cases hnone
    cases h
    exact ⟨none, later, rfl, hlater, .inl ⟨hspelled, rfl⟩⟩
  · next hspelled =>
    obtain ⟨edit, hedit, h⟩ := exists_of_bind_gives h
    obtain ⟨later, hlater, h⟩ := exists_of_bind_gives h
    cases h
    exact ⟨edit, later, rfl, hlater, .inr ⟨Bool.eq_false_iff.2 hspelled, hedit⟩⟩

/-- The edits of bindings, each at most one per name. -/
theorem bindingEdits_sublist {edited : List (Int × Int)} {sites : List BindingSite}
    {edits : List Edit} (h : (bindingEdits root fileName edited sites).Gives edits) :
    (edits.map Edit.stretch).Sublist (sites.map BindingSite.stretch) := by
  induction sites generalizing edits with
  | nil =>
    cases h
    exact List.nil_sublist _
  | cons site rest ih =>
    obtain ⟨edit, later, rfl, hlater, hedit⟩ := exists_of_bindingEdits_cons_gives root fileName h
    cases edit with
    | none => exact (ih hlater).cons _
    | some e =>
      rcases hedit with ⟨-, hnone⟩ | ⟨-, hedit⟩
      · cases hnone
      · have he := stretch_of_bindingEdit_gives root fileName hedit
        simpa [he] using ih hlater

/-- Each edit of a list of calls, with its position, belongs to a call. -/
theorem exists_of_mem_callEdits {sites : List CallSite} {made : List ((Int × Int) × Edit)}
    {pair : (Int × Int) × Edit} (h : (callEdits root fileName sites).Gives made)
    (hpair : pair ∈ made) :
    ∃ site ∈ sites, pair.1 = (site.line, site.column) ∧
      (callEdit root fileName site).Gives (some pair.2) := by
  induction sites generalizing made with
  | nil =>
    cases h
    cases hpair
  | cons site rest ih =>
    obtain ⟨edit, hedit, h⟩ := exists_of_bind_gives h
    obtain ⟨later, hlater, h⟩ := exists_of_bind_gives h
    cases h
    rcases List.mem_append.1 hpair with hfirst | hrest
    · obtain ⟨own, rfl, rfl⟩ := Option.map_eq_some_iff.1 (Option.mem_toList.1 hfirst)
      exact ⟨site, List.mem_cons_self, rfl, hedit⟩
    · obtain ⟨other, hother, hspec⟩ := ih hlater hrest
      exact ⟨other, List.mem_cons_of_mem _ hother, hspec⟩

/-- Each edit of a list of bindings belongs to a binding that no edited call spells. -/
theorem exists_of_mem_bindingEdits {edited : List (Int × Int)} {sites : List BindingSite}
    {made : List Edit} {edit : Edit} (h : (bindingEdits root fileName edited sites).Gives made)
    (hedit : edit ∈ made) :
    ∃ site ∈ sites, isSpelledByCall edited site = false ∧
      (bindingEdit root fileName site).Gives (some edit) := by
  induction sites generalizing made with
  | nil =>
    cases h
    cases hedit
  | cons site rest ih =>
    obtain ⟨own, later, rfl, hlater, hown⟩ := exists_of_bindingEdits_cons_gives root fileName h
    rcases List.mem_append.1 hedit with hfirst | hlast
    · obtain rfl := Option.mem_toList.1 hfirst
      rcases hown with ⟨-, hnone⟩ | ⟨hspelled, hown⟩
      · cases hnone
      · exact ⟨site, List.mem_cons_self, hspelled, hown⟩
    · obtain ⟨other, hother, hspec⟩ := ih hlater hlast
      exact ⟨other, List.mem_cons_of_mem _ hother, hspec⟩

/-- So are the closures, unless the signature of one has no end. -/
theorem allClosureEdits_failsBy (sites : List ClosureSite) :
    (allClosureEdits root fileName sites).FailsBy fun fault =>
      fault = .openSignature ∧ (∃ site ∈ sites, ¬site.IsClosed) ∨ TooDeep root fault := by
  induction sites with
  | nil => exact (gives_pure _).failsBy
  | cons site rest ih =>
    have hhere : ¬site.IsClosed → ∃ other ∈ site :: rest, ¬other.IsClosed :=
      fun hopen => ⟨site, List.mem_cons_self, hopen⟩
    have hfirst := (closureEdits_failsBy root fileName site).mono fun fault =>
      Or.imp_left (And.imp_right hhere)
    have hlater : (∃ other ∈ rest, ¬other.IsClosed) → ∃ other ∈ site :: rest, ¬other.IsClosed :=
      fun ⟨other, hother, hopen⟩ => ⟨other, List.mem_cons_of_mem site hother, hopen⟩
    have hrest := ih.mono fun fault => Or.imp_left (And.imp_right hlater)
    exact hfirst.bind fun _ _ => hrest.bind fun _ _ => (gives_pure _).failsBy

/-- The edits of closures, each at a place of its own. -/
theorem allClosureEdits_sublist {sites : List ClosureSite} {edits : List Edit}
    (h : (allClosureEdits root fileName sites).Gives edits) :
    (edits.map Edit.stretch).Sublist (sites.flatMap ClosureSite.stretches) := by
  induction sites generalizing edits with
  | nil =>
    cases h
    exact List.nil_sublist _
  | cons site rest ih =>
    obtain ⟨first, hfirst, h⟩ := exists_of_bind_gives h
    obtain ⟨later, hlater, h⟩ := exists_of_bind_gives h
    cases h
    rw [List.map_append, List.flatMap_cons]
    exact (closureEdits_sublist root fileName hfirst).append (ih hlater)

/-- Each edit of a list of closures belongs to a closure. -/
theorem exists_of_mem_allClosureEdits {sites : List ClosureSite} {made : List Edit} {edit : Edit}
    (h : (allClosureEdits root fileName sites).Gives made) (hedit : edit ∈ made) :
    ∃ site ∈ sites, ∃ own, (closureEdits root fileName site).Gives own ∧ edit ∈ own := by
  induction sites generalizing made with
  | nil =>
    cases h
    cases hedit
  | cons site rest ih =>
    obtain ⟨own, hown, h⟩ := exists_of_bind_gives h
    obtain ⟨later, hlater, h⟩ := exists_of_bind_gives h
    cases h
    rcases List.mem_append.1 hedit with hfirst | hrest
    · exact ⟨site, List.mem_cons_self, own, hown, hfirst⟩
    · obtain ⟨other, hother, hspec⟩ := ih hlater hrest
      exact ⟨other, List.mem_cons_of_mem _ hother, hspec⟩

end Plan

/-! ## The whole plan -/

section Step

variable {α β σ : Type} {annotate : Bool} {listing : Except Fault α} {sites : α}
  {step : α → Logged (List β)} {made : List β}

/-- What a step of a plan has made: the edits of the sites that it has listed, or none if it is
switched off. -/
def StepMakes (annotate : Bool) (listing : Except Fault α) (step : α → Logged (List β))
    (made : List β) : Prop :=
  (annotate = true ∧ ∃ sites, listing = .ok sites ∧ (step sites).Gives made) ∨
    (annotate = false ∧ made = [])

/-- A step that is switched on has made the edits of its sites. -/
theorem StepMakes.gives (h : StepMakes annotate listing step made) (hlisting : listing = .ok sites)
    (hon : annotate = true) : (step sites).Gives made := by
  rcases h with ⟨-, listed, hlisted, hmade⟩ | ⟨hoff, -⟩
  · obtain rfl := Except.ok.inj (hlisting.symm.trans hlisted)
    exact hmade
  · cases hon.symm.trans hoff

/-- A step has made nothing if its sites have no edits. -/
theorem StepMakes.eq_nil (h : StepMakes annotate listing step made) (hlisting : listing = .ok sites)
    (hstep : annotate = true → (step sites).Gives []) : made = [] := by
  rcases h with ⟨hon, listed, hlisted, hmade⟩ | ⟨-, rfl⟩
  · obtain rfl := Except.ok.inj (hlisting.symm.trans hlisted)
    exact Except.ok.inj (hmade.symm.trans (hstep hon))
  · rfl

/-- A step makes its edits at the places of its sites. -/
theorem StepMakes.sublist {γ : Type} {stretch : β → γ} {places : List γ}
    (h : StepMakes annotate listing step made) (hlisting : listing = .ok sites)
    (hstep : (step sites).Gives made → (made.map stretch).Sublist places) :
    (made.map stretch).Sublist places := by
  rcases h with ⟨hon, listed, hlisted, hmade⟩ | ⟨-, rfl⟩
  · obtain rfl := Except.ok.inj (hlisting.symm.trans hlisted)
    exact hstep hmade
  · exact List.nil_sublist _

/-- A step of a plan that succeeds has listed its sites and made their edits, or it is switched off
and has made none. -/
theorem step_gives_cases {rest : List β → Logged σ} {value : σ}
    (h : (if annotate = true then do
        let listed ← Logged.ofExcept listing
        let edits ← step listed
        rest edits
      else do
        let edits ← pure []
        rest edits).Gives value) :
    ∃ made, (rest made).Gives value ∧ StepMakes annotate listing step made := by
  cases annotate with
  | false =>
    obtain ⟨made, hmade, hrest⟩ := exists_of_bind_gives h
    exact ⟨made, hrest, .inr ⟨rfl, (Except.ok.inj hmade).symm⟩⟩
  | true =>
    obtain ⟨sites, hlisting, h⟩ := exists_of_bind_gives h
    obtain ⟨made, hmade, hrest⟩ := exists_of_bind_gives h
    exact ⟨made, hrest, .inl ⟨rfl, sites, hlisting, hmade⟩⟩

/-- A step of a plan that lists its sites fails only as making their edits and going on do. -/
theorem failsBy_step {rest : List β → Logged σ} {faults : Fault → Prop}
    (hlisting : listing = .ok sites) (hstep : annotate = true → (step sites).FailsBy faults)
    (hrest : ∀ made, StepMakes annotate listing step made → (rest made).FailsBy faults) :
    (if annotate = true then do
        let listed ← Logged.ofExcept listing
        let edits ← step listed
        rest edits
      else do
        let edits ← pure []
        rest edits).FailsBy faults := by
  cases annotate with
  | false =>
    refine (gives_pure []).failsBy.bind fun made hmade => hrest made (.inr ⟨rfl, ?_⟩)
    exact (Except.ok.inj hmade).symm
  | true =>
    refine (gives_ofExcept hlisting).failsBy.bind fun listed hlisted => ?_
    obtain rfl := Except.ok.inj (hlisting.symm.trans hlisted)
    exact (hstep rfl).bind fun made hmade => hrest made (.inl ⟨rfl, _, hlisting, hmade⟩)

end Step

section Whole

open Plan

variable [CallStack] (root : Node) (settings : Settings) (sites : SiteListing)
  {calls : List CallSite} {bindings : List BindingSite} {closures : List ClosureSite}
  (hcalls : sites.calls = .ok calls) (hbindings : sites.bindings = .ok bindings)
  (hclosures : sites.closures = .ok closures)
include hcalls hbindings hclosures

/-- With closed signatures, a plan fails only where a recorded type is too deep. -/
theorem plan_failsBy (hclosed : ∀ site ∈ closures, site.IsClosed) :
    (plan root settings sites).FailsBy (TooDeep root) := by
  refine failsBy_step hcalls (fun _ => callEdits_failsBy root _ calls) fun made _ => ?_
  refine failsBy_step hbindings (fun _ => bindingEdits_failsBy root _ _ bindings) fun _ _ => ?_
  refine failsBy_step hclosures (fun _ => ?_) fun _ _ => (gives_pure _).failsBy
  refine (allClosureEdits_failsBy root _ closures).mono fun fault hfault => ?_
  exact hfault.resolve_left fun ⟨_, site, hsite, hopen⟩ => hopen (hclosed site hsite)

/-- The edits of a plan are made, in order, at distinct places of the sites. -/
theorem exists_of_plan_gives {edits : List Edit} (h : (plan root settings sites).Gives edits) :
    ∃ made, edits = Edit.sort made ∧
      (made.map Edit.stretch).Sublist (calls.map CallSite.stretch ++
        bindings.map BindingSite.stretch ++ closures.flatMap ClosureSite.stretches) := by
  obtain ⟨callsMade, h, hcallStep⟩ := step_gives_cases h
  obtain ⟨bindingsMade, h, hbindingStep⟩ := step_gives_cases h
  obtain ⟨closuresMade, h, hclosureStep⟩ := step_gives_cases h
  cases h
  refine ⟨_, rfl, ?_⟩
  rw [List.map_append, List.map_append, List.map_map]
  exact ((hcallStep.sublist hcalls (callEdits_sublist root _)).append
    (hbindingStep.sublist hbindings (bindingEdits_sublist root _))).append
    (hclosureStep.sublist hclosures (allClosureEdits_sublist root _))

/-- A plan of listed sites gives edits, in order, at distinct places of the sites, unless the call
stack has no room for a recorded type. -/
theorem plan_cases (hclosed : ∀ site ∈ closures, site.IsClosed) :
    (∃ edits, (plan root settings sites).Gives (Edit.sort edits) ∧
      (edits.map Edit.stretch).Sublist (calls.map CallSite.stretch ++
        bindings.map BindingSite.stretch ++ closures.flatMap ClosureSite.stretches)) ∨
    ∃ fault, (plan root settings sites).outcome = .error fault ∧ TooDeep root fault := by
  rcases (plan root settings sites).gives_or_error with ⟨edits, hedits⟩ | ⟨fault, hfault⟩
  · obtain ⟨made, rfl, hsub⟩ :=
      exists_of_plan_gives root settings sites hcalls hbindings hclosures hedits
    exact .inl ⟨made, hedits, hsub⟩
  · exact .inr ⟨fault, hfault,
      plan_failsBy root settings sites hcalls hbindings hclosures hclosed fault hfault⟩

end Whole

end TypeScribe
