import Mathlib.Order.Bounds.Basic
import TypeScribe.Proofs.Dump.Declarations
import TypeScribe.Proofs.Parser.Bounds

/-!
# Where a scan for a closing character ends

The scan counts parentheses; here its result is said without a counter. What it passes over is
balanced text in which every closing character stands inside parentheses (`scans_iff`), so it ends
at the first closing character behind balanced text (`isLeast_closesAt_iff`). A group is therefore
the shortest balanced text from its parenthesis on (`isLeast_parenthesized_iff`), and a substitution
goes on to the first bracket outside parentheses; both are kept as written
(`closeBalanced_finds_least`).
-/

namespace TypeScribe.Dump.Grammar

open TypeScribe.Parser

variable {closing : Char} {text : List Char} {start : Nat}

/-! ## What is passed over -/

/-- Each of these characters in the text stands inside parentheses. -/
def Sheltered (closing : Char) (text : List Char) : Prop :=
  ∀ s t, text = s ++ closing :: t → s.count ')' < s.count '('

/-- In a balanced text no parenthesis closes what is around it. -/
theorem Balanced.sheltered (h : Balanced text) : Sheltered ')' text := by
  intro s t heq
  have hcount := h.count_le (s := s ++ [')']) (t := t) (by rw [heq]; simp)
  simp only [List.count_append, List.count_singleton_self] at hcount
  simp at hcount
  omega

/-- A start of balanced text is balanced if it leaves no parenthesis open. -/
theorem Balanced.of_append {s t : List Char} (h : Balanced (s ++ t))
    (hcount : s.count '(' ≤ s.count ')') : Balanced s := by
  refine ⟨Nat.le_antisymm (h.count_le rfl) hcount, fun {u v} heq => ?_⟩
  exact h.count_le (s := u) (t := v ++ t) (by rw [heq, List.append_assoc])

/-- The scan passes over balanced text, and over closing characters inside parentheses only. -/
theorem scans_iff : Scans closing 0 text 0 ↔ Balanced text ∧ Sheltered closing text := by
  constructor
  · intro h
    refine ⟨⟨by simpa using h.count_eq.symm, fun {s t} heq => ?_⟩, fun s t heq => ?_⟩
    · subst heq
      simpa using h.count_le
    · subst heq
      simpa using h.count_lt
  · rintro ⟨hbalanced, hsheltered⟩
    obtain ⟨s, rest, left, rfl, hscans, hends⟩ := exists_scans closing 0 text
    cases rest with
    | nil =>
      have hcount := hscans.count_eq
      have heq := hbalanced.count_eq
      rw [List.append_nil] at heq ⊢
      obtain rfl : left = 0 := by omega
      exact hscans
    | cons x rest =>
      -- Neither a closing character nor a parenthesis may stand where nothing is open.
      obtain ⟨rfl, rfl | rfl⟩ := hends x rest rfl
      · have hlt := hsheltered s rest rfl
        have hcount := hscans.count_eq
        omega
      · have hlt := hbalanced.sheltered s rest rfl
        have hcount := hscans.count_eq
        omega

/-- The scan accepts a closing character behind what it passes over. -/
theorem closeBalanced_accepts (h : Scans closing 0 text 0) (after : List Char) :
    (closeBalanced closing).Accepts (text ++ [closing]) () after := by
  intro offset
  show closeBalancedFrom closing offset 0 (text ++ [closing] ++ after) = _
  rw [List.append_assoc, closeBalancedFrom_append h, List.singleton_append, closeBalancedFrom,
    if_pos (by simp), List.length_append]
  rfl

/-- What is scanned up to its closing sign is read as it stands. -/
theorem slice_closeBalanced_accepts (opening : String) (h : Scans closing 0 text 0)
    (after : List Char) :
    (slice (token opening >>= fun _ => closeBalanced closing)).Accepts
      (opening.toList ++ (text ++ [closing]))
      (String.ofList (opening.toList ++ (text ++ [closing]))) after :=
  ((token_accepts opening _).bind (closeBalanced_accepts h after)).slice

/-! ## Places in a text -/

/-- The character stands at the index, behind balanced text. -/
structure ClosesAt (text : List Char) (closing : Char) (start index : Nat) : Prop where
  start_le : start ≤ index
  here : text[index]? = some closing
  balanced : Balanced (text.extract start index)

/-- Up to and including the index, more parentheses are closed than opened. -/
def SinksAt (text : List Char) (start index : Nat) : Prop :=
  (text.extract start (index + 1)).count '(' < (text.extract start (index + 1)).count ')'

/-- Of two stretches from one place, the longer goes on from the shorter. -/
theorem extract_prefix_extract (text : List Char) (start : Nat) {i j : Nat} (h : i ≤ j) :
    text.extract start i <+: text.extract start j := by
  rw [List.extract_eq_take_drop, List.extract_eq_take_drop]
  exact List.take_prefix_take_left (by omega)

/-- A closing sign behind a balanced text closes it. -/
theorem closesAt_of_drop_eq {s rest : List Char} (h : text.drop start = s ++ closing :: rest)
    (hs : Balanced s) : ClosesAt text closing start (start + s.length) where
  start_le := Nat.le_add_right _ _
  here := by
    rw [← List.getElem?_drop, h, List.getElem?_append_right (Nat.le_refl _), Nat.sub_self]
    rfl
  balanced := by rwa [extract_of_drop_eq h]

/-- The text falls into what is closed, the closing sign and the rest. -/
theorem ClosesAt.drop_eq {index : Nat} (h : ClosesAt text closing start index) :
    text.drop start = text.extract start index ++ closing :: text.drop (index + 1) := by
  obtain ⟨hlt, hhere⟩ := List.getElem?_eq_some_iff.1 h.here
  rw [← hhere, ← List.drop_eq_getElem_cons hlt]
  exact drop_eq_extract_append h.start_le

/-- What is closed is as long as the way to the closing sign. -/
theorem ClosesAt.length_extract {index : Nat} (h : ClosesAt text closing start index) :
    (text.extract start index).length = index - start := by
  have hlt := (List.getElem?_eq_some_iff.1 h.here).1
  rw [List.extract_eq_take_drop, List.length_take, List.length_drop]
  omega

/-- The first closing character behind balanced text is the one that the scan stops at. -/
theorem isLeast_closesAt_iff {index : Nat} :
    IsLeast {index | ClosesAt text closing start index} index ↔
      ∃ s rest, text.drop start = s ++ closing :: rest ∧ Scans closing 0 s 0 ∧
        index = start + s.length := by
  constructor
  · rintro ⟨hcloses, hleast⟩
    have hdrop := hcloses.drop_eq
    have hbalanced := hcloses.balanced
    have hlength := hcloses.length_extract
    have hstart := hcloses.start_le
    refine ⟨_, _, hdrop, scans_iff.2 ⟨hbalanced, fun s t heq => ?_⟩, by omega⟩
    -- One that is not sheltered would be an earlier one behind balanced text.
    by_contra hcount
    rw [heq, List.append_assoc] at hdrop
    have hs : Balanced s := Balanced.of_append (heq ▸ hbalanced) (by omega)
    have hle : index ≤ start + s.length := hleast (closesAt_of_drop_eq hdrop hs)
    have hshort := congrArg List.length heq
    rw [List.length_append, List.length_cons] at hshort
    omega
  · rintro ⟨s, rest, hdrop, hscans, rfl⟩
    obtain ⟨hbalanced, hsheltered⟩ := scans_iff.1 hscans
    refine ⟨closesAt_of_drop_eq hdrop hbalanced, fun earlier hcloses => ?_⟩
    by_contra hlt
    -- An earlier one would stand in the text passed over, outside parentheses.
    have hlength := hcloses.length_extract
    have hstart := hcloses.start_le
    rcases List.append_eq_append_iff.1 (hcloses.drop_eq.symm.trans hdrop) with
      ⟨m, rfl, hm⟩ | ⟨m, heq, -⟩
    · cases m with
      | nil =>
        rw [List.append_nil] at hlt
        omega
      | cons x m =>
        obtain ⟨rfl, -⟩ := List.cons.inj hm
        have hcount := hsheltered _ m rfl
        rw [hcloses.balanced.count_eq] at hcount
        exact Nat.lt_irrefl _ hcount
    · rw [heq, List.length_append] at hlength
      omega

/-- In what is passed over, no parenthesis is closed that was not opened. -/
theorem not_sinksAt_of_scans {s : List Char} {left index : Nat} (hscans : Scans closing 0 s left)
    (hstands : text.extract start (index + 1) <+: s) : ¬ SinksAt text start index := by
  obtain ⟨t, rfl⟩ := hstands
  have hcount := hscans.count_le
  rw [SinksAt]
  omega

/-! ## How the scan ends -/

section
variable {text : String} (hstart : start ≤ text.length)
include hstart

/-- The scan stops behind the first closing character behind balanced text. -/
theorem closeBalanced_runAt_of_isLeast {index : Nat}
    (h : IsLeast {index | ClosesAt text.toList closing start index} index) :
    (closeBalanced closing).runAt text start = .ok () (.within text.toList (index + 1)) := by
  obtain ⟨s, rest, hdrop, hscans, rfl⟩ := isLeast_closesAt_iff.1 h
  have hdrop' : text.toList.drop start = (s ++ [closing]) ++ rest := by simp [hdrop]
  rw [(closeBalanced_accepts hscans rest).runAt hdrop' hstart, List.length_append]
  rfl

/-- The scan ends at the first place that closes, and only there. -/
theorem closeBalanced_runAt_eq_ok_iff {next : Cursor} :
    (closeBalanced closing).runAt text start = .ok () next ↔
      ∃ index, IsLeast {index | ClosesAt text.toList closing start index} index ∧
        next = .within text.toList (index + 1) := by
  constructor
  · intro h
    have hends := scanEnds closing start 0 (text.toList.drop start)
    rw [show closeBalancedFrom closing start 0 (text.toList.drop start) = _ from h] at hends
    cases hends with
    | closes hdrop hscans =>
      have hleast := isLeast_closesAt_iff.2 ⟨_, _, hdrop, hscans, rfl⟩
      have hrun := closeBalanced_runAt_of_isLeast hstart hleast
      rw [h] at hrun
      exact ⟨_, hleast, (Reply.ok.inj hrun).2⟩
  · rintro ⟨index, hleast, rfl⟩
    exact closeBalanced_runAt_of_isLeast hstart hleast

/-- Without such a character the scan fails at the first parenthesis that closes nothing, or at the
end of the text. -/
theorem closeBalanced_runAt_of_forall_not
    (h : ∀ index, ¬ ClosesAt text.toList closing start index) :
    (∃ index, IsLeast {index | SinksAt text.toList start index} index ∧
      (closeBalanced closing).runAt text start = .failed ⟨index, "balanced parentheses"⟩) ∨
    (∀ index, ¬ SinksAt text.toList start index) ∧
      (closeBalanced closing).runAt text start =
        .failed ⟨text.length, "'" ++ closing.toString ++ "'"⟩ := by
  have hends := scanEnds closing start 0 (text.toList.drop start)
  have hrun : (closeBalanced closing).runAt text start =
      closeBalancedFrom closing start 0 (text.toList.drop start) := rfl
  rw [← hrun] at hends
  generalize (closeBalanced closing).runAt text start = reply at hends
  cases hends with
  | closes hdrop hscans =>
    exact absurd (isLeast_closesAt_iff.2 ⟨_, _, hdrop, hscans, rfl⟩).1 (h _)
  | @sinks s rest _ hdrop hscans =>
    refine .inl ⟨_, ⟨?_, fun earlier hsinks => ?_⟩, rfl⟩
    · have hdrop' : text.toList.drop start = (s ++ [')']) ++ rest := by simp [hdrop]
      have hextract := extract_of_drop_eq hdrop'
      rw [List.length_append, List.length_singleton, ← Nat.add_assoc] at hextract
      show SinksAt text.toList start (start + s.length)
      have hcount := hscans.count_eq
      rw [SinksAt, hextract]
      simp
      omega
    · by_contra hlt
      have hstands : text.toList.extract start (earlier + 1) <+:
          text.toList.extract start (start + s.length) :=
        extract_prefix_extract text.toList start (by omega)
      rw [extract_of_drop_eq hdrop] at hstands
      exact not_sinksAt_of_scans hscans hstands hsinks
  | runsOut hscans =>
    refine .inr ⟨fun index hsinks => ?_, ?_⟩
    · refine not_sinksAt_of_scans hscans ?_ hsinks
      rw [List.extract_eq_take_drop]
      exact List.take_prefix _ _
    · rw [List.length_drop, String.length_toList, Nat.add_sub_of_le hstart]

/-! ## Groups and substitutions -/

/-- A group is read exactly if a balanced text and its closing sign follow the opening one, and it
is read as it stands. -/
theorem slice_closeBalanced_runAt_eq_ok_iff {opening value : String} {next : Cursor} :
    (slice (token opening >>= fun _ => closeBalanced closing)).runAt text start =
        .ok value next ↔
      ∃ inner rest, text.toList.drop start = opening.toList ++ (inner ++ [closing]) ++ rest ∧
        Scans closing 0 inner 0 ∧
        value = String.ofList (opening.toList ++ (inner ++ [closing])) ∧
        next = .within text.toList
          (start + (opening.toList ++ (inner ++ [closing])).length) := by
  constructor
  · intro h
    obtain ⟨_, hok, -⟩ := slice_eq_ok h
    obtain ⟨_, mid, hopen, hscan⟩ := bind_eq_ok hok
    obtain ⟨hreads, -⟩ := token_reads hopen
    have hends := scanEnds closing mid.offset 0 mid.rest
    rw [show closeBalancedFrom closing mid.offset 0 mid.rest = _ from hscan] at hends
    generalize hreply : Reply.ok _ next = reply at hends
    cases hends with
    | @closes inner rest hrest hscans =>
      have hdrop : text.toList.drop start = opening.toList ++ (inner ++ [closing]) ++ rest := by
        rw [show text.toList.drop start = _ from hreads.rest_eq, hrest]
        simp
      have hrun := (slice_closeBalanced_accepts opening hscans rest).runAt hdrop hstart
      obtain ⟨hvalue, hnext⟩ := Reply.ok.inj (h.symm.trans hrun)
      exact ⟨inner, rest, hdrop, hscans, hvalue, hnext⟩
    | sinks => cases hreply
    | runsOut => cases hreply
  · rintro ⟨inner, rest, hdrop, hscans, rfl, rfl⟩
    exact (slice_closeBalanced_accepts opening hscans rest).runAt hdrop hstart

end

/-- A balanced text that starts with a parenthesis. -/
structure Parenthesized (text : List Char) : Prop where
  opens : ['('] <+: text
  balanced : Balanced text

/-- Nothing is balanced that opens a parenthesis and goes on with what the scan passes over. -/
theorem not_parenthesized_of_scans {inner s : List Char} {left : Nat}
    (hscans : Scans ')' 0 inner left) (h : s <+: '(' :: inner) : ¬ Parenthesized s := by
  rintro ⟨⟨u, rfl⟩, hbalanced⟩
  obtain ⟨-, t, rfl⟩ := List.cons_prefix_cons.1 h
  have hcount := hbalanced.count_eq
  have hle : u.count ')' ≤ 0 + u.count '(' := hscans.count_le
  simp at hcount
  omega

/-- A scanned group is the shortest one that is parenthesized. -/
theorem isLeast_parenthesized_of_drop_eq {inner rest : List Char}
    (hdrop : text.drop start = '(' :: inner ++ [')'] ++ rest) (hscans : Scans ')' 0 inner 0) :
    IsLeast {stop | Parenthesized (text.extract start stop)}
      (start + ('(' :: inner ++ [')']).length) := by
  have hextract := extract_of_drop_eq hdrop
  refine ⟨?_, fun earlier hparens => ?_⟩
  · show Parenthesized _
    rw [hextract]
    exact ⟨⟨inner ++ [')'], rfl⟩, (scans_iff.1 hscans).1.parenthesize⟩
  · by_contra hlt
    have hstands := extract_prefix_extract text start (Nat.le_of_not_le hlt)
    rw [hextract] at hstands
    rcases List.prefix_concat_iff.1 hstands with heq | hshort
    · have hlength := congrArg List.length heq
      have hpos : 0 < ('(' :: inner ++ [')']).length := Nat.succ_pos _
      rw [List.extract_eq_take_drop, List.length_take] at hlength
      omega
    · exact not_parenthesized_of_scans hscans hshort hparens

/-- Behind a parenthesis, balanced text goes on to the parenthesis at which the scan stops. -/
theorem isLeast_parenthesized_iff {stop : Nat} :
    IsLeast {stop | Parenthesized (text.extract start stop)} stop ↔
      ∃ inner rest, text.drop start = '(' :: inner ++ [')'] ++ rest ∧ Scans ')' 0 inner 0 ∧
        stop = start + ('(' :: inner ++ [')']).length := by
  constructor
  · intro hleast
    have hparens : Parenthesized (text.extract start stop) := hleast.1
    have hstands : text.extract start stop <+: text.drop start := by
      rw [List.extract_eq_take_drop]
      exact List.take_prefix _ _
    obtain ⟨chars, hchars⟩ := hparens.opens.trans hstands
    obtain ⟨inner, rest, left, rfl, hscans, hends⟩ := exists_scans ')' 0 chars
    cases rest with
    | nil =>
      rw [List.append_nil] at hchars
      rw [← hchars] at hstands
      exact absurd hparens (not_parenthesized_of_scans hscans hstands)
    | cons x rest =>
      obtain ⟨rfl, hx⟩ := hends x rest rfl
      obtain rfl : x = ')' := hx.elim id id
      have hdrop : text.drop start = '(' :: inner ++ [')'] ++ rest := by simp [← hchars]
      exact ⟨inner, rest, hdrop, hscans,
        hleast.unique (isLeast_parenthesized_of_drop_eq hdrop hscans)⟩
  · rintro ⟨inner, rest, hdrop, hscans, rfl⟩
    exact isLeast_parenthesized_of_drop_eq hdrop hscans

/-- A `[with` and a bracket, with balanced text between them in which brackets are sheltered. -/
def IsSubstitution (text : List Char) : Prop :=
  ∃ inner, text = "[with".toList ++ (inner ++ [']']) ∧ Balanced inner ∧ Sheltered ']' inner

/-- The scan for a closing character ends behind the first one that stands behind balanced text.
Where there is none it fails, at the first parenthesis that closes nothing or at the end of the
text. So a group is the shortest balanced text that starts with its parenthesis, and a substitution
goes on to the first bracket outside parentheses; both are kept as written. -/
theorem closeBalanced_finds_least (text : String) {start : Nat} (hstart : start ≤ text.length) :
    (∀ closing : Char,
      (∀ next, (closeBalanced closing).runAt text start = .ok () next ↔
        ∃ index, IsLeast {index | ClosesAt text.toList closing start index} index ∧
          next = .within text.toList (index + 1)) ∧
      ((∀ index, ¬ ClosesAt text.toList closing start index) →
        (∃ index, IsLeast {index | SinksAt text.toList start index} index ∧
          (closeBalanced closing).runAt text start =
            .failed ⟨index, "balanced parentheses"⟩) ∨
        (∀ index, ¬ SinksAt text.toList start index) ∧
          (closeBalanced closing).runAt text start =
            .failed ⟨text.length, "'" ++ closing.toString ++ "'"⟩)) ∧
    (∀ value next, group.runAt text start = .ok value next ↔
      ∃ stop, IsLeast {stop | Parenthesized (text.toList.extract start stop)} stop ∧
        value.toList = text.toList.extract start stop ∧ next = .within text.toList stop) ∧
    (∀ value next, substitution.runAt text start = .ok value next ↔
      ∃ stop ≤ text.length, IsSubstitution (text.toList.extract start stop) ∧
        value.toList = text.toList.extract start stop ∧ next = .within text.toList stop) ∧
    ∀ stop, group.runAt text start ≠ .stopped stop ∧
      substitution.runAt text start ≠ .stopped stop := by
  refine ⟨fun closing => ⟨fun next => closeBalanced_runAt_eq_ok_iff hstart,
    closeBalanced_runAt_of_forall_not hstart⟩, fun value next => ?_, fun value next => ?_,
    fun stop => ⟨Unstopped.ne_stopped _ stop, Unstopped.ne_stopped _ stop⟩⟩
  · rw [show group = slice (token "(" >>= fun _ => closeBalanced ')') from rfl,
      slice_closeBalanced_runAt_eq_ok_iff hstart, show "(".toList = ['('] by decide]
    simp only [isLeast_parenthesized_iff]
    constructor
    · rintro ⟨inner, rest, hdrop, hscans, rfl, rfl⟩
      refine ⟨_, ⟨inner, rest, hdrop, hscans, rfl⟩, ?_, rfl⟩
      exact String.toList_ofList.trans (extract_of_drop_eq hdrop).symm
    · rintro ⟨_, ⟨inner, rest, hdrop, hscans, rfl⟩, hvalue, rfl⟩
      refine ⟨inner, rest, hdrop, hscans, String.toList_inj.1 ?_, rfl⟩
      exact hvalue.trans ((extract_of_drop_eq hdrop).trans String.toList_ofList.symm)
  · rw [show substitution = slice (token "[with" >>= fun _ => closeBalanced ']') from rfl,
      slice_closeBalanced_runAt_eq_ok_iff hstart]
    constructor
    · rintro ⟨inner, rest, hdrop, hscans, rfl, rfl⟩
      have hlength := congrArg List.length hdrop
      rw [List.length_drop, String.length_toList, List.length_append] at hlength
      refine ⟨_, by omega, ?_, ?_, rfl⟩
      · rw [extract_of_drop_eq hdrop]
        exact ⟨inner, rfl, scans_iff.1 hscans⟩
      · exact String.toList_ofList.trans (extract_of_drop_eq hdrop).symm
    · rintro ⟨stop, hstop, ⟨inner, hextract, hinner⟩, hvalue, rfl⟩
      rw [← String.length_toList] at hstop
      obtain ⟨hdrop, hsum⟩ := drop_eq_of_extract_eq hextract (by simp) hstop
      refine ⟨inner, _, hdrop, scans_iff.2 hinner, ?_, congrArg _ hsum⟩
      exact String.toList_inj.1 (hvalue.trans (hextract.trans String.toList_ofList.symm))

/-- Behind `[with`, the bracket in parentheses is passed over. -/
theorem closeBalanced_finds_least_bracket :
    6 ≤ "x[with T=(a]b)] (c)".length ∧
    IsLeast {index | ClosesAt "x[with T=(a]b)] (c)".toList ']' 6 index} 14 := by
  have hstart : 6 ≤ "x[with T=(a]b)] (c)".length := by decide
  have hrun : (closeBalanced ']').runAt "x[with T=(a]b)] (c)" 6 =
      .ok () (.within "x[with T=(a]b)] (c)".toList 15) := by
    rfl
  obtain ⟨index, hleast, hnext⟩ :=
    (((closeBalanced_finds_least _ hstart).1 ']').1 _).1 hrun
  obtain rfl : 14 = index := Nat.succ.inj (congrArg Cursor.offset hnext)
  exact ⟨hstart, hleast⟩

end TypeScribe.Dump.Grammar
