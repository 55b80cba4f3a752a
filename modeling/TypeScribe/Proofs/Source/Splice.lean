import Mathlib.Data.List.Sort
import TypeScribe.Proofs.Text.Utf8
import TypeScribe.Source.File

/-!
# Splicing edits into a file

Edits are checked pair by neighbouring pair and spliced in from the last to the first, each one
checked against the bytes as they are by then. This module compares that with a specification that
knows none of it: every edit lies in the file as given (`Edit.InRange`), of any two edits the one
that comes first in order ends before the other starts (`Edit.Before`), and the outcome is read off
the file from front to back (`Edit.spliceFrom`).

`Edit.spliceAll_eq` is the invariant of the splicing loop: after the later edits are in place, the
bytes in front of them are still those of the file. `Edit.fits_of_checks` is the converse, and
`applyEdits_iff_forward_splice` puts the two together with the stability of the order.
-/

namespace TypeScribe

namespace Edit

/-! ## The order of edits -/

theorem le_iff {a b : Edit} :
    a.le b = true ↔ a.start < b.start ∨ a.start = b.start ∧ a.stop ≤ b.stop := by
  simp [le]

theorem le_or_le (a b : Edit) : a.le b = true ∨ b.le a = true := by
  rw [le_iff, le_iff]; omega

theorem le_of_le_of_le {a b c : Edit} (hab : a.le b = true) (hbc : b.le c = true) :
    a.le c = true := by
  rw [le_iff] at *; omega

/-- Sorting is insertion sort by the order of edits. -/
theorem sort_eq_insertionSort (edits : List Edit) :
    sort edits = edits.insertionSort (fun a b => a.le b = true) := by
  have hinsert : ∀ (edit : Edit) (l : List Edit),
      insert edit l = l.orderedInsert (fun a b => a.le b = true) edit := by
    intro edit l
    induction l with
    | nil => rfl
    | cons other rest ih => rw [insert, List.orderedInsert_cons, ih]
  induction edits with
  | nil => rfl
  | cons edit rest ih =>
    rw [List.insertionSort_cons, ← ih, ← hinsert]
    rfl

theorem sort_perm (edits : List Edit) : (sort edits).Perm edits := by
  rw [sort_eq_insertionSort]
  exact List.perm_insertionSort _ edits

theorem mem_sort {edit : Edit} {edits : List Edit} : edit ∈ sort edits ↔ edit ∈ edits :=
  (sort_perm edits).mem_iff

/-- Sorted edits are in order. -/
theorem sort_pairwise_le (edits : List Edit) :
    (sort edits).Pairwise (fun a b => a.le b = true) := by
  have : Std.Total (fun a b : Edit => a.le b = true) := ⟨le_or_le⟩
  have : IsTrans Edit (fun a b : Edit => a.le b = true) := ⟨fun _ _ _ => le_of_le_of_le⟩
  rw [sort_eq_insertionSort]
  exact List.pairwise_insertionSort _ edits

/-- Sorting again changes nothing. -/
theorem sort_sort (edits : List Edit) : sort (sort edits) = sort edits := by
  rw [sort_eq_insertionSort (sort edits)]
  exact (sort_pairwise_le edits).insertionSort_eq

/-- Edits of one stretch keep the order in which they were listed. -/
theorem filter_sort (edits : List Edit) (start stop : Int) :
    (sort edits).filter (fun edit => edit.start = start ∧ edit.stop = stop) =
      edits.filter (fun edit => edit.start = start ∧ edit.stop = stop) := by
  set same : Edit → Bool := fun edit => edit.start = start ∧ edit.stop = stop with hsame
  have : Std.Total (fun a b : Edit => a.le b = true) := ⟨le_or_le⟩
  have : IsTrans Edit (fun a b : Edit => a.le b = true) := ⟨fun _ _ _ => le_of_le_of_le⟩
  have hpairwise : (edits.filter same).Pairwise (fun a b => a.le b = true) := by
    refine List.pairwise_iff_forall_sublist.2 fun {a b} hab => ?_
    have ha : same a = true := List.of_mem_filter (hab.subset (by simp))
    have hb : same b = true := List.of_mem_filter (hab.subset (by simp))
    simp only [hsame, decide_eq_true_eq] at ha hb
    rw [le_iff]; omega
  have hsub : (edits.filter same).Sublist (sort edits) := by
    rw [sort_eq_insertionSort]
    exact List.sublist_insertionSort hpairwise List.filter_sublist
  have hsub' : (edits.filter same).Sublist ((sort edits).filter same) := by
    have := hsub.filter same
    rwa [List.filter_filter, show (fun e => same e && same e) = same by simp] at this
  exact (hsub'.eq_of_length (((sort_perm edits).filter same).length_eq.symm)).symm

/-! ## Where edits may lie -/

/-- The edit is a stretch of a file of `size` bytes. -/
def InRange (size : Nat) (edit : Edit) : Prop :=
  0 ≤ edit.start ∧ edit.start ≤ edit.stop ∧ edit.stop ≤ size

/-- The first edit ends before the second one starts, or where it starts. -/
def Before (a b : Edit) : Prop := a.stop ≤ b.start

instance (size : Nat) (edit : Edit) : Decidable (edit.InRange size) :=
  inferInstanceAs (Decidable (0 ≤ edit.start ∧ edit.start ≤ edit.stop ∧ edit.stop ≤ size))

instance (a b : Edit) : Decidable (Before a b) := inferInstanceAs (Decidable (a.stop ≤ b.start))

/-- Ordered edits fit a file: each one lies in it, and any two follow each other. -/
structure Fits (size : Nat) (ordered : List Edit) : Prop where
  inRange : ∀ edit ∈ ordered, edit.InRange size
  apart : ordered.Pairwise Before

theorem fits_nil (size : Nat) : Fits size [] := ⟨by simp, List.Pairwise.nil⟩

/-- Edits fit if the first is in range and before the others, which fit. -/
theorem fits_cons {size : Nat} {edit : Edit} {rest : List Edit} :
    Fits size (edit :: rest) ↔
      edit.InRange size ∧ (∀ later ∈ rest, edit.Before later) ∧ Fits size rest := by
  constructor
  · rintro ⟨hrange, hapart⟩
    obtain ⟨hbefore, hrest⟩ := List.pairwise_cons.1 hapart
    exact ⟨hrange edit (by simp), hbefore, fun e he => hrange e (by simp [he]), hrest⟩
  · rintro ⟨hedit, hbefore, hrange, hapart⟩
    refine ⟨fun e he => ?_, List.pairwise_cons.2 ⟨hbefore, hapart⟩⟩
    rcases List.mem_cons.1 he with rfl | he
    · exact hedit
    · exact hrange e he

/-! ## Reading the outcome from front to back -/

/-- The bytes of the file from `position` on, with the ordered edits in place: the untouched bytes
up to each edit, its text, and after the last edit the untouched rest. -/
def spliceFrom (position : Nat) (bytes : List UInt8) : List Edit → List UInt8
  | [] => bytes.drop position
  | edit :: rest =>
    Text.byteSlice bytes position edit.start.toNat ++ Text.encode edit.text ++
      spliceFrom edit.stop.toNat bytes rest

/-- Two stretches that touch make one. -/
theorem take_append_byteSlice (bytes : List UInt8) {a b : Nat} (h : a ≤ b) :
    bytes.take a ++ Text.byteSlice bytes a b = bytes.take b := by
  rw [Text.byteSlice, ← List.take_add, Nat.add_sub_cancel' h]

/-- The invariant of the splicing loop: with the later edits in place, the bytes in front of the
first of them are still those of the file. -/
theorem spliceAll_eq {bytes : List UInt8} {ordered : List Edit} (h : Fits bytes.length ordered) :
    ∀ position : Nat, position ≤ bytes.length →
      (∀ edit ∈ ordered, (position : Int) ≤ edit.start) →
      spliceAll ordered bytes = .ok (bytes.take position ++ spliceFrom position bytes ordered) := by
  induction ordered with
  | nil =>
    intro position _ _
    rw [spliceAll, spliceFrom, List.take_append_drop]
  | cons edit rest ih =>
    intro position hpos hstart
    obtain ⟨⟨hstart₀, hle, hstop⟩, hbefore, hrest⟩ := fits_cons.1 h
    have hpos' : position ≤ edit.start.toNat := by
      have := hstart edit (by simp)
      omega
    have hlater : ∀ later ∈ rest, (edit.stop.toNat : Int) ≤ later.start := by
      intro later hmem
      have : edit.stop ≤ later.start := hbefore later hmem
      omega
    have hspliced := ih hrest edit.stop.toNat (by omega) hlater
    have hlen : (bytes.take edit.stop.toNat).length = edit.stop.toNat := by
      rw [List.length_take]; omega
    -- The edit meets the bytes of the file up to its own end, and behind them the outcome so far.
    have hfits : 0 ≤ edit.start ∧ edit.start ≤ edit.stop ∧
        edit.stop ≤ ((bytes.take edit.stop.toNat ++
          spliceFrom edit.stop.toNat bytes rest).length : Int) := by
      rw [List.length_append, hlen]
      omega
    have htake : (bytes.take edit.stop.toNat ++ spliceFrom edit.stop.toNat bytes rest).take
        edit.start.toNat = bytes.take edit.start.toNat := by
      rw [List.take_append_of_le_length (by rw [hlen]; omega), List.take_take]
      congr 1
      omega
    have hdrop : (bytes.take edit.stop.toNat ++ spliceFrom edit.stop.toNat bytes rest).drop
        edit.stop.toNat = spliceFrom edit.stop.toNat bytes rest := List.drop_left' hlen
    rw [spliceAll, hspliced]
    simp only [splice]
    rw [if_pos hfits, htake, hdrop, spliceFrom, ← take_append_byteSlice bytes hpos']
    simp only [List.append_assoc]

/-! ## The checks -/

/-- Two neighbours that do not overlap leave the search to the rest. -/
theorem firstOverlap_cons_cons {a b : Edit} {rest : List Edit} :
    firstOverlap (a :: b :: rest) = none ↔ a.Before b ∧ firstOverlap (b :: rest) = none := by
  rw [firstOverlap, Before]
  split
  · next h => simp only [reduceCtorEq, false_iff, not_and]; omega
  · next h => simp only [iff_and_self]; omega

/-- Edits any two of which follow each other have no neighbours that overlap. -/
theorem firstOverlap_eq_none {ordered : List Edit} (h : ordered.Pairwise Before) :
    firstOverlap ordered = none := by
  induction ordered with
  | nil => rfl
  | cons edit rest ih =>
    obtain ⟨hbefore, hrest⟩ := List.pairwise_cons.1 h
    cases rest with
    | nil => rfl
    | cons next rest => exact firstOverlap_cons_cons.2 ⟨hbefore next (by simp), ih hrest⟩

/-- What the checks let through fits the file. The bytes against which an edit is checked may have
grown by then, but they have not grown in front of the next edit, where it ends at the latest. -/
theorem fits_of_checks {bytes : List UInt8} {ordered : List Edit}
    (hoverlap : firstOverlap ordered = none) {out : List UInt8}
    (hspliced : spliceAll ordered bytes = .ok out) : Fits bytes.length ordered := by
  induction ordered generalizing out with
  | nil => exact fits_nil _
  | cons edit rest ih =>
    rw [spliceAll] at hspliced
    cases hlater : spliceAll rest bytes with
    | error reason => rw [hlater] at hspliced; cases hspliced
    | ok later =>
      rw [hlater] at hspliced
      simp only [splice] at hspliced
      split at hspliced
      case isFalse => cases hspliced
      next hrange =>
        cases rest with
        | nil =>
          cases hlater
          exact fits_cons.2 ⟨hrange, by simp, fits_nil _⟩
        | cons next rest =>
          obtain ⟨hnext, hoverlap'⟩ := firstOverlap_cons_cons.1 hoverlap
          have hrest := ih hoverlap' hlater
          obtain ⟨⟨_, hle, hstop⟩, hbefore, -⟩ := fits_cons.1 hrest
          have hnext' : edit.stop ≤ next.start := hnext
          refine fits_cons.2 ⟨⟨hrange.1, hrange.2.1, by omega⟩, fun e he => ?_, hrest⟩
          rcases List.mem_cons.1 he with rfl | he
          · exact hnext
          · have : next.stop ≤ e.start := hbefore e he
            show edit.stop ≤ e.start
            omega

/-- Edits are applied exactly if they fit the file, and then the outcome is the one that is read
from front to back. -/
theorem applyAll_eq_ok_iff {edits : List Edit} {bytes out : List UInt8} :
    applyAll edits bytes = .ok out ↔
      Fits bytes.length (sort edits) ∧ out = spliceFrom 0 bytes (sort edits) := by
  have hforward : Fits bytes.length (sort edits) →
      spliceAll (sort edits) bytes = .ok (spliceFrom 0 bytes (sort edits)) := fun hfits => by
    have := spliceAll_eq hfits 0 (Nat.zero_le _) fun edit hmem => (hfits.inRange edit hmem).1
    rwa [List.take_zero, List.nil_append] at this
  rw [applyAll]
  constructor
  · intro h
    cases hoverlap : firstOverlap (sort edits) with
    | some reason => rw [hoverlap] at h; cases h
    | none =>
      rw [hoverlap] at h
      have hfits := fits_of_checks hoverlap h
      rw [hforward hfits] at h
      exact ⟨hfits, (Except.ok.inj h).symm⟩
  · rintro ⟨hfits, rfl⟩
    rw [firstOverlap_eq_none hfits.apart]
    exact hforward hfits

end Edit

/-- Reading bytes as text blames the bytes, never the edits. -/
theorem decode_ne_edits {bytes : List UInt8} {reason : EditError} :
    SourceFile.decode bytes ≠ .error (.edits reason) := by
  rw [SourceFile.decode]
  split <;> simp

/-- Edits that fit are applied, and what is read is the outcome from front to back. -/
theorem applyEdits_of_fits {edits : List Edit} {bytes : List UInt8}
    (h : Edit.Fits bytes.length (Edit.sort edits)) :
    SourceFile.applyEdits bytes edits =
      SourceFile.decode (Edit.spliceFrom 0 bytes (Edit.sort edits)) := by
  rw [SourceFile.applyEdits, Edit.applyAll_eq_ok_iff.2 ⟨h, rfl⟩]

open Edit in
/-- Edits get past the checks exactly if each of them is a stretch of the file as given and, in
order, every one ends before every later one starts; then the bytes that are decoded are those read
from front to back. The order is by start and then by end, and edits of one stretch, so insertions
at one place in particular, stay in the order of the list. -/
theorem applyEdits_iff_forward_splice (edits : List Edit) (bytes : List UInt8) :
    ((∀ reason, SourceFile.applyEdits bytes edits ≠ .error (.edits reason)) ↔
      (∀ edit ∈ edits, edit.InRange bytes.length) ∧ (sort edits).Pairwise Before) ∧
    ((∀ edit ∈ edits, edit.InRange bytes.length) ∧ (sort edits).Pairwise Before →
      applyAll edits bytes = .ok (spliceFrom 0 bytes (sort edits)) ∧
      SourceFile.applyEdits bytes edits =
        SourceFile.decode (spliceFrom 0 bytes (sort edits))) ∧
    (sort edits).Perm edits ∧ (sort edits).Pairwise (fun a b => a.le b = true) ∧
    ∀ start stop : Int,
      (sort edits).filter (fun edit => edit.start = start ∧ edit.stop = stop) =
        edits.filter (fun edit => edit.start = start ∧ edit.stop = stop) := by
  have hfits : (∀ edit ∈ edits, edit.InRange bytes.length) ∧ (sort edits).Pairwise Before ↔
      Fits bytes.length (sort edits) := by
    constructor
    · exact fun h => ⟨fun edit hmem => h.1 edit (mem_sort.1 hmem), h.2⟩
    · exact fun h => ⟨fun edit hmem => h.inRange edit (mem_sort.2 hmem), h.apart⟩
  rw [hfits]
  refine ⟨⟨fun hpast => ?_, fun h reason herror => ?_⟩, fun h => ?_, sort_perm edits,
    sort_pairwise_le edits, filter_sort edits⟩
  · cases happly : applyAll edits bytes with
    | ok out => exact (applyAll_eq_ok_iff.1 happly).1
    | error reason =>
      refine absurd ?_ (hpast reason)
      rw [SourceFile.applyEdits, happly]
  · rw [applyEdits_of_fits h] at herror
    exact decode_ne_edits herror
  · exact ⟨applyAll_eq_ok_iff.2 ⟨h, rfl⟩, applyEdits_of_fits h⟩

/-- Two insertions at one place and a replacement that ends there, listed out of order. -/
example : SourceFile.applyEdits (Text.encode "let x = y")
    [⟨5, 5, ": "⟩, ⟨5, 5, "Int"⟩, ⟨4, 5, "z"⟩] = .ok "let z: Int = y" := by
  cbv

end TypeScribe
