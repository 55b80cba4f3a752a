import TypeScribe.Workspace.Basic

/-!
# Writing files

Writing a file puts its new bytes at its place and leaves every other place as it is
(`bytesAt?_write`). Where there is a file already, writing makes no directory either, so a path that
has led to the file leads to it afterwards (`target_write`).
-/

namespace TypeScribe.Workspace

variable {workspace : Workspace} {place other : Place} {bytes old : List UInt8}

/-- Is there a file at the place? -/
def holds (workspace : Workspace) (place : Place) : Bool := workspace.files.any (·.1 == place)

/-- There are bytes at a place if a file is held there. -/
theorem isSome_bytesAt? (workspace : Workspace) (place : Place) :
    (workspace.bytesAt? place).isSome = workspace.holds place := by
  rw [Bool.eq_iff_iff, bytesAt?, List.lookup_isSome_iff, holds, List.any_eq_true]
  refine exists_congr fun file => and_congr_right fun _ => ?_
  rw [beq_iff_eq, beq_iff_eq, eq_comm]

/-- The file with other bytes, if it is the one at the place. -/
def rewrite (place : Place) (bytes : List UInt8) (file : Place × List UInt8) :
    Place × List UInt8 :=
  if file.1 = place then (place, bytes) else file

/-- A file that is written anew stays where it is. -/
theorem rewrite_fst (place : Place) (bytes : List UInt8) (file : Place × List UInt8) :
    (rewrite place bytes file).1 = file.1 := by
  unfold rewrite
  split
  · next h => exact h.symm
  · rfl

theorem write_of_holds (h : workspace.holds place = true) (bytes : List UInt8) :
    workspace.write place bytes = ⟨workspace.files.map (rewrite place bytes)⟩ :=
  if_pos h

theorem write_of_not_holds (h : workspace.holds place = false) (bytes : List UInt8) :
    workspace.write place bytes = ⟨workspace.files ++ [(place, bytes)]⟩ :=
  if_neg (by rw [← holds, h]; exact Bool.false_ne_true)

/-- Files are looked up as before, but for the one that is written anew. -/
theorem lookup_map_rewrite (files : List (Place × List UInt8)) (place other : Place)
    (bytes : List UInt8) :
    (files.map (rewrite place bytes)).lookup other =
      if other = place then (files.lookup other).map fun _ => bytes else files.lookup other := by
  induction files with
  | nil => exact (ite_self none).symm
  | cons file files ih =>
    rw [List.map_cons, List.lookup_cons, List.lookup_cons, ih, rewrite_fst]
    cases heq : other == file.1 with
    | false => rfl
    | true =>
      dsimp only [rewrite]
      rw [beq_iff_eq] at heq
      rw [heq]
      split <;> rfl

/-- Other bytes are found at the place, and nowhere else. -/
theorem bytesAt?_write (workspace : Workspace) (place other : Place) (bytes : List UInt8) :
    (workspace.write place bytes).bytesAt? other =
      if other = place then some bytes else workspace.bytesAt? other := by
  have hholds := workspace.isSome_bytesAt? place
  cases h : workspace.holds place with
  | true =>
    rw [write_of_holds h, bytesAt?, lookup_map_rewrite]
    split
    · next heq =>
      obtain ⟨old, hold⟩ := Option.isSome_iff_exists.1 (hholds.trans h)
      rw [heq, show workspace.files.lookup place = some old from hold, Option.map_some]
    · rfl
  | false =>
    have hnone : workspace.files.lookup place = none :=
      Option.not_isSome_iff_eq_none.1 (Bool.not_eq_true _ ▸ hholds.trans h)
    rw [write_of_not_holds h, bytesAt?, List.lookup_append]
    split
    · next heq =>
      rw [heq, hnone, Option.none_or, List.lookup_cons_self]
    · next hne =>
      rw [List.lookup_cons, beq_eq_false_iff_ne.2 hne]
      exact Option.or_none

/-- A file with other bytes makes no directory. -/
theorem isDirectory_write (h : workspace.holds place = true) (bytes : List UInt8) (other : Place) :
    (workspace.write place bytes).isDirectory other = workspace.isDirectory other := by
  rw [write_of_holds h, isDirectory, isDirectory, List.any_map]
  simp only [Function.comp_def, rewrite_fst]

/-- Names lead where they led before. -/
theorem resolve_write (h : workspace.holds place = true) (bytes : List UInt8) (start : Place)
    (names : List String) :
    (workspace.write place bytes).resolve start names = workspace.resolve start names := by
  induction names generalizing start with
  | nil => rfl
  | cons name names ih => simp only [resolve, isDirectory_write h, ih]

/-- A path that has led to a file leads to its new bytes. -/
theorem target_write {path : Path} (h : workspace.target path = .file place old)
    (bytes : List UInt8) : (workspace.write place bytes).target path = .file place bytes := by
  unfold target at h
  split at h
  · cases h
  · next found hfound =>
    split at h
    · next present hpresent =>
      cases h
      have hholds : workspace.holds place = true := by
        rw [← isSome_bytesAt?, hpresent]
        rfl
      rw [target, resolve_write hholds, hfound]
      dsimp only
      rw [bytesAt?_write, if_pos rfl]
    · split at h <;> cases h

end TypeScribe.Workspace
