import LinuseFs.Analysis.RenameEffect

/-!
# Renames that cannot be done

`sac_rename` answers -1 when it does not find one of the two directories, and 0 otherwise.  A name
that the old directory does not list stands for node 0: the new directory gets an entry for the
root, whose parent is overwritten.  A directory is moved into itself just the same.
-/

set_option autoImplicit false

namespace LinuseFs.Analysis

open LinuseFs.Computation LinuseFs.Model LinuseFs.Interface

/-- The new path lies inside the directory that the old one leads to. -/
def Inside (s : SacState) (oldPath newPath : CString) : Prop :=
  stringSplit oldPath.val <+: stringSplit newPath.val ∧
    stringSplit oldPath.val ≠ stringSplit newPath.val ∧
    ∃ n, leadsTo s (stringSplit oldPath.val) = some n ∧ ((viewOf s).inode n).state = 2

/-- The directory that holds the last piece of the path is not there. -/
def ParentMissing (s : SacState) (path : CString) : Prop :=
  leadsTo s (stringSplit path.val).dropLast = none

/-- The rename cannot be done: the old path leads nowhere, a directory is missing, or a directory
would go into itself. -/
def CannotBeDone (s : SacState) (oldPath newPath : CString) : Prop :=
  leadsTo s (stringSplit oldPath.val) = none ∨ ParentMissing s oldPath ∨
    ParentMissing s newPath ∨ Inside s oldPath newPath

/-- `sac_rename` returns a negative value, and afterwards every path leads where it did and every
node has the state, the size and the parent it had. -/
def FailsCleanly (s : SacState) (oldPath newPath : CString) : Prop :=
  ∃ r s', sacRename oldPath newPath s = .ok r s' ∧ r < 0 ∧ SamePaths s s' ∧
    ∀ n, ((viewOf s').inode n).state = ((viewOf s).inode n).state ∧
      ((viewOf s').inode n).fileSize = ((viewOf s).inode n).fileSize ∧
      ((viewOf s').inode n).parentBlock = ((viewOf s).inode n).parentBlock

section RenameFailure

variable {s : SacState} {v : View} {oldPath newPath : CString} {orphan : Option ℕ}

/-- INTERNAL: the second half of a rename answers 0. SRCLINE: sacio.c:413-432 -/
theorem vwp_enterNew_zero (d : ℕ) (name : List UInt8) (n : ℕ) :
    vwp (enterNew d name n) (fun r _ => r = 0) (fun _ _ => True) v := by
  unfold enterNew
  apply vwp_bind_of (vwp_anything _) (fun _ _ _ => trivial)
  intro read _ _
  obtain ⟨node, block⟩ := read
  apply vwp_bind_of (vwp_anything _) (fun _ _ _ => trivial)
  intro node' _ _
  apply vwp_bind_of (vwp_anything _) (fun _ _ _ => trivial)
  intro _ _ _
  apply vwp_bind_of (vwp_anything _) (fun _ _ _ => trivial)
  intro read' _ _
  obtain ⟨file, block'⟩ := read'
  exact vwp_bind_of (vwp_anything _) (fun _ _ _ => trivial) fun _ _ _ => vwp_pure rfl

/-- INTERNAL: **once both directories are found, the answer is 0.** SRCLINE: sacio.c:383-432 -/
theorem vwp_sacRename_zero (h : Inv v orphan)
    (hold : isValidPath oldPath.val = true ∧ oldPath.val ≠ [slash])
    (hnew : isValidPath newPath.val = true ∧ newPath.val ≠ [slash])
    (hpass : Passable v 0 (stringSplit oldPath.val).dropLast)
    (hpass' : Passable v 0 (stringSplit newPath.val).dropLast)
    (hfound : v.tree.walk 0 (stringSplit oldPath.val).dropLast ≠ none)
    (hfound' : v.tree.walk 0 (stringSplit newPath.val).dropLast ≠ none) :
    vwp (sacRename oldPath newPath) (fun r _ => r = 0) (fun _ _ => True) v := by
  refine vwp_sacRename_parents h hold hnew hpass hpass' (fun hmissing => ?_) fun d d' _ _ => ?_
  · rcases hmissing with hnone | hnone
    · exact absurd hnone hfound
    · exact absurd hnone hfound'
  · exact vwp_bind_of (vwp_anything _) (fun _ _ _ => trivial) fun n _ _ => vwp_enterNew_zero _ _ n

/-- **A rename that cannot be done fails and changes nothing** exactly when one of the two
directories is missing. SRCLINE: sacio.c:383-432 -/
theorem fails_cleanly_iff (h : Inv (viewOf s) orphan)
    (hold : isValidPath oldPath.val = true ∧ oldPath.val ≠ [slash])
    (hnew : isValidPath newPath.val = true ∧ newPath.val ≠ [slash])
    (hpass : Passable (viewOf s) 0 (stringSplit oldPath.val).dropLast)
    (hpass' : Passable (viewOf s) 0 (stringSplit newPath.val).dropLast) :
    CannotBeDone s oldPath newPath →
      (FailsCleanly s oldPath newPath ↔ ParentMissing s oldPath ∨ ParentMissing s newPath) := by
  intro _
  constructor
  · rintro ⟨r, s', hok, hneg, -⟩
    by_contra hno
    rw [not_or] at hno
    have hzero := wp_of_ok (Q := fun r _ => r = 0)
      (vwp_sacRename_zero h hold hnew hpass hpass' hno.1 hno.2 s rfl) hok
    omega
  · intro hmissing
    have hsame : vwp (sacRename oldPath newPath) (fun r w => r = -1 ∧ w = viewOf s)
        (fun _ _ => False) (viewOf s) := by
      refine vwp_sacRename_parents h hold hnew hpass hpass' (fun _ => ⟨rfl, rfl⟩)
        fun d d' hd hd' => ?_
      rcases hmissing with hnone | hnone
      · rw [ParentMissing, leadsTo, hd] at hnone
        cases hnone
      · rw [ParentMissing, leadsTo, hd'] at hnone
        cases hnone
    obtain ⟨r, s', hok, rfl, hview⟩ := exists_ok_of_wp (hsame s rfl) fun _ _ hf => hf
    refine ⟨-1, s', hok, by decide, fun ps => ?_, fun n => ?_⟩
    · rw [leadsTo, hview, leadsTo]
    · rw [hview]
      exact ⟨rfl, rfl, rfl⟩

/-- The path `/x/b`, whose directory a new disk does not have. -/
def belowMissingPath : CString := ⟨[47, 120, 47, 98], by decide⟩

/-- The statement for a rename from a directory that is not there. -/
theorem fails_cleanly_missing_directory :
    CannotBeDone newDisk belowMissingPath bPath ∧
      (FailsCleanly newDisk belowMissingPath bPath ↔
        ParentMissing newDisk belowMissingPath ∨ ParentMissing newDisk bPath) := by
  have hfresh := fresh_of_formatted formatted_newDisk
  have hcannot : CannotBeDone newDisk belowMissingPath bPath :=
    Or.inl (hfresh.leadsTo_eq_none (by decide))
  have hroot := hfresh.inv.1.toCore.root
  have hpass : Passable (viewOf newDisk) 0 [[(120 : UInt8)]] :=
    passable_of_dropLast fun _ => ⟨0, rfl, hroot⟩
  have hpass' : Passable (viewOf newDisk) 0 [] := passable_of_dropLast fun hne => absurd rfl hne
  exact ⟨hcannot, fails_cleanly_iff hfresh.inv.1 ⟨by decide, by decide⟩ ⟨by decide, by decide⟩
    hpass hpass' hcannot⟩

/-- **The rename of a name that is not there** does not fail: on a new disk, `/a` to `/b`. SRCLINE:
sacio.c:411-427 -/
theorem rename_missing_succeeds :
    CannotBeDone newDisk aPath bPath ∧ ¬ FailsCleanly newDisk aPath bPath := by
  have hfresh := fresh_of_formatted formatted_newDisk
  have hpass : Passable (viewOf newDisk) 0 [] := passable_of_dropLast fun hne => absurd rfl hne
  have hzero : vwp (sacRename aPath bPath) (fun r _ => r = 0) (fun _ _ => True)
      (viewOf newDisk) :=
    vwp_sacRename_zero hfresh.inv.1 ⟨by decide, by decide⟩ ⟨by decide, by decide⟩ hpass hpass
      (Option.some_ne_none 0) (Option.some_ne_none 0)
  refine ⟨Or.inl (hfresh.leadsTo_eq_none (by decide)), ?_⟩
  rintro ⟨r, s', hok, hneg, -⟩
  have := wp_of_ok (Q := fun r _ => r = 0) (hzero newDisk rfl) hok
  omega

end RenameFailure

end LinuseFs.Analysis
