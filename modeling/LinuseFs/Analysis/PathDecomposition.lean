import LinuseFs.Analysis.Paths

/-!
# The two decompositions of a path

`directory.c` and `utils.c` each have a pair of helpers that cut a path into its directory and its
last piece, one with the slash between them and one without.  They agree on every valid path that
has a piece.  The path of the root has none, and both read the piece before the first.
-/

set_option autoImplicit false

namespace LinuseFs.Analysis

open LinuseFs.Computation LinuseFs.Model

/-- Both helpers return the last piece of the path, without an access outside the array of the
pieces (neither has a way to reject a path), and both parent paths have the pieces before it, so
that `search_path` is the same on both. -/
def Decomposes (path : List UInt8) : Prop :=
  ∃ pieces name folder, stringSplit path = pieces ++ [name] ∧
    getNewDirNameFromPath path = pure name ∧ getFileNameFromFilePath path = pure name ∧
    getFolderPathFromFilePath path = pure folder ∧
    stringSplit (getPreDirPathFromPath path name) = pieces ∧ stringSplit folder = pieces ∧
    searchPath (getPreDirPathFromPath path name) = searchPath folder

/-- INTERNAL: `search_path` looks up the pieces. SRCLINE: directory.c:17-37 -/
theorem searchPath_congr {path path' : List UInt8} (h : stringSplit path = stringSplit path') :
    searchPath path = searchPath path' := by
  rw [searchPath, searchPath, h]

/-- INTERNAL: the path of the root has no piece. -/
theorem stringSplit_root : stringSplit [slash] = [] := by decide

/-- **The decompositions agree** on every valid path but that of the root. SRCLINE:
directory.c:130-132, directory.c:298-309, utils.c:219-240 -/
theorem decomposes_iff {path : CString} (hvalid : isValidPath path.val = true) :
    Decomposes path.val ↔ path.val ≠ [slash] := by
  constructor
  · rintro ⟨pieces, name, -, hsplit, -⟩ hroot
    rw [hroot, stringSplit_root] at hsplit
    exact absurd hsplit (by simp)
  · intro hroot
    obtain ⟨front, name, hpath, hslash, hname⟩ := exists_last_piece hvalid hroot
    obtain ⟨hdir, hfile, hpre, hfolder⟩ := cut_at_last_slash front hslash hname
    rw [hpath]
    refine ⟨stringSplit front, name, front, stringSplit_append front hslash hname, hdir, hfile,
      hfolder, ?_, rfl, ?_⟩
    · rw [hpre, stringSplit_slash]
    · rw [hpre]
      exact searchPath_congr stringSplit_slash

/-- The path `/a//b`. -/
def doubledSlashPath : CString := ⟨[47, 97, 47, 47, 98], by decide⟩

/-- The statement for the path `/a//b`. -/
theorem decomposes_doubled_slash : isValidPath doubledSlashPath.val = true ∧
    (Decomposes doubledSlashPath.val ↔ doubledSlashPath.val ≠ [slash]) :=
  ⟨by decide, decomposes_iff (by decide)⟩

/-- On the path of the root both helpers read outside the array of the pieces. SRCLINE:
directory.c:301, utils.c:236 -/
theorem root_not_decomposed : isValidPath [slash] = true ∧ ¬ Decomposes [slash] ∧
    (∀ s, getNewDirNameFromPath [slash] s = .error .memory s) ∧
    ∀ s, getFileNameFromFilePath [slash] s = .error .memory s := by
  refine ⟨by decide, ?_, fun s => rfl, fun s => rfl⟩
  rintro ⟨pieces, name, -, hsplit, -⟩
  rw [stringSplit_root] at hsplit
  exact absurd hsplit (by simp)

end LinuseFs.Analysis
