import LinuseFs.Analysis.Operations

/-!
# Who owns a block

A block of the data region is in use by one node, at one place: as one of its pointer blocks or
as one of its data blocks.  Creating, removing, renaming and writing keep it so from a formatted
disk on, whatever the bytes of the blocks that were free.
-/

set_option autoImplicit false

namespace LinuseFs.Analysis

open LinuseFs.Computation LinuseFs.Model LinuseFs.Interface

/-- The metadata is marked used, every block that a node refers to is in the data region and is
marked used, and no block is referred to from two places. -/
structure Owned (v : View) : Prop where
  metadata : ∀ b ≤ 2, v.used b = true
  inData : ∀ n r, v.live n → (v.inode n).refers r →
    34 ≤ v.place n r ∧ v.place n r < 3000 ∧ v.used (v.place n r) = true
  alone : ∀ n r m q, v.live n → (v.inode n).refers r → v.live m → (v.inode m).refers q →
    v.place n r = v.place m q → n = m ∧ r = q

theorem owned_of_core {v : View} (h : Core v) : Owned v where
  metadata := h.metadata
  inData _ _ hn hr := h.inData ⟨hn, hr⟩
  alone n r m q hn hr hm hq := h.own.inj n r m q ⟨hn, hr⟩ ⟨hm, hq⟩

/-- **No block is ever shared**: not in any run of promised operations other than truncations.
SRCLINE: sacio.c:13-246, sacio.c:383-488 -/
theorem blocks_owned {s t : SacState} {ops : List Operation} (hs : Formatted s)
    (hrun : Run (Step fun v op => Promised v op ∧ op.KeepsPointers) s ops t) :
    Owned (viewOf t) := by
  have hfresh := fresh_of_formatted hs
  obtain ⟨hinv, -⟩ := noStrays_of_run (fun _ _ h => h) ⟨hfresh.inv.1, hfresh.noStrays⟩ hrun
  exact owned_of_core hinv.toCore

/-- The statement for a run that creates a directory on a new disk. -/
theorem blocks_owned_mkdir :
    ∃ t, Run (Step fun v op => Promised v op ∧ op.KeepsPointers) newDisk [.mkdir aPath] t ∧
      Owned (viewOf t) := by
  have hfresh := fresh_of_formatted formatted_newDisk
  have hinv := hfresh.inv.1
  obtain ⟨n, t, date, hok, -⟩ := exists_mkdir hinv (aPath_target hinv.toCore)
    (by decide) (hfresh.lookup_eq_none 0 _) (by decide) hfresh.spare
  have hrun : Run (Step fun v op => Promised v op ∧ op.KeepsPointers) newDisk [.mkdir aPath] t :=
    Run.single ⟨⟨aPath_addressed hinv.toCore, trivial⟩, 0, hok⟩
  exact ⟨t, hrun, blocks_owned formatted_newDisk hrun⟩

end LinuseFs.Analysis
