import LinuseFs.Analysis.Deletion
import LinuseFs.Analysis.FileWrite

/-!
# Truncating a file

`deleteLastDataBlock` releases the last data block of a file, with its pointer block when it
was the first one in it.  `Shrunk` is what every round of `sac_truncate` keeps: the file holds
less than before, at the same places.  Pointers past the new size may stay behind.
-/

set_option autoImplicit false

namespace LinuseFs.Analysis

open LinuseFs.Computation LinuseFs.Model LinuseFs.Interface

/-- From `v` to `w` the file `n` has lost blocks, and has no new ones. -/
structure Shrunk (n : ℕ) (v w : View) : Prop where
  others : Others n v w
  core : Core w
  live : ∀ m, w.live m ↔ v.live m
  state : (w.inode n).state = (v.inode n).state
  parentBlock : (w.inode n).parentBlock = (v.inode n).parentBlock
  size : (w.inode n).fileSize ≤ (v.inode n).fileSize
  used : ∀ b, w.used b = true → v.used b = true
  kept : ∀ r, w.held n r → v.held n r ∧ w.place n r = v.place n r
  data : w.data = v.data
  metadata : w.metadata = v.metadata

section Shrunk

variable {u v w : View} {n : ℕ}

theorem Shrunk.refl (h : Core v) (n : ℕ) : Shrunk n v v :=
  ⟨Others.refl h n, h, fun _ => Iff.rfl, rfl, rfl, le_rfl, fun _ hb => hb,
    fun _ hr => ⟨hr, rfl⟩, rfl, rfl⟩

theorem Shrunk.trans (h : Shrunk n u v) (h' : Shrunk n v w) (hu : Core u) : Shrunk n u w where
  others := h.others.trans h'.others hu
  core := h'.core
  live m := (h'.live m).trans (h.live m)
  state := h'.state.trans h.state
  parentBlock := h'.parentBlock.trans h.parentBlock
  size := h'.size.trans h.size
  used b hb := h.used b (h'.used b hb)
  kept r hr := by
    obtain ⟨hr', he⟩ := h'.kept r hr
    obtain ⟨hr'', he'⟩ := h.kept r hr'
    exact ⟨hr'', he.trans he'⟩
  data := h'.data.trans h.data
  metadata := h'.metadata.trans h.metadata

theorem Shrunk.inv {orphan : Option ℕ} (h : Shrunk n v w) (hv : Inv v orphan)
    (hstate : (v.inode n).state ≠ 2) : Inv w orphan := by
  refine ⟨h.core, ?_⟩
  rw [tree_of_others h.others hv.toCore h.live hstate h.state h.parentBlock]
  exact hv.tree

theorem shrunk_resized {S : ℕ} (h : Core v) (hn : v.live n) (hstate : (v.inode n).state = 1)
    (hptr : (v.inode n).ptr 0 ≠ 0) (hS : S ≤ (v.inode n).fileSize) :
    Shrunk n v (resized v n S) := by
  obtain ⟨hcore, hothers, hheld, -⟩ :=
    resized_spec h hn hstate hptr (Nat.div_le_div_right (c := 4096) hS)
  exact ⟨hothers, hcore, fun _ => Iff.rfl, by rw [resized_inode], by rw [resized_inode],
    by rw [resized_inode]; exact hS, fun _ hb => hb,
    fun r hr => ⟨hheld r hr, (resized_place r).symm ▸ rfl⟩, rfl, rfl⟩

/-- The blocks that `deleteLastDataBlock` releases. -/
def lastFreed (v : View) (n : ℕ) : Set ℕ :=
  {b | b = v.place n (.data ((v.inode n).fileSize / 4096)) ∨
    ((v.inode n).fileSize / 4096 % 1024 = 0 ∧
      b = v.place n (.ptr ((v.inode n).fileSize / 4096 / 1024)))}

/-- The node that `deleteLastDataBlock` leaves. SRCLINE: node.c:189-206 -/
def lastDroppedInode (nd : Inode) : Inode :=
  { nd with
    fileSize := if nd.fileSize / 4096 = 0 then 0 else (nd.fileSize / 4096 - 1) * 4096
    ptr := if nd.fileSize / 4096 % 1024 = 0 then
      Function.update nd.ptr (nd.fileSize / 4096 / 1024) 0 else nd.ptr }

/-- The view after `deleteLastDataBlock` on the file `n`. -/
noncomputable def lastDropped (v : View) (n : ℕ) : View :=
  (v.released (lastFreed v n)).setInode n (lastDroppedInode (v.inode n))

theorem lastDropped_inode : (lastDropped v n).inode n = lastDroppedInode (v.inode n) :=
  View.setInode_same ..

/-- INTERNAL: the file refers to less after its last data block is gone, and not to what was
released. SRCLINE: node.c:189-206 -/
theorem lastDropped_refers (h : Core v) (hn : v.live n) (hstate : (v.inode n).state = 1)
    (hsize : (v.inode n).fileSize ≠ 0) {r : Ref} (hr : (lastDroppedInode (v.inode n)).refers r) :
    v.held n r ∧ r ≠ .data ((v.inode n).fileSize / 4096) ∧
      ((v.inode n).fileSize / 4096 % 1024 = 0 →
        r ≠ .ptr ((v.inode n).fileSize / 4096 / 1024)) ∧
      ∀ k, r = .data k → k < (v.inode n).fileSize / 4096 := by
  have hptr : (v.inode n).ptr 0 ≠ 0 := h.ptr_ne_zero hn hstate hsize
  have hblocks := blocks_file hstate hptr
  cases r with
  | ptr i =>
    simp only [Inode.refers, lastDroppedInode] at hr
    by_cases hfirst : (v.inode n).fileSize / 4096 % 1024 = 0
    · rw [if_pos hfirst] at hr
      have hi : i ≠ (v.inode n).fileSize / 4096 / 1024 := by
        rintro rfl
        exact hr (Function.update_self ..)
      rw [Function.update_of_ne hi] at hr
      exact ⟨⟨hn, hr⟩, by simp, fun _ e => hi (Ref.ptr.inj e), by simp⟩
    · rw [if_neg hfirst] at hr
      exact ⟨⟨hn, hr⟩, by simp, fun e => absurd e hfirst, by simp⟩
  | data k =>
    have hk : k < (v.inode n).fileSize / 4096 := by
      by_cases hzero : (v.inode n).fileSize / 4096 = 0
      · -- the only block is gone, and the first pointer with it
        have hnone : (lastDroppedInode (v.inode n)).ptr 0 = 0 := by
          simp [lastDroppedInode, hzero]
        simp only [Inode.refers, Inode.blocks] at hr
        rw [if_pos (show (lastDroppedInode (v.inode n)).state = 1 from hstate), if_pos hnone] at hr
        omega
      · have hfs : (lastDroppedInode (v.inode n)).fileSize =
            ((v.inode n).fileSize / 4096 - 1) * 4096 := if_neg hzero
        simp only [Inode.refers, Inode.blocks] at hr
        rw [if_pos (show (lastDroppedInode (v.inode n)).state = 1 from hstate), hfs] at hr
        split at hr <;> omega
    refine ⟨⟨hn, ?_⟩, fun e => ?_, fun _ e => ?_, fun j e => ?_⟩
    · rw [Inode.refers, hblocks]
      omega
    · cases e
      omega
    · cases e
    · cases e
      exact hk

theorem lastDropped_used_iff (b : ℕ) :
    (lastDropped v n).used b = true ↔ v.used b = true ∧ b ∉ lastFreed v n :=
  View.released_used _ b

theorem lastDropped_used {b : ℕ} (hb : b ∉ lastFreed v n) :
    (lastDropped v n).used b = v.used b := by
  rw [Bool.eq_iff_iff, lastDropped_used_iff]
  simp [hb]

/-- INTERNAL: the last data block and its pointer block are the file's own. -/
theorem held_last (h : Core v) (hn : v.live n) (hstate : (v.inode n).state = 1)
    (hsize : (v.inode n).fileSize ≠ 0) : v.held n (.data ((v.inode n).fileSize / 4096)) ∧
      v.held n (.ptr ((v.inode n).fileSize / 4096 / 1024)) := by
  have hblocks := blocks_file hstate (h.ptr_ne_zero hn hstate hsize)
  have hlast : (v.inode n).refers (.data ((v.inode n).fileSize / 4096)) := by
    rw [Inode.refers, hblocks]
    omega
  exact ⟨⟨hn, hlast⟩, hn, (h.node n hn).refers_ptr hlast⟩

theorem lastFreed_held (h : Core v) (hn : v.live n) (hstate : (v.inode n).state = 1)
    (hsize : (v.inode n).fileSize ≠ 0) {b : ℕ} (hb : b ∈ lastFreed v n) :
    ∃ r, v.held n r ∧ v.place n r = b := by
  obtain ⟨hlast, hlastptr⟩ := held_last h hn hstate hsize
  rcases hb with rfl | ⟨-, rfl⟩
  · exact ⟨_, hlast, rfl⟩
  · exact ⟨_, hlastptr, rfl⟩

theorem lastDropped_others (h : Core v) (hn : v.live n) (hstate : (v.inode n).state = 1)
    (hsize : (v.inode n).fileSize ≠ 0) : Others n v (lastDropped v n) := by
  apply Others.of_touched h hn.1 fun b => b ∈ lastFreed v n
  · intro b hb
    obtain ⟨r, hr, e⟩ := lastFreed_held h hn hstate hsize hb
    exact Or.inr ⟨e ▸ (h.inData hr).1, Or.inr ⟨r, hr, e⟩⟩
  · exact fun m hm => View.setInode_ne _ hm
  · exact fun b => lastDropped_used
  · exact fun b _ => rfl

theorem lastDropped_live (h : Core v) (hn : v.live n) (hstate : (v.inode n).state = 1)
    (hsize : (v.inode n).fileSize ≠ 0) (m : ℕ) : (lastDropped v n).live m ↔ v.live m := by
  unfold View.live
  by_cases hm : m < 32
  · rw [lastDropped_used]
    intro hb
    obtain ⟨r, hr, e⟩ := lastFreed_held h hn hstate hsize hb
    have := (h.inData hr).1
    omega
  · simp [hm]

/-- INTERNAL: what the file holds it held before, in the same place. -/
theorem lastDropped_kept (h : Core v) (hn : v.live n) (hstate : (v.inode n).state = 1)
    (hsize : (v.inode n).fileSize ≠ 0) {r : Ref} (hr : (lastDropped v n).held n r) :
    v.held n r ∧ (lastDropped v n).place n r = v.place n r := by
  obtain ⟨hheld, -, hnotptr, hlt⟩ :=
    lastDropped_refers h hn hstate hsize (lastDropped_inode ▸ hr.2)
  refine ⟨hheld, ?_⟩
  have hdata : (lastDropped v n).data = v.data := rfl
  cases r with
  | ptr i =>
    simp only [View.place, lastDropped_inode, lastDroppedInode]
    split
    next hfirst => rw [Function.update_of_ne fun e => hnotptr hfirst (by rw [e])]
    next => rfl
  | data k =>
    have hk := hlt k rfl
    have hsame : ((lastDropped v n).inode n).ptr (k / 1024) = (v.inode n).ptr (k / 1024) := by
      simp only [lastDropped_inode, lastDroppedInode]
      split
      next hfirst => rw [Function.update_of_ne (by omega)]
      next => rfl
    simp only [View.place, View.dataBlock, View.slot, hsame, hdata]

theorem lastDroppedInode_fileSize_le (nd : Inode) :
    (lastDroppedInode nd).fileSize ≤ nd.fileSize := by
  simp only [lastDroppedInode]
  split
  · exact Nat.zero_le _
  · omega

theorem lastDroppedInode_fits {nd : Inode} (h : nd.Fits) : (lastDroppedInode nd).Fits := by
  refine ⟨h.1, lt_of_le_of_lt (lastDroppedInode_fileSize_le nd) h.2, h.3, h.4, fun i => ?_,
    fun i hi => ?_⟩
  · simp only [lastDroppedInode]
    split
    · rw [Function.update_apply]
      split
      · decide
      · exact h.ptr i
    · exact h.ptr i
  · simp only [lastDroppedInode]
    split
    · rw [Function.update_apply]
      split
      · rfl
      · exact h.ptr_past i hi
    · exact h.ptr_past i hi

/-- INTERNAL: the first pointer goes only with the only block. -/
theorem lastDroppedInode_fileOk {nd : Inode} (h : FileOk nd) (hsize : nd.fileSize ≠ 0) :
    FileOk (lastDroppedInode nd) := by
  have hptr : nd.ptr 0 ≠ 0 := fun e => hsize (h.empty e)
  constructor
  · intro e
    have hzero : nd.fileSize / 4096 = 0 := by
      by_contra hne
      simp only [lastDroppedInode] at e
      split at e
      next hfirst =>
        rw [Function.update_of_ne (by omega)] at e
        exact hptr e
      next => exact hptr e
    simp only [lastDroppedInode, hzero]
    rfl
  · intro hne i hi
    have hm : nd.fileSize / 4096 ≠ 0 := by
      intro hzero
      apply hne
      simp [lastDroppedInode, hzero]
    have hi' : i ≤ (nd.fileSize / 4096 - 1) / 1024 := by
      simp only [lastDroppedInode, if_neg hm] at hi
      omega
    have hold : nd.ptr i ≠ 0 := h.ptr hptr i (by omega)
    simp only [lastDroppedInode]
    split
    next hfirst =>
      rw [Function.update_of_ne (by omega)]
      exact hold
    next => exact hold

theorem lastDropped_core (h : Core v) (hn : v.live n) (hstate : (v.inode n).state = 1)
    (hsize : (v.inode n).fileSize ≠ 0) : Core (lastDropped v n) := by
  have hnode := h.node n hn
  obtain ⟨hlast, hlastptr⟩ := held_last h hn hstate hsize
  have hnode' : NodeOk (lastDropped v n) (lastDroppedInode (v.inode n)) :=
    ⟨lastDroppedInode_fits hnode.fits, Or.inl hstate, hnode.named,
      fun e => absurd (hstate.symm.trans e) (by decide),
      fun _ => lastDroppedInode_fileOk (hnode.file hstate) hsize⟩
  refine h.change (lastDropped_others h hn hstate hsize) (fun _ => False) ?_
    (fun _ => lastDropped_inode ▸ hnode') ?_ ?_ ?_ ?_
  · rintro rfl
    rw [h.root] at hstate
    exact absurd hstate (by decide)
  · intro _ hn0
    rw [lastDropped_inode]
    exact h.parent n hn hn0
  · intro r hr _
    obtain ⟨hheld, hplace⟩ := lastDropped_kept h hn hstate hsize hr
    obtain ⟨h1, h2, h3⟩ := h.inData hheld
    refine ⟨hheld, hplace, h1, h2, (lastDropped_used_iff _).mpr ⟨h3, ?_⟩⟩
    obtain ⟨-, hnotdata, hnotptr, -⟩ :=
      lastDropped_refers h hn hstate hsize (lastDropped_inode ▸ hr.2)
    rintro (e | ⟨hfirst, e⟩)
    · exact hnotdata (h.own.inj n _ n _ hheld hlast e).2
    · exact hnotptr hfirst (h.own.inj n _ n _ hheld hlastptr e).2
  · exact fun _ _ hf => hf.elim
  · exact fun _ _ _ hf => hf.elim

/-- INTERNAL: **without its last data block** the file holds the others, at the same places.
SRCLINE: node.c:189-206 -/
theorem shrunk_lastDropped (h : Core v) (hn : v.live n) (hstate : (v.inode n).state = 1)
    (hsize : (v.inode n).fileSize ≠ 0) : Shrunk n v (lastDropped v n) := by
  refine ⟨lastDropped_others h hn hstate hsize, lastDropped_core h hn hstate hsize,
    lastDropped_live h hn hstate hsize, ?_, ?_, ?_,
    fun b hb => ((lastDropped_used_iff b).mp hb).1,
    fun r => lastDropped_kept h hn hstate hsize, rfl, rfl⟩
  · rw [lastDropped_inode]
    rfl
  · rw [lastDropped_inode]
    rfl
  · rw [lastDropped_inode]
    exact lastDroppedInode_fileSize_le _

end Shrunk

/-! ## What is left of a file -/

/-- The reference is to a data block from `c` on, or to the pointer block of such blocks only. -/
def Ref.CutAt (c blocks : ℕ) : Ref → Prop
  | .ptr i => c ≤ 1024 * i ∧ 1024 * i < blocks
  | .data k => c ≤ k

/-- The view after the file `n` lost its data blocks from `c` on, and got the size `S`. -/
noncomputable def cut (v : View) (n c S : ℕ) : View :=
  (v.released {b | ∃ r, v.held n r ∧ Ref.CutAt c (v.inode n).blocks r ∧ v.place n r = b}).setInode n
    { v.inode n with
      fileSize := S
      ptr := fun i => if c ≤ 1024 * i ∧ 1024 * i < (v.inode n).blocks then 0
        else (v.inode n).ptr i }

/-- How many data blocks `sac_truncate` leaves a file of size `s` that it cuts to `len`.
SRCLINE: sacio.c:536-552 -/
def blocksLeft (len s : ℕ) : ℕ :=
  if len / 4096 = s / 4096 then if len = 0 then 0 else s / 4096 + 1
  else if len % 4096 = 0 ∨ (s / 4096 = len / 4096 + 1 ∧ 4096 ≤ s - len) then len / 4096 + 1
  else len / 4096 + 2

/-- The size that `sac_truncate` leaves it with. SRCLINE: sacio.c:536-552 -/
def sizeLeft (len s : ℕ) : ℕ :=
  if s / 4096 = len / 4096 + 1 ∧ 4096 ≤ s - len then len / 4096 * 4096 else len

/-- The view after `sac_truncate` cut the file `n` to `len`. -/
noncomputable def shortened (v : View) (n len : ℕ) : View :=
  if len < (v.inode n).fileSize then
    cut v n (blocksLeft len (v.inode n).fileSize) (sizeLeft len (v.inode n).fileSize)
  else v

section Cut

variable {v : View} {n c c' S S' len : ℕ}

/-- INTERNAL: the last round that drops a block. -/
theorem blocksLeft_last {s : ℕ} (hlt : len < s) (hmore : 4096 ≤ s - len ∨ len = 0)
    (hdone : (if s / 4096 = 0 then 0 else (s / 4096 - 1) * 4096) ≤ len) :
    blocksLeft len s = s / 4096 ∧
      sizeLeft len s = if s / 4096 = 0 then 0 else (s / 4096 - 1) * 4096 := by
  unfold blocksLeft sizeLeft
  by_cases hzero : s / 4096 = 0
  · have hlen : len = 0 := by omega
    have hsame : len / 4096 = s / 4096 := by omega
    have hnot : ¬ s / 4096 = len / 4096 + 1 := by omega
    rw [if_pos hzero, if_pos hsame, if_pos hlen, if_neg fun h => hnot h.1]
    exact ⟨hzero.symm, hlen⟩
  · rw [if_neg hzero] at hdone ⊢
    have hnot : ¬ len / 4096 = s / 4096 := by omega
    have hlast : s / 4096 = len / 4096 + 1 ∧ 4096 ≤ s - len := by omega
    rw [if_neg hnot, if_pos (Or.inr hlast), if_pos hlast]
    omega

/-- INTERNAL: any other round that drops a block leaves a whole number of blocks. -/
theorem blocksLeft_dropped {s : ℕ} (hlt : len < s)
    (hmore : len < if s / 4096 = 0 then 0 else (s / 4096 - 1) * 4096) :
    blocksLeft len (if s / 4096 = 0 then 0 else (s / 4096 - 1) * 4096) = blocksLeft len s ∧
      sizeLeft len (if s / 4096 = 0 then 0 else (s / 4096 - 1) * 4096) = sizeLeft len s ∧
      blocksLeft len s ≤ s / 4096 ∧
      (if s / 4096 = 0 then 0 else (s / 4096 - 1) * 4096) / 4096 + 1 = s / 4096 := by
  have hzero : ¬ s / 4096 = 0 := by
    intro e
    rw [if_pos e] at hmore
    omega
  rw [if_neg hzero] at hmore ⊢
  have hdiv : (s / 4096 - 1) * 4096 / 4096 = s / 4096 - 1 := by omega
  have hnot : ¬ len / 4096 = s / 4096 := by omega
  have hnot' : ¬ len / 4096 = s / 4096 - 1 := by omega
  have hfar : ¬ (s / 4096 = len / 4096 + 1 ∧ 4096 ≤ s - len) := by omega
  unfold blocksLeft sizeLeft
  simp only [hdiv, if_neg hnot, if_neg hnot', if_neg hfar]
  by_cases hwhole : len % 4096 = 0
  · simp only [hwhole, true_or, if_true, true_and]
    refine ⟨?_, by omega, by omega⟩
    split <;> omega
  · have hshort : ¬ (s / 4096 - 1 = len / 4096 + 1 ∧ 4096 ≤ (s / 4096 - 1) * 4096 - len) := by omega
    simp only [hwhole, hshort, hfar, or_self, if_false, true_and]
    exact ⟨by omega, by omega⟩

theorem cut_inode : (cut v n c S).inode n =
    { v.inode n with
      fileSize := S
      ptr := fun i => if c ≤ 1024 * i ∧ 1024 * i < (v.inode n).blocks then 0
        else (v.inode n).ptr i } :=
  View.setInode_same ..

/-- INTERNAL: without blocks to lose the file is resized. -/
theorem resized_eq_cut (hle : (v.inode n).blocks ≤ c)
    (hheld : ∀ k, v.held n (.data k) → k < c) : resized v n S = cut v n c S := by
  have hempty : {b | ∃ r, v.held n r ∧ Ref.CutAt c (v.inode n).blocks r ∧ v.place n r = b} = ∅ := by
    rw [Set.eq_empty_iff_forall_notMem]
    rintro b ⟨r, hr, hcut, -⟩
    cases r with
    | ptr i =>
      simp only [Ref.CutAt] at hcut
      omega
    | data k =>
      have := hheld k hr
      simp only [Ref.CutAt] at hcut
      omega
  have hptr : (fun i => if c ≤ 1024 * i ∧ 1024 * i < (v.inode n).blocks then 0
      else (v.inode n).ptr i) = (v.inode n).ptr := by
    funext i
    rw [if_neg (by omega)]
  rw [cut, hempty, View.released_empty, hptr, resized]

/-- INTERNAL: `deleteLastDataBlock` cuts off the last data block. SRCLINE: node.c:189-206 -/
theorem lastDropped_eq_cut (hn : v.live n) (hnode : NodeOk v (v.inode n))
    (hstate : (v.inode n).state = 1) (hptr : (v.inode n).ptr 0 ≠ 0) :
    lastDropped v n = cut v n ((v.inode n).fileSize / 4096)
      (if (v.inode n).fileSize / 4096 = 0 then 0 else ((v.inode n).fileSize / 4096 - 1) * 4096) := by
  have hblocks := blocks_file hstate hptr
  have hfirst : ∀ i, (v.inode n).fileSize / 4096 ≤ 1024 * i ∧ 1024 * i < (v.inode n).blocks ↔
      (v.inode n).fileSize / 4096 % 1024 = 0 ∧ i = (v.inode n).fileSize / 4096 / 1024 := by
    intro i
    omega
  have hset : lastFreed v n = {b | ∃ r, v.held n r ∧
      Ref.CutAt ((v.inode n).fileSize / 4096) (v.inode n).blocks r ∧ v.place n r = b} := by
    have hlast : v.held n (.data ((v.inode n).fileSize / 4096)) := by
      refine ⟨hn, ?_⟩
      rw [Inode.refers, hblocks]
      omega
    ext b
    constructor
    · rintro (rfl | ⟨hzero, rfl⟩)
      · exact ⟨_, hlast, le_rfl, rfl⟩
      · exact ⟨.ptr _, ⟨hn, hnode.refers_ptr hlast.2⟩, (hfirst _).mpr ⟨hzero, rfl⟩, rfl⟩
    · rintro ⟨r, hr, hcut, rfl⟩
      cases r with
      | ptr i =>
        obtain ⟨hzero, rfl⟩ := (hfirst i).mp hcut
        exact Or.inr ⟨hzero, rfl⟩
      | data k =>
        have hk := hr.2
        rw [Inode.refers, hblocks] at hk
        have hge : (v.inode n).fileSize / 4096 ≤ k := hcut
        obtain rfl : k = (v.inode n).fileSize / 4096 := by omega
        exact Or.inl rfl
  have hpointers : (if (v.inode n).fileSize / 4096 % 1024 = 0 then
      Function.update (v.inode n).ptr ((v.inode n).fileSize / 4096 / 1024) 0
      else (v.inode n).ptr) =
      fun i => if (v.inode n).fileSize / 4096 ≤ 1024 * i ∧ 1024 * i < (v.inode n).blocks then 0
        else (v.inode n).ptr i := by
    funext i
    by_cases hzero : (v.inode n).fileSize / 4096 % 1024 = 0
    · rw [if_pos hzero, Function.update_apply]
      by_cases hi : i = (v.inode n).fileSize / 4096 / 1024
      · rw [if_pos hi, if_pos ((hfirst i).mpr ⟨hzero, hi⟩)]
      · rw [if_neg hi, if_neg fun h => hi ((hfirst i).mp h).2]
    · rw [if_neg hzero, if_neg fun h => hzero ((hfirst i).mp h).1]
  rw [lastDropped, lastDroppedInode, hset, hpointers, cut]

/-- INTERNAL: what a cut leaves: the node in use, the pointers of the blocks below, and these. -/
theorem cut_below (h : Core v) (hn : v.live n) (hstate : (v.inode n).state = 1)
    (hptr : (v.inode n).ptr 0 ≠ 0) (hc : 0 < c) :
    (cut v n c S).live n ∧
      (∀ S' p, ({ (cut v n c S).inode n with fileSize := S', ptr := p } : Inode) =
        { v.inode n with fileSize := S', ptr := p }) ∧
      (∀ i, 1024 * i < c → ((cut v n c S).inode n).ptr i = (v.inode n).ptr i) ∧
      (∀ k < c, (cut v n c S).place n (.data k) = v.place n (.data k)) ∧
      ((cut v n c S).inode n).blocks = S / 4096 + 1 := by
  have hinode := cut_inode (v := v) (n := n) (c := c) (S := S)
  have hptr' : ∀ i, 1024 * i < c → ((cut v n c S).inode n).ptr i = (v.inode n).ptr i := by
    intro i hi
    rw [hinode]
    exact if_neg (by omega)
  refine ⟨⟨hn.1, (View.released_used _ _).mpr ⟨hn.2, ?_⟩⟩, fun S' p => by rw [hinode], hptr',
    fun k hk => ?_, ?_⟩
  · rintro ⟨r, hr, -, e⟩
    have hge := (h.inData hr).1
    have hlt := hn.1
    omega
  · simp only [View.place, View.dataBlock, View.slot, hptr' (k / 1024) (by omega)]
    rfl
  · have hstate' : ((cut v n c S).inode n).state = 1 := by
      rw [hinode]
      exact hstate
    have hsize : ((cut v n c S).inode n).fileSize = S := by rw [hinode]
    rw [blocks_file hstate' (by rw [hptr' 0 (by omega)]; exact hptr), hsize]

/-- INTERNAL: **cutting twice is cutting at the lower block.** -/
theorem cut_cut (h : Core v) (hn : v.live n) (hstate : (v.inode n).state = 1)
    (hptr : (v.inode n).ptr 0 ≠ 0) (hc : c ≤ (v.inode n).blocks) (hS : S / 4096 + 1 = c)
    (hc' : c' ≤ c) : cut (cut v n c S) n c' S' = cut v n c' S' := by
  obtain ⟨hlive, hinode, hptr', hdata, hblocks⟩ :=
    cut_below (S := S) h hn hstate hptr (show 0 < c by omega)
  rw [hS] at hblocks
  have hpointer : ((cut v n c S).inode n).ptr = fun i =>
      if c ≤ 1024 * i ∧ 1024 * i < (v.inode n).blocks then 0 else (v.inode n).ptr i := by
    rw [cut_inode]
  have hset : {b | ∃ r, v.held n r ∧ Ref.CutAt c (v.inode n).blocks r ∧ v.place n r = b} ∪
      {b | ∃ r, (cut v n c S).held n r ∧ Ref.CutAt c' c r ∧ (cut v n c S).place n r = b} =
      {b | ∃ r, v.held n r ∧ Ref.CutAt c' (v.inode n).blocks r ∧ v.place n r = b} := by
    ext b
    constructor
    · rintro (⟨r, hr, hcut, rfl⟩ | ⟨r, ⟨-, hr⟩, hcut, rfl⟩)
      · refine ⟨r, hr, ?_, rfl⟩
        cases r with
        | ptr i => exact ⟨hc'.trans hcut.1, hcut.2⟩
        | data k => exact hc'.trans hcut
      · cases r with
        | ptr i =>
          have hsame := hptr' i hcut.2
          rw [Inode.refers, hsame] at hr
          exact ⟨.ptr i, ⟨hn, hr⟩, ⟨hcut.1, hcut.2.trans_le hc⟩, hsame.symm⟩
        | data k =>
          rw [Inode.refers, hblocks] at hr
          exact ⟨.data k, ⟨hn, hr.trans_le hc⟩, hcut, (hdata k hr).symm⟩
    · rintro ⟨r, hr, hcut, rfl⟩
      cases r with
      | ptr i =>
        by_cases hi : c ≤ 1024 * i
        · exact Or.inl ⟨.ptr i, hr, ⟨hi, hcut.2⟩, rfl⟩
        · have hsame := hptr' i (by omega)
          refine Or.inr ⟨.ptr i, ⟨hlive, ?_⟩, ⟨hcut.1, by omega⟩, hsame⟩
          rw [Inode.refers, hsame]
          exact hr.2
      | data k =>
        by_cases hk : c ≤ k
        · exact Or.inl ⟨.data k, hr, hk, rfl⟩
        · refine Or.inr ⟨.data k, ⟨hlive, ?_⟩, hcut, hdata k (by omega)⟩
          rw [Inode.refers, hblocks]
          omega
  have hpointers : (fun i => if c' ≤ 1024 * i ∧ 1024 * i < c then 0
      else ((cut v n c S).inode n).ptr i) =
      fun i => if c' ≤ 1024 * i ∧ 1024 * i < (v.inode n).blocks then 0 else (v.inode n).ptr i := by
    funext i
    rw [hpointer]
    dsimp only
    by_cases hi : c' ≤ 1024 * i ∧ 1024 * i < c
    · rw [if_pos hi, if_pos ⟨hi.1, by omega⟩]
    · rw [if_neg hi]
      by_cases hi' : c ≤ 1024 * i ∧ 1024 * i < (v.inode n).blocks
      · rw [if_pos hi', if_pos ⟨by omega, hi'.2⟩]
      · rw [if_neg hi', if_neg (by omega)]
  have houter : cut (cut v n c S) n c' S' = ((cut v n c S).released
      {b | ∃ r, (cut v n c S).held n r ∧ Ref.CutAt c' c r ∧ (cut v n c S).place n r = b}).setInode n
      { (cut v n c S).inode n with
        fileSize := S'
        ptr := fun i => if c' ≤ 1024 * i ∧ 1024 * i < c then 0
          else ((cut v n c S).inode n).ptr i } := by
    rw [cut, hblocks]
  have hreleased : ∀ F nd, ((cut v n c S).released F).setInode n nd =
      (v.released ({b | ∃ r, v.held n r ∧ Ref.CutAt c (v.inode n).blocks r ∧ v.place n r = b} ∪
        F)).setInode n nd := by
    intro F nd
    rw [← View.released_released, cut, View.setInode_released, View.setInode_setInode]
  rw [houter, hpointers, hreleased, hset, hinode, cut]

theorem shortened_of_le (hle : (v.inode n).fileSize ≤ len) : shortened v n len = v :=
  if_neg (by omega)

/-- INTERNAL: a round that only lowers the size is the last one. SRCLINE: sacio.c:544-548 -/
theorem resized_eq_shortened (hstate : (v.inode n).state = 1) (hptr : (v.inode n).ptr 0 ≠ 0)
    (hlt : len < (v.inode n).fileSize) (hless : (v.inode n).fileSize - len < 4096)
    (hlen : 0 < len) : resized v n len = shortened v n len := by
  have hblocks := blocks_file hstate hptr
  have hleft : blocksLeft len (v.inode n).fileSize = (v.inode n).blocks := by
    rw [hblocks, blocksLeft]
    by_cases hsame : len / 4096 = (v.inode n).fileSize / 4096
    · rw [if_pos hsame, if_neg (by omega)]
    · rw [if_neg hsame, if_neg (by omega)]
      omega
  have hsize : sizeLeft len (v.inode n).fileSize = len := if_neg (by omega)
  rw [shortened, if_pos hlt, hleft, hsize]
  exact resized_eq_cut le_rfl fun k hk => hk.2

/-- INTERNAL: a round that drops the last data block leaves the rest to the next ones.
SRCLINE: sacio.c:540-543 -/
theorem shortened_lastDropped (h : Core v) (hn : v.live n) (hstate : (v.inode n).state = 1)
    (hlt : len < (v.inode n).fileSize) (hmore : 4096 ≤ (v.inode n).fileSize - len ∨ len = 0) :
    shortened (lastDropped v n) n len = shortened v n len := by
  have hptr : (v.inode n).ptr 0 ≠ 0 := h.ptr_ne_zero hn hstate (by omega)
  have hblocks := blocks_file hstate hptr
  have hsize : ((lastDropped v n).inode n).fileSize =
      if (v.inode n).fileSize / 4096 = 0 then 0 else ((v.inode n).fileSize / 4096 - 1) * 4096 := by
    rw [lastDropped_inode]
    rfl
  have hdropped := lastDropped_eq_cut hn (h.node n hn) hstate hptr
  by_cases hdone : ((lastDropped v n).inode n).fileSize ≤ len
  · obtain ⟨hleft, hleftSize⟩ := blocksLeft_last hlt hmore (hsize ▸ hdone)
    rw [shortened_of_le hdone, shortened, if_pos hlt, hdropped, hleft, hleftSize]
  · obtain ⟨hleft, hleftSize, hle, hwhole⟩ := blocksLeft_dropped hlt (hsize ▸ not_le.mp hdone)
    rw [shortened, if_pos (not_le.mp hdone), shortened, if_pos hlt, hsize, hleft, hleftSize, hdropped]
    exact cut_cut h hn hstate hptr (by omega) hwhole hle

end Cut

/-! ## deleteLastDataBlock and the loop of sac_truncate -/

section Loop

variable {v : View} {E : Fault → View → Prop} {n : ℕ} {node : Node}

/-- INTERNAL: **the last data block goes**, for a private copy of the node that is not stored
yet. SRCLINE: node.c:189-206 -/
theorem vwp_deleteLastDataBlock {Q : Node → View → Prop}
    (h : Core (v.setInode n (inodeOfNode node))) (hn : v.live n) (hstate : node.state = 1)
    (hsize : node.fileSize ≠ 0)
    (hQ : ∀ node' w, inodeOfNode node' = lastDroppedInode (inodeOfNode node) →
      w.setInode n (inodeOfNode node') = lastDropped (v.setInode n (inodeOfNode node)) n →
      Q node' w) :
    vwp (deleteLastDataBlock .ilp32 node) Q E v := by
  generalize hV : v.setInode n (inodeOfNode node) = V at h hQ
  have hVinode : V.inode n = inodeOfNode node := by rw [← hV, View.setInode_same]
  have hVn : V.live n := by rw [← hV]; exact hn
  have hVstate : (V.inode n).state = 1 := by rw [hVinode]; exact hstate
  have hVsize : (V.inode n).fileSize = node.fileSize := by rw [hVinode]; rfl
  have hptr : (V.inode n).ptr 0 ≠ 0 := h.ptr_ne_zero hVn hVstate (hVsize ▸ hsize)
  have hheld : V.held n (.data (node.fileSize / 4096)) :=
    held_of_div_le hVn hVstate hptr (by rw [hVsize])
  have hpheld := (h.node n hVn).refers_ptr hheld.2
  obtain ⟨hp, hp', -⟩ := h.inData_ptr hVn hpheld
  obtain ⟨hb, hb', -⟩ := h.inData hheld
  have hlt := h.blocks_le hVn
  have hk : node.fileSize / 4096 < (V.inode n).blocks := hheld.2
  have hplace : V.place n (.data (node.fileSize / 4096)) =
      v.dataBlock (inodeOfNode node) (node.fileSize / 4096) := by
    rw [View.place, hVinode, ← hV]
    rfl
  rw [hVinode] at hp hp'
  rw [hplace] at hb'
  have hview : ∀ w nd, w = v.released (lastFreed V n) → nd = lastDroppedInode (inodeOfNode node) →
      w.setInode n nd = lastDropped V n := by
    rintro w nd rfl rfl
    rw [lastDropped, hVinode, ← hV]
    simp only [View.setInode, View.released, Function.update_idem]
    rfl
  unfold deleteLastDataBlock
  rw [if_neg hsize]
  simp only [blockSize]
  refine vwp_bind (vwp_getBlockNumberFromNodeDataBlock (by omega) hp hp' ?_)
  refine vwp_bind (vwp_bitarrayCleanBit hb' ?_)
  rw [View.setUsed_false]
  by_cases hfirst : node.fileSize / 4096 % 1024 = 0
  · rw [if_pos hfirst]
    refine vwp_bind (vwp_pointerAt (by omega) ?_)
    refine vwp_bind (vwp_bitarrayCleanBit hp' ?_)
    rw [View.setUsed_false, View.released_released]
    refine vwp_bind (vwp_setPointer (by omega) (vwp_pure ?_))
    have hinode : inodeOfNode { node with
        fileSize := if node.fileSize / 4096 = 0 then 0 else (node.fileSize / 4096 - 1) * 4096
        indirectPointerBlock :=
          Function.update node.indirectPointerBlock (node.fileSize / 4096 / 1024) 0 } =
        lastDroppedInode (inodeOfNode node) := by
      simp only [lastDroppedInode, inodeOfNode, hfirst, if_true]
      rfl
    refine hQ _ _ hinode (hview _ _ ?_ hinode)
    congr 1
    ext b
    simp only [lastFreed, hVsize, hplace, hfirst, true_and]
    rw [show V.place n (.ptr (node.fileSize / 4096 / 1024)) =
      node.indirectPointerBlock (node.fileSize / 4096 / 1024) by rw [View.place, hVinode]; rfl]
    rfl
  · rw [if_neg hfirst]
    have hinode : inodeOfNode { node with
        fileSize := if node.fileSize / 4096 = 0 then 0 else (node.fileSize / 4096 - 1) * 4096 } =
        lastDroppedInode (inodeOfNode node) := by
      simp only [lastDroppedInode, inodeOfNode, hfirst, if_false]
      rfl
    refine vwp_pure (hQ _ _ hinode (hview _ _ ?_ hinode))
    congr 1
    ext b
    simp only [lastFreed, hVsize, hplace, hfirst, false_and, or_false]
    rfl

/-- INTERNAL: **shortening a file** only drops blocks of it. SRCLINE: sacio.c:536-552 -/
theorem vwp_acortarArchivo {Q : Node → View → Prop} (largo : ℕ) :
    ∀ (rounds : ℕ) (node : Node) (v : View), Core (v.setInode n (inodeOfNode node)) → v.live n →
      node.state = 1 → node.fileSize < rounds →
      (∀ node' w, Shrunk n (v.setInode n (inodeOfNode node)) (w.setInode n (inodeOfNode node')) →
        w.setInode n (inodeOfNode node') =
          shortened (v.setInode n (inodeOfNode node)) n largo → Q node' w) →
      vwp (acortarArchivo .ilp32 (largo : ℤ) rounds node) Q E v := by
  intro rounds
  -- each round leaves a smaller file
  induction rounds with
  | zero => exact fun node v _ _ _ hlt => absurd hlt (Nat.not_lt_zero _)
  | succ rounds ih =>
    intro node v h hn hstate hrounds hQ
    generalize hV : v.setInode n (inodeOfNode node) = V at h hQ
    have hVinode : V.inode n = inodeOfNode node := by rw [← hV, View.setInode_same]
    have hVn : V.live n := by rw [← hV]; exact hn
    have hVstate : (V.inode n).state = 1 := by rw [hVinode]; exact hstate
    have hVsize : (V.inode n).fileSize = node.fileSize := by rw [hVinode]; rfl
    have hsmall := fileSize_lt h hVn hVstate
    rw [hVsize] at hsmall
    have hi32 : i32 (node.fileSize : ℤ) = node.fileSize := i32_of_lt (by omega)
    -- what follows a round that has left the file smaller
    have hnext : ∀ node' w, Shrunk n V (w.setInode n (inodeOfNode node')) →
        shortened (w.setInode n (inodeOfNode node')) n largo = shortened V n largo →
        node'.fileSize < node.fileSize →
        vwp (acortarArchivo .ilp32 (largo : ℤ) rounds node') Q E w := by
      intro node' w hshrunk hsame hlt
      have hinode' := View.setInode_same (v := w) n (inodeOfNode node')
      have hstate' := hshrunk.state
      rw [hinode', hVinode] at hstate'
      refine ih node' w hshrunk.core ((hshrunk.live n).mpr hVn) (hstate'.trans hstate) (by omega)
        fun node'' w' hrest hleft => hQ node'' w' (hshrunk.trans hrest h) (hleft.trans hsame)
    unfold acortarArchivo
    rw [hi32]
    dsimp only
    by_cases hmore : (node.fileSize : ℤ) > largo ∧ (node.fileSize : ℤ) > 0
    · rw [if_pos hmore]
      have hsize : node.fileSize ≠ 0 := by omega
      by_cases hblock : (node.fileSize : ℤ) - largo ≥ (blockSize : ℕ) ∨ (largo : ℤ) = 0
      · rw [if_pos hblock]
        refine vwp_bind (vwp_deleteLastDataBlock (hV ▸ h) hn hstate hsize
          fun node' w hinode hw => ?_)
        apply hnext node' w
        · rw [hw, hV]
          exact shrunk_lastDropped h hVn hVstate (by rw [hVsize]; exact hsize)
        · simp only [blockSize] at hblock
          rw [hw, hV]
          exact shortened_lastDropped h hVn hVstate (by omega) (by omega)
        · have hfs : node'.fileSize =
              if node.fileSize / 4096 = 0 then 0 else (node.fileSize / 4096 - 1) * 4096 :=
            congrArg Inode.fileSize hinode
          split at hfs <;> omega
      · rw [if_neg hblock, if_pos (by omega)]
        have hu32 : u32 ((node.fileSize : ℤ) - (node.fileSize - largo)) = largo := by
          rw [sub_sub_cancel]
          exact u32_natCast_of_lt (by omega)
        rw [hu32]
        have hptr : (V.inode n).ptr 0 ≠ 0 := h.ptr_ne_zero hVn hVstate (hVsize ▸ hsize)
        have hview : v.setInode n (inodeOfNode { node with fileSize := largo }) =
            resized V n largo := by
          rw [resized, hVinode, ← hV, View.setInode_setInode]
          rfl
        simp only [blockSize] at hblock
        have hleft : resized V n largo = shortened V n largo :=
          resized_eq_shortened hVstate hptr (by omega) (by omega) (by omega)
        refine hnext _ v ?_ ?_ (show largo < node.fileSize by omega)
        · rw [hview]
          exact shrunk_resized h hVn hVstate hptr (by omega)
        · rw [hview, shortened_of_le (by rw [resized_inode]), hleft]
    · rw [if_neg hmore]
      refine vwp_pure (hQ node v ?_ ?_)
      · rw [hV]
        exact Shrunk.refl h n
      · rw [hV, shortened_of_le (by omega)]

/-- The bytes that a truncation to a longer file writes. SRCLINE: sacio.c:522-529 -/
def padding (count : ℕ) : List UInt8 := List.replicate count 65

/-- INTERNAL: **`sac_truncate`** drops blocks of the file, or goes on with `sac_write`, and
answers -1 when there is no file. SRCLINE: sacio.c:493-555 -/
theorem vwp_sacTruncate_of_write {Q : ℤ → View → Prop} {path : CString} {d : ℕ}
    {name : List UInt8} {lenght : ℤ} (h : Inv v none) (ht : Target v path d name)
    (hlenght : lenght < 2 ^ 31)
    (hnofile : (∀ n, v.tree.lookup d name = some n → (v.inode n).state ≠ 1) → Q (-1) v)
    (hwrite : ∀ n (count : ℕ), v.tree.lookup d name = some n → (v.inode n).state = 1 →
      ((v.inode n).fileSize + count : ℕ) = lenght → 0 < count →
      vwp (sacWrite .ilp32 n (padding count) ((v.inode n).fileSize : ℤ)) (fun _ w => Q 0 w) E v)
    (hshrunk : ∀ n w, v.tree.lookup d name = some n → (v.inode n).state = 1 →
      lenght ≤ (v.inode n).fileSize → Shrunk n v w → w = shortened v n lenght.toNat → Q 0 w) :
    vwp (sacTruncate .ilp32 path lenght) Q E v := by
  have hd := ht.live h
  unfold sacTruncate
  dsimp only
  rw [if_neg (by simp [ht.valid])]
  refine vwp_bind (vwp_searchPath_target h ht ?_ ?_)
  · rintro e n hlookup rfl hvalid -
    obtain ⟨hn, -, -⟩ := parentBlock_of_lookup h hd hlookup
    generalize e.nodeNum = n at hlookup hn ⊢
    rw [if_neg (by simp [hvalid])]
    refine vwp_bind (vwp_readNode hn.1 (h.node n hn).named fun file hfile => ?_)
    have hfile_state : file.state = (v.inode n).state := by rw [← hfile]; rfl
    have hself : v.setInode n (inodeOfNode file) = v := by rw [hfile, View.setInode_self]
    have hfs : file.fileSize = (v.inode n).fileSize := by rw [← hfile]; rfl
    dsimp only
    by_cases hstate : (v.inode n).state = 1
    · rw [if_neg (by rw [hfile_state, hstate]; decide)]
      have hsmall := fileSize_lt h.toCore hn hstate
      obtain ⟨largo, hlargo⟩ : ∃ k : ℕ, (if lenght < 0 then 0 else lenght) = (k : ℤ) :=
        ⟨(if lenght < 0 then 0 else lenght).toNat, by split <;> omega⟩
      have hlargo_lt : largo < 2 ^ 31 := by split at hlargo <;> omega
      rw [hlargo, i32_of_lt hlargo_lt, i32_of_lt (n := file.fileSize) (by omega)]
      by_cases hgrow : (largo : ℤ) > file.fileSize
      · rw [if_pos hgrow]
        have hlenght' : lenght = largo := by split at hlargo <;> omega
        refine vwp_bind (vwp_sacOpen h ht (fun hnone => by rw [hlookup] at hnone; cases hnone)
          (fun m hm hlookup' => ?_)
          (fun hnone => by rw [hlookup] at hnone; cases hnone)
          fun hnone => by rw [hlookup] at hnone; cases hnone)
        rw [hlookup] at hlookup'
        cases hlookup'
        rw [u32_natCast_of_lt (n := n) (by omega), hfs]
        have hcount : ((largo : ℤ) - (v.inode n).fileSize).toNat = largo - (v.inode n).fileSize := by
          omega
        rw [hcount]
        change vwp (sacWrite .ilp32 n (padding (largo - (v.inode n).fileSize)) _ >>= _) Q E v
        refine vwp_bind (vwp_mono (hwrite n _ hlookup hstate ?_ ?_)
          (fun _ w hw => vwp_pure hw) fun _ _ he => he)
        · omega
        · omega
      · rw [if_neg hgrow]
        have hcore : Core (v.setInode n (inodeOfNode file)) := by
          rw [hself]
          exact h.toCore
        have hrounds : file.fileSize < file.fileSize + 1 := Nat.lt_succ_self _
        generalize file.fileSize + 1 = rounds at hrounds ⊢
        refine vwp_bind (vwp_acortarArchivo largo rounds file v hcore hn
          (hfile_state.trans hstate) hrounds fun file' w hw hleft => ?_)
        rw [hself] at hw hleft
        have htoNat : lenght.toNat = largo := by split at hlargo <;> omega
        have hfits := (hw.core.node n ((hw.live n).mpr hn)).fits
        rw [View.setInode_same] at hfits
        refine vwp_bind (vwp_unmapAndDestroyNode hn.1 hfits (vwp_pure ?_))
        exact hshrunk n _ hlookup hstate (by split at hlargo <;> omega) hw (by rw [htoNat, hleft])
    · rw [if_pos (by rw [hfile_state]; exact hstate)]
      refine vwp_bind (vwp_unmapAndDestroyNode hn.1 (hfile ▸ (h.node n hn).fits) (vwp_pure ?_))
      rw [hself]
      apply hnofile
      intro m hm
      rw [hlookup] at hm
      cases hm
      exact hstate
  · intro e hnone hinvalid _
    rw [if_pos (by simp [hinvalid])]
    refine vwp_pure (hnofile fun n hn => ?_)
    rw [hnone] at hn
    cases hn

/-- INTERNAL: `sac_truncate` of a file without stray pointers, or inside its last block.
SRCLINE: sacio.c:493-555 -/
theorem vwp_sacTruncate {Q : ℤ → View → Prop} {path : CString} {d : ℕ} {name : List UInt8}
    {lenght : ℤ} (h : Inv v none) (ht : Target v path d name) (hlenght : lenght < 2 ^ 31)
    (hnofile : (∀ n, v.tree.lookup d name = some n → (v.inode n).state ≠ 1) → Q (-1) v)
    (hstray : ∀ n, v.tree.lookup d name = some n → (v.inode n).state = 1 →
      (v.inode n).fileSize < lenght → NoStray (v.inode n) ∨
        (v.inode n).fileSize % 4096 + (lenght - (v.inode n).fileSize) < 4096)
    (hgrown : ∀ n w (count : ℕ), v.tree.lookup d name = some n → (v.inode n).state = 1 →
      ((v.inode n).fileSize + count : ℕ) = lenght → 0 < count →
      Written v w n (v.inode n).fileSize ((v.inode n).fileSize + count)
        (writtenByte (padding count) (v.inode n).fileSize) → Q 0 w)
    (hshrunk : ∀ n w, v.tree.lookup d name = some n → (v.inode n).state = 1 →
      lenght ≤ (v.inode n).fileSize → Shrunk n v w → w = shortened v n lenght.toNat → Q 0 w)
    (hE : ∀ n e w, v.tree.lookup d name = some n → (v.inode n).fileSize < lenght → e.IsAlloc →
      E e w) :
    vwp (sacTruncate .ilp32 path lenght) Q E v := by
  refine vwp_sacTruncate_of_write h ht hlenght hnofile ?_ hshrunk
  intro n count hlookup hstate hcount hpos
  have hn := (parentBlock_of_lookup h (ht.live h) hlookup).1
  have hlen : (padding count).length = count := List.length_replicate
  refine vwp_sacWrite_noStray h hn hstate (Or.inl le_rfl) ?_ (fun w hw => ?_)
    fun e w he _ => hE n e w hlookup (by omega) he
  · rw [hlen]
    apply (hstray n hlookup hstate (by omega)).imp_right
    intro hlt
    omega
  · rw [min_self, hlen] at hw
    exact hgrown n w count hlookup hstate hcount hpos hw

end Loop

end LinuseFs.Analysis
