import LinuseFs.Model.Format
import LinuseFs.Interface.WellFormed

/-!
# A formatted disk

The bitmap fits one block, so both copy loops stay in it: what `load_bitmap` reads is what
`format_disk`, or `unmap_bitmap`, wrote.  A formatted disk has the root directory and nothing
else (`Fresh`), whatever the other blocks hold, and satisfies the invariant.
-/

set_option autoImplicit false

namespace LinuseFs.Analysis

open LinuseFs.Computation LinuseFs.Model LinuseFs.Interface

/-! ## The copy loops -/

section Copy

variable {s : SacState} {E : Fault → SacState → Prop} {b : ℕ}

/-- INTERNAL: the condition that should move on to the next block of the bitmap never holds.
SRCLINE: utils.c:132, utils.c:141 -/
theorem nextBitmapBlock_eq (i blockNum : ℕ) : nextBitmapBlock i blockNum = blockNum := by
  unfold nextBitmapBlock
  rw [if_neg]
  simp only [blockSize]
  omega

/-- INTERNAL: **storing a bitmap** that fits the block; the induction is on the bytes that are
left. SRCLINE: utils.c:128-134 -/
theorem bitmapToBlockFrom_wp {Q : Unit → SacState → Prop} {bitarray : Bytes} (hb : b < 3000)
    (n i : ℕ) (hn : i + n ≤ 4096) (s : SacState)
    (h : ∀ s', s'.disk b = (fun j => if i ≤ j ∧ j < i + n then bitarray j else s.disk b j) →
      (∀ c, c ≠ b → s'.disk c = s.disk c) → s'.bitmap = s.bitmap → Q () s') :
    wp (bitmapToBlockFrom bitarray [b] n i 0) Q E s := by
  induction n generalizing i s with
  | zero =>
    refine h s ?_ (fun _ _ => rfl) rfl
    funext j
    rw [if_neg (by omega)]
  | succ n ih =>
    simp only [bitmapToBlockFrom, List.getElem?_cons_zero, nextBitmapBlock_eq, wp_bind]
    refine store_wp hb (by omega) (ih (i + 1) (by omega) _ fun s' hsame hother hbitmap => ?_)
    refine h s' ?_ (fun c hc => ?_) hbitmap
    · rw [hsame, setBlock_same]
      funext j
      by_cases hj : j = i
      · subst hj
        rw [if_neg (by omega), if_pos (by omega), memcpy, if_pos (by omega)]
      · by_cases hin : i + 1 ≤ j ∧ j < i + 1 + n
        · rw [if_pos hin, if_pos (by omega)]
        · rw [if_neg hin, if_neg (by omega), memcpy_outside (by omega)]
    · rw [hother c hc, setBlock_ne _ _ hc]

/-- INTERNAL: **reading a bitmap** that fits the block. SRCLINE: utils.c:136-144 -/
theorem blockToBitmapFrom_wp {Q : Bytes → SacState → Prop} (hb : b < 3000) (n i : ℕ)
    (hn : i + n ≤ 4096) (bitarray : Bytes)
    (h : Q (fun j => if i ≤ j ∧ j < i + n then s.disk b j else bitarray j) s) :
    wp (blockToBitmapFrom [b] n i 0 bitarray) Q E s := by
  induction n generalizing i bitarray with
  | zero =>
    have hsame : (fun j => if i ≤ j ∧ j < i + 0 then s.disk b j else bitarray j) = bitarray := by
      funext j
      rw [if_neg (by omega)]
    rw [hsame] at h
    exact h
  | succ n ih =>
    simp only [blockToBitmapFrom, List.getElem?_cons_zero, nextBitmapBlock_eq, wp_bind]
    refine load_wp hb (by omega) (ih (i + 1) (by omega) _ ?_)
    have hsame : (fun j => if i + 1 ≤ j ∧ j < i + 1 + n then s.disk b j
        else Function.update bitarray i (s.disk b (i + 0)) j) =
        fun j => if i ≤ j ∧ j < i + (n + 1) then s.disk b j else bitarray j := by
      funext j
      by_cases hj : j = i
      · subst hj
        rw [if_neg (by omega), if_pos (by omega), Function.update_self, Nat.add_zero]
      · rw [Function.update_of_ne hj]
        by_cases hin : i + 1 ≤ j ∧ j < i + 1 + n
        · rw [if_pos hin, if_pos (by omega)]
        · rw [if_neg hin, if_neg (by omega)]
    rw [hsame]
    exact h

/-- INTERNAL: a bit of a bitmap depends on its byte. -/
theorem testBit_congr {a a' : Bytes} {i : ℕ} (h : a (i / 8) = a' (i / 8)) :
    testBit a i = testBit a' i := by
  simp only [testBit, h]

theorem readBlocks_bitmap : readBlocks bitmapInitialBlock bitmapBlocks = [1] := rfl

/-- INTERNAL: **the bitmap is stored** in its block, and no other block changes. SRCLINE:
utils.c:128-134 -/
theorem bitmapToBlock_wp {Q : Unit → SacState → Prop} (bitarray : Bytes)
    (h : ∀ s', (∀ c < 3000, testBit (s'.disk 1) c = testBit bitarray c) →
      (∀ c, c ≠ 1 → s'.disk c = s.disk c) → s'.bitmap = s.bitmap → Q () s') :
    wp (bitmapToBlock bitarray bitmapSize (readBlocks bitmapInitialBlock bitmapBlocks)) Q E s := by
  rw [readBlocks_bitmap, bitmapToBlock]
  have hsize : 375 ≤ bitmapSize ∧ bitmapSize ≤ 4096 := by decide
  generalize bitmapSize = size at hsize ⊢
  refine bitmapToBlockFrom_wp (by decide) size 0 (by omega) s
    fun s' hsame hother hbitmap => h s' (fun c hc => ?_) hother hbitmap
  apply testBit_congr
  rw [hsame]
  dsimp only
  rw [if_pos ⟨Nat.zero_le _, by omega⟩]

/-- INTERNAL: **`load_bitmap`** takes the used bits from the disk. SRCLINE: sac.c:113-118 -/
theorem loadBitmap_wp {Q : Unit → SacState → Prop}
    (h : ∀ s', s'.disk = s.disk → (∀ c < 3000, s'.used c = testBit (s.disk 1) c) → Q () s') :
    wp loadBitmap Q E s := by
  simp only [loadBitmap, wp_bind, readBlocks_bitmap, blockToBitmap]
  have hsize : 375 ≤ bitmapSize ∧ bitmapSize ≤ 4096 := by decide
  generalize bitmapSize = size at hsize ⊢
  apply malloc_wp
  intro bytes e'
  refine blockToBitmapFrom_wp (by decide) size 0 (by omega) bytes (h _ rfl fun c hc => ?_)
  apply testBit_congr
  dsimp only
  rw [if_pos ⟨Nat.zero_le _, by omega⟩]

end Copy

/-! ## format_disk -/

section Formatting

variable {s : SacState} {E : Fault → SacState → Prop}

/-- INTERNAL: the used bits of a new disk. SRCLINE: utils.c:65-77 -/
theorem createDefaultBitmap_wp {Q : Unit → SacState → Prop}
    (h : ∀ s', s'.disk = s.disk → (∀ c, s'.used c = decide (c ≤ 2)) → Q () s') :
    wp createDefaultBitmap Q E s := by
  simp only [createDefaultBitmap, bitmapBlocks_eq, marcarBitmap, wp_bind, wp_modify, wp_pure]
  refine bitarraySetBit_wp (by decide) (bitarraySetBit_wp (by decide)
    (bitarraySetBit_wp (by decide) (h _ rfl fun c => ?_)))
  have hzero : testBit (fun _ => 0) c = false := by simp [testBit]
  rw [take_used, take_used, take_used, SacState.used, hzero, Bool.or_false, Bool.eq_iff_iff]
  simp only [Bool.or_eq_true, decide_eq_true_eq]
  omega

/-- INTERNAL: the root directory of a new disk. SRCLINE: utils.c:58-63 -/
theorem createRootDir_wp {Q : Node → SacState → Prop}
    (h : ∀ node e' date, date < 2 ^ 64 → inodeOfNode node =
      ⟨2, some [47], 0, 0, date, date, fun _ => 0⟩ → Q node { s with env := e' }) :
    wp createRootDir Q E s := by
  simp only [createRootDir, wp_bind]
  apply time_wp
  intro date e' hdate
  simp only [createNode, wp_bind]
  apply malloc_wp
  intro fresh e''
  rw [if_pos (by decide)]
  apply h _ e'' date hdate
  simp only [inodeOfNode, Inode.mk.injEq, and_self, and_true, true_and]
  exact cstr_memcpy_ofList fresh 0 71 2 (l := [47]) (by decide) (by decide) (by decide)

/-- INTERNAL: the header goes to the first block. SRCLINE: utils.c:101-110 -/
theorem headerToBlock_wp {Q : Unit → SacState → Prop} {header : Header}
    (h : ∀ s', (∀ c, c ≠ 0 → s'.disk c = s.disk c) → s'.bitmap = s.bitmap → Q () s') :
    wp (headerToBlock header 0) Q E s := by
  simp only [headerToBlock, wp_bind]
  refine store_wp (by decide) (by decide) (store_wp (by decide) (by decide)
    (store_wp (by decide) (by decide) (store_wp (by decide) (by decide) (h _ (fun c hc => ?_) rfl))))
  rw [setBlock_ne _ _ hc, setBlock_ne _ _ hc, setBlock_ne _ _ hc, setBlock_ne _ _ hc]

/-- The node of the root directory of a new disk. -/
def rootInode (date : ℕ) : Inode := ⟨2, some [47], 0, 0, date, date, fun _ => 0⟩

theorem rootInode_fits {date : ℕ} (h : date < 2 ^ 64) : (rootInode date).Fits where
  parentBlock := by simp [rootInode]
  fileSize := by simp [rootInode]
  creationDate := h
  modificationDate := h
  ptr _ := by simp [rootInode]
  ptr_past _ _ := rfl

/-- INTERNAL: **a formatted disk** has a root directory and a bitmap with three used blocks.
SRCLINE: disk.c:12-42 -/
theorem formatDisk_wp (s : SacState) :
    wp formatDisk (fun _ s' => (∃ date < 2 ^ 64, (viewOf s').inode 0 = rootInode date) ∧
      ∀ c < 3000, testBit (s'.disk 1) c = decide (c ≤ 2)) (fun _ _ => False) s := by
  simp only [formatDisk, wp_bind]
  apply createDefaultBitmap_wp
  intro s₁ _ hused
  apply createRootDir_wp
  intro node e' date hdate hnode
  rw [show readBlock 0 = 0 from rfl]
  apply headerToBlock_wp
  intro s₂ _ hbitmap₂
  rw [wp_get]
  refine bitmapToBlock_wp s₂.bitmap fun s₃ hbits _ _ => ?_
  have hfits : (inodeOfNode node).Fits := by
    rw [hnode]
    exact rootInode_fits hdate
  have hbits₃ : ∀ c < 3000, testBit ((viewOf s₃).metadata 1) c = decide (c ≤ 2) := by
    intro c hc
    rw [show (viewOf s₃).metadata 1 = s₃.disk 1 from rfl, hbits c hc, hbitmap₂]
    exact hused c
  refine wp_mono (vwp_nodeToBlock (n := 0) (Q := fun _ w => w.inode 0 = rootInode date ∧
    w.metadata = (viewOf s₃).metadata) (E := fun _ _ => False) (by decide) hfits ?_ s₃ rfl)
    (fun _ s' h => ⟨⟨date, hdate, h.1⟩, fun c hc => ?_⟩) fun _ _ hf => hf
  · refine ⟨?_, rfl⟩
    rw [View.setInode_same, hnode]
    rfl
  · rw [← hbits₃ c hc, ← h.2]
    rfl

end Formatting

/-! ## The state in which a server starts -/

/-- Only the root directory exists, and it is empty. -/
structure Fresh (v : View) : Prop where
  used : ∀ b < 3000, v.used b = decide (b ≤ 2)
  root : ∃ date < 2 ^ 64, v.inode 0 = rootInode date

section Fresh

variable {v : View} {s : SacState}

/-- INTERNAL: a server that starts on a formatted disk finds the root directory. SRCLINE:
sac.c:113-118, disk.c:12-42 -/
theorem fresh_of_formatted (h : Formatted s) : Fresh (viewOf s) := by
  obtain ⟨s₀, s₁, bitmap, env, hformat, hload⟩ := h
  obtain ⟨hroot, hbits⟩ := wp_of_ok (formatDisk_wp s₀) hformat
  have hload_wp : wp loadBitmap
      (fun _ s' => s'.disk = s₁.disk ∧ ∀ c < 3000, s'.used c = testBit (s₁.disk 1) c)
      (fun _ _ => True) (s₁.restarted bitmap env) :=
    loadBitmap_wp fun s' hdisk hused => ⟨hdisk, hused⟩
  have hloaded := wp_of_ok hload_wp hload
  refine ⟨fun b hb => ?_, ?_⟩
  · rw [← hbits b hb, ← hloaded.2 b hb]
    rfl
  · obtain ⟨date, hdate, hinode⟩ := hroot
    refine ⟨date, hdate, ?_⟩
    rw [← hinode]
    simp only [viewOf, hloaded.1]

theorem Fresh.live (h : Fresh v) {n : ℕ} : v.live n ↔ n = 0 := by
  unfold View.live
  constructor
  · rintro ⟨hn, hused⟩
    rw [h.used _ (by omega), decide_eq_true_eq] at hused
    omega
  · rintro rfl
    exact ⟨by decide, by rw [h.used _ (by decide)]; decide⟩

theorem Fresh.entries (h : Fresh v) (n : ℕ) : v.tree.entries n = [] := by
  obtain ⟨date, -, hroot⟩ := h.root
  simp only [View.tree]
  split
  next hn =>
    obtain rfl := h.live.mp hn.1
    rw [hroot]
    simp [View.records, rootInode]
  next => rfl

/-- INTERNAL: **a new disk satisfies the invariant**, with distinct names and every node below the
root. -/
theorem Fresh.inv (h : Fresh v) :
    Inv v none ∧ v.tree.DistinctNames ∧ v.tree.Rooted 0 := by
  obtain ⟨date, hdate, hroot⟩ := h.root
  have htargets : ∀ n, v.tree.targets n = [] := by
    intro n
    rw [Namespace.targets, h.entries n, List.map_nil]
  have hnone : ∀ n r, ¬ v.held n r := by
    rintro n r ⟨hn, hr⟩
    obtain rfl := h.live.mp hn
    rw [hroot] at hr
    cases r with
    | ptr i => exact hr rfl
    | data k => exact absurd hr (Nat.not_lt_zero k)
  refine ⟨⟨⟨fun b hb => ?_, by rw [hroot]; rfl, fun n hn => ?_, fun n hn hn0 => ?_, ?_⟩, ?_⟩,
    fun n _ => ?_, fun n hn => ?_⟩
  · rw [h.used b (by omega), decide_eq_true_eq]
    exact hb
  · obtain rfl := h.live.mp hn
    rw [hroot]
    refine ⟨rootInode_fits hdate, Or.inr rfl, rfl, fun _ => ?_, fun e => ?_⟩
    · exact ⟨rfl, Nat.zero_le _, ⟨fun _ => rfl, fun _ => rfl⟩, fun _ _ => rfl,
        fun k hk => absurd hk (by simp [rootInode])⟩
    · cases e
  · exact absurd (h.live.mp hn) hn0
  · exact ⟨fun n r hr => absurd hr (hnone n r), fun n r _ _ hr => absurd hr (hnone n r)⟩
  · refine ⟨h.live.mpr rfl, ?_, ?_, ?_, ?_, ?_, ?_⟩
    · intro d _ n hn
      rw [htargets] at hn
      cases hn
    · intro d _ n hn
      rw [htargets] at hn
      cases hn
    · intro d _ n hn
      rw [htargets] at hn
      cases hn
    · intro d _ n hn
      rw [htargets] at hn
      cases hn
    · intro d _
      rw [htargets]
      exact List.nodup_nil
    · exact fun n hn hn0 => absurd (h.live.mp hn) hn0
  · rw [h.entries n]
    exact List.nodup_nil
  · obtain rfl := h.live.mp hn
    exact Relation.ReflTransGen.refl

/-- The state in which a function leaves the server. -/
def stateAfter {α : Type} (x : Sac α) (s : SacState) : SacState :=
  match x s with
  | .ok _ s' => s'
  | .error _ s' => s'

/-- A process with zeros in its memory. -/
def zeroEnv : Env := ⟨fun _ _ => 0, fun _ => 0, 0⟩

/-- The state of a server on a new disk that held zeros. -/
def newDisk : SacState :=
  stateAfter loadBitmap
    ((stateAfter formatDisk ⟨fun _ _ => 0, fun _ => 0, zeroEnv⟩).restarted (fun _ => 0) zeroEnv)

theorem stateAfter_eq {α : Type} {x : Sac α} {a : α} {s' : SacState} (h : x s = .ok a s') :
    stateAfter x s = s' := by
  unfold stateAfter
  rw [h]

/-- INTERNAL: every disk can be formatted and started on. -/
theorem formatted_newDisk : Formatted newDisk := by
  obtain ⟨⟨⟩, s₁, hformat, -⟩ :=
    exists_ok_of_wp (formatDisk_wp ⟨fun _ _ => 0, fun _ => 0, zeroEnv⟩) fun _ _ hf => hf
  have hload_wp : wp loadBitmap (fun _ _ => True) (fun _ _ => False)
      (s₁.restarted (fun _ => 0) zeroEnv) := loadBitmap_wp fun _ _ _ => trivial
  obtain ⟨⟨⟩, s₂, hload, -⟩ := exists_ok_of_wp hload_wp fun _ _ hf => hf
  refine ⟨⟨fun _ _ => 0, fun _ => 0, zeroEnv⟩, s₁, fun _ => 0, zeroEnv, hformat, ?_⟩
  rw [newDisk, stateAfter_eq hformat, stateAfter_eq hload]
  exact hload

end Fresh

end LinuseFs.Analysis
