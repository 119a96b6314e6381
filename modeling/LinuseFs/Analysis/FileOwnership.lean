import LinuseFs.Analysis.RenameEffect
import LinuseFs.Analysis.GapEffect

/-!
# Writes and truncations of new files

In runs of `sac_write` calls that begin in the file and of `sac_truncate` calls that do not
lengthen it, each block of a file stays its own, as long as no write fills a block of a file
with a pointer block behind the one that its next block needs.  Such a file comes from a cut by
less than a block at the beginning of a pointer block; a write that fills a block of it then
puts the new block where the readers do not look, and they find a block that was released.
-/

set_option autoImplicit false

namespace LinuseFs.Analysis

open LinuseFs.Computation LinuseFs.Model LinuseFs.Interface

/-- A call that changes the blocks of a file. -/
inductive Change
  | write (fd : ℕ) (buffer : List UInt8) (offset : ℤ)
  | truncate (path : CString) (lenght : ℤ)

/-- What the server runs for it. -/
def Change.perform : Change → Sac ℤ
  | .write fd buffer offset => do
    let count ← sacWrite .ilp32 fd buffer offset
    return count
  | .truncate path lenght => sacTruncate .ilp32 path lenght

/-- The call is for a file, begins in it and does not lengthen it by a truncation.  With pointers
of four bytes an `off_t` has 32 bits. -/
def Change.Within (s : SacState) : Change → Prop
  | .write fd _ offset => (viewOf s).live fd ∧ ((viewOf s).inode fd).state = 1 ∧
      -2 ^ 31 ≤ offset ∧ offset ≤ ((viewOf s).inode fd).fileSize
  | .truncate path lenght => (isValidPath path.val = true ∧ path.val ≠ [slash]) ∧
      ∃ n, leadsTo s (stringSplit path.val) = some n ∧ ((viewOf s).inode n).state = 1 ∧
        lenght ≤ ((viewOf s).inode n).fileSize

/-- A write that fills a block goes to a file without stray pointers. -/
def Change.Aligned (s : SacState) : Change → Prop
  | .write fd buffer offset =>
    NoStray ((viewOf s).inode fd) ∨ offset % 4096 + buffer.length < 4096
  | .truncate _ _ => True

/-- One call, from a state in which it is allowed, returns. -/
def ChangeStep (allowed : SacState → Change → Prop) (s : SacState) (c : Change) (s' : SacState) :
    Prop :=
  allowed s c ∧ ∃ r, c.perform s = .ok r s'

/-- The operation creates a file or a directory. -/
def Operation.Creates : Operation → Prop
  | .mkdir _ => True
  | .open _ => True
  | _ => False

/-- The files of the disk were just created. -/
def NewFiles (s : SacState) : Prop :=
  ∃ s₀ ops, Formatted s₀ ∧ Run (Step fun v op => Promised v op ∧ op.Creates) s₀ ops s

/-- The block number that the readers resolve for block `k` of the file `n`. -/
def resolveBlock (n k : ℕ) : Sac ℕ := do
  let file ← readNode n
  getDataBlockFromNode .ilp32 file.1 k

/-- The file `n` has a first pointer, and its size reaches the block `k`. -/
structure HasBlock (s : SacState) (n k : ℕ) : Prop where
  live : (viewOf s).live n
  state : ((viewOf s).inode n).state = 1
  ptr : ((viewOf s).inode n).ptr 0 ≠ 0
  le : k ≤ ((viewOf s).inode n).fileSize / 4096

/-- Each block of a file resolves to a block of the data region that is marked used, and no two
to the same. -/
structure OwnBlocks (s : SacState) : Prop where
  resolved : ∀ n k, HasBlock s n k →
    ∃ b s', resolveBlock n k s = .ok b s' ∧ 34 ≤ b ∧ b < 3000 ∧ s.used b = true
  alone : ∀ n k m l b s' s'', HasBlock s n k → HasBlock s m l → resolveBlock n k s = .ok b s' →
    resolveBlock m l s = .ok b s'' → n = m ∧ k = l

/-! ## What the readers resolve -/

section Resolve

variable {s : SacState} {n k : ℕ}

/-- INTERNAL: the readers find the block that the slot of its pointer block names. SRCLINE:
node.c:128-144 -/
theorem exists_resolveBlock (hn : n < 32) (hname : ((viewOf s).inode n).name.isSome)
    (hk : k / 1024 < 1000) (hptr : 34 ≤ ((viewOf s).inode n).ptr (k / 1024))
    (hptr' : ((viewOf s).inode n).ptr (k / 1024) < 3000)
    (hdata : (viewOf s).place n (.data k) < 3000) :
    ∃ s', resolveBlock n k s = .ok ((viewOf s).place n (.data k)) s' := by
  have hwp : vwp (resolveBlock n k) (fun b _ => b = (viewOf s).place n (.data k))
      (fun _ _ => False) (viewOf s) := by
    refine vwp_bind (vwp_readNode hn hname fun node hnode => ?_)
    rw [← hnode] at hptr hptr'
    have hplace : (viewOf s).place n (.data k) = (viewOf s).dataBlock (inodeOfNode node) k := by
      rw [hnode]
      rfl
    rw [hplace] at hdata ⊢
    exact vwp_getDataBlockFromNode (Or.inl rfl) hk hptr hptr' hdata rfl
  obtain ⟨b, s', hok, rfl⟩ := exists_ok_of_wp (hwp s rfl) fun _ _ hf => hf
  exact ⟨s', hok⟩

theorem HasBlock.held (h : HasBlock s n k) : (viewOf s).held n (.data k) := by
  refine ⟨h.live, ?_⟩
  have hle := h.le
  rw [Inode.refers, blocks_file h.state h.ptr]
  omega

/-- INTERNAL: **the blocks of a well-formed disk are each file's own.** -/
theorem ownBlocks_of_core (h : Core (viewOf s)) : OwnBlocks s := by
  have hresolve : ∀ n k, HasBlock s n k →
      ∃ s', resolveBlock n k s = .ok ((viewOf s).place n (.data k)) s' := by
    intro n k hb
    have hle := h.blocks_le hb.live
    have hptr := h.inData_ptr hb.live ((h.node n hb.live).refers_ptr hb.held.2)
    have hin := h.inData hb.held
    rw [blocks_file hb.state hb.ptr] at hle
    have := hb.le
    exact exists_resolveBlock hb.live.1 (h.node n hb.live).named (by omega) hptr.1 hptr.2.1 hin.2.1
  refine ⟨fun n k hb => ?_, fun n k m l b s' s'' hb hb' hok hok' => ?_⟩
  · obtain ⟨s', hok⟩ := hresolve n k hb
    exact ⟨_, s', hok, h.inData hb.held⟩
  · obtain ⟨u, hu⟩ := hresolve n k hb
    obtain ⟨u', hu'⟩ := hresolve m l hb'
    rw [hu] at hok
    rw [hu'] at hok'
    have hplace := (EStateM.Result.ok.inj hok).1.trans (EStateM.Result.ok.inj hok').1.symm
    obtain ⟨hnm, hkl⟩ := h.own.inj n _ m _ hb.held hb'.held hplace
    exact ⟨hnm, Ref.data.inj hkl⟩

end Resolve

/-! ## Runs -/

section Runs

variable {s t : SacState} {n : ℕ} {buffer : List UInt8} {offset : ℤ}

/-- INTERNAL: **a write at a negative offset never returns**: the fill loop asks `malloc` for a
negative amount. SRCLINE: sacio.c:181-190 -/
theorem vwp_sacWrite_negative {v : View} (h : Core v) (hn : v.live n)
    (hstate : (v.inode n).state = 1) (hneg : offset < 0) (hmin : -2 ^ 31 ≤ offset) :
    vwp (sacWrite .ilp32 n buffer offset) (fun _ _ => False) (fun _ _ => True) v := by
  have hsize := fileSize_lt h hn hstate
  have hi32 : i32 offset = offset := by
    unfold i32
    rw [Int.bmod_eq_of_le] <;> omega
  have hu32 : 2 ^ 31 ≤ u32 offset := by
    unfold u32
    omega
  unfold sacWrite
  refine vwp_bind (vwp_readNode hn.1 (h.node n hn).named fun file hfile => ?_)
  have hself : v.setInode n (inodeOfNode file) = v := by rw [hfile, View.setInode_self]
  rw [← hfile] at hsize hstate
  have hfs : file.fileSize < 2966 * 4096 := hsize
  dsimp only
  refine vwp_primerBloque (n := n) (a := file.fileSize)
    (by rw [hself]; exact ownFile_of_core h hn (hfile ▸ hstate)) le_rfl (fun _ => 0)
    (fun node w _ _ _ hwritten => ?_) fun _ _ _ _ _ => trivial
  have hsame := hwritten.size
  rw [View.setInode_same, View.setInode_same] at hsame
  have hfs' : node.fileSize = max file.fileSize file.fileSize := hsame
  rw [max_self] at hfs'
  rw [hi32]
  apply vwp_bind (Q := fun _ _ => False)
  unfold completarOffset
  rw [if_pos (by omega)]
  dsimp only
  rw [if_pos (by simp only [getNextWritePosition, blockSize]; omega)]
  exact vwp_throw trivial

/-- INTERNAL: **the step lemma**: a call that is aligned keeps the invariant. -/
theorem vwp_change (c : Change) (h : Inv (viewOf s) none) (hwithin : c.Within s)
    (haligned : c.Aligned s) :
    vwp c.perform (fun _ w => Inv w none) (fun _ _ => True) (viewOf s) := by
  cases c with
  | write fd buffer offset =>
    obtain ⟨hn, hstate, hmin, hoffset⟩ := hwithin
    have hdir : ((viewOf s).inode fd).state ≠ 2 := by
      rw [hstate]
      decide
    apply vwp_bind
    by_cases hneg : offset < 0
    · exact vwp_mono (vwp_sacWrite_negative h.toCore hn hstate hneg hmin)
        (fun _ _ hf => hf.elim) fun _ _ _ => trivial
    · obtain ⟨k, rfl⟩ := Int.eq_ofNat_of_zero_le (Int.not_lt.mp hneg)
      have hstray : NoStray ((viewOf s).inode fd) ∨ k % 4096 + buffer.length < 4096 :=
        Or.imp_right (fun hlt => by omega) haligned
      exact vwp_sacWrite_noStray h hn hstate (Or.inl (by omega)) hstray
        (fun w hw => vwp_pure (hw.grown.inv h hdir)) fun _ _ _ _ => trivial
  | truncate path lenght =>
    obtain ⟨hpath, n, hfound, hstate, hle⟩ := hwithin
    obtain ⟨d, ht, hlookup⟩ := exists_target_of_found hpath hfound
    have hn := (parentBlock_of_lookup h (ht.live h) hlookup).1
    have hsmall := fileSize_lt h.toCore hn hstate
    have hthis : ∀ m, (viewOf s).tree.lookup d ((stringSplit path.val).getLastD []) = some m →
        m = n := by
      intro m hm
      rw [hlookup] at hm
      exact (Option.some.inj hm).symm
    refine vwp_sacTruncate h ht (by omega) (fun _ => h) ?_ ?_ ?_ fun _ _ _ _ _ _ => trivial
    · intro m hm _ hgrow
      rw [hthis m hm] at hgrow
      omega
    · intro m w count hm _ hcount hpos _
      rw [hthis m hm] at hcount
      omega
    · intro m w hm hmstate _ hshrunk _
      exact hshrunk.inv h (by rw [hmstate]; decide)

/-- INTERNAL: new files are well formed. -/
theorem NewFiles.inv (h : NewFiles s) : Inv (viewOf s) none := by
  obtain ⟨s₀, ops, hformatted, hrun⟩ := h
  refine inv_of_run ?_ (fresh_of_formatted hformatted).inv.1 hrun
  rintro v op ⟨hp, hcreates⟩
  refine ⟨hp, ?_⟩
  cases op with
  | write => exact hcreates.elim
  | _ => trivial

/-- **Writes and truncations keep every block of a file its own**, in every run whose writes fill
blocks of files without stray pointers only. SRCLINE: node.c:85-144, node.c:189-222 -/
theorem blocks_stay_own {cs : List Change} (hs : NewFiles s)
    (hrun : Run (ChangeStep fun s c => c.Within s ∧ c.Aligned s) s cs t) : OwnBlocks t := by
  have hinv : Inv (viewOf t) none := by
    apply hrun.invariant (I := fun s => Inv (viewOf s) none) hs.inv
    rintro s c s' h ⟨⟨hwithin, haligned⟩, r, hok⟩
    exact wp_of_ok (Q := fun _ s' => Inv (viewOf s') none)
      (vwp_change c h hwithin haligned s rfl) hok
  exact ownBlocks_of_core hinv.toCore

/-- The statement for a new file `/a` that gets one byte. -/
theorem blocks_stay_own_one_byte : ∃ (s t : SacState) (n : ℕ), NewFiles s ∧
    HasBlock t n 0 ∧ OwnBlocks t := by
  have hfresh := fresh_of_formatted formatted_newDisk
  obtain ⟨n, s, hopen, hnode, hplain, hspare⟩ := exists_newNode aPath hfresh.plain rfl
    (by decide) (by decide) (by decide) (hfresh.leadsTo_eq_none (by decide)) hfresh.spare
  have hnew : NewFiles s := ⟨newDisk, [.open aPath], formatted_newDisk,
    Run.single ⟨⟨aPath_addressed hfresh.inv.1.toCore, trivial⟩, _, hopen⟩⟩
  have hstray : NoStray ((viewOf s).inode n) := fun i _ => hnode.empty.2 i
  obtain ⟨t, hok, hw⟩ := exists_write [7] hplain.toInv hnode.live hnode.state_eq (Nat.zero_le _)
    hstray (by decide) hspare
  have hwithin : (Change.write n [7] (0 : ℕ)).Within s :=
    ⟨hnode.live, hnode.state_eq, by decide, Int.natCast_nonneg _⟩
  have hlive := (hw.grown.live n).mpr hnode.live
  have hstate := hw.grown.state.trans hnode.state_eq
  have hsize : ((viewOf t).inode n).fileSize = 1 := by
    rw [hw.size, hnode.empty.1]
    rfl
  have hptr := (hw.grown.core hplain.toCore).ptr_ne_zero hlive hstate (by omega)
  exact ⟨s, t, n, hnew, ⟨hlive, hstate, hptr, Nat.zero_le _⟩,
    blocks_stay_own hnew (Run.single ⟨⟨hwithin, Or.inl hstray⟩, _, hok⟩)⟩

end Runs

/-! ## A write of a file with a stray pointer block -/

/-- The file `n` ends at its block 1022, and has kept the pointer block of the blocks from 1024 on.
Its block 1023 was released, and a block in front of that one is free. -/
structure Stray (v : View) (n : ℕ) : Prop extends Inv v none where
  live : v.live n
  state : (v.inode n).state = 1
  size : (v.inode n).fileSize = 1022 * 4096
  first : (v.inode n).ptr 0 ≠ 0
  second : (v.inode n).ptr 1 ≠ 0
  rest : ∀ i, 2 ≤ i → (v.inode n).ptr i = 0
  inData : v.place n (.data 1023) < 3000
  released : v.used (v.place n (.data 1023)) = false
  lower : ∃ y, 34 ≤ y ∧ y < v.place n (.data 1023) ∧ v.used y = false

section Stray

variable {v : View} {s : SacState} {n : ℕ} {buffer : List UInt8}

/-- INTERNAL: such a file has two leading pointers. -/
theorem Stray.leadingPointers (h : Stray v n) {node : Node}
    (hnode : inodeOfNode node = v.inode n) : node.leadingPointers = 2 := by
  obtain ⟨hle, hleading, hend⟩ := leadingPointers_spec node
  have hfirst := h.first
  have hsecond := h.second
  have hrest := h.rest
  rw [← hnode] at hfirst hsecond hrest
  by_contra hne
  rcases Nat.lt_or_gt_of_ne hne with hlt | hgt
  · have hzero := hend (by omega)
    have hcases : node.leadingPointers = 0 ∨ node.leadingPointers = 1 := by omega
    rcases hcases with e | e
    · rw [e] at hzero
      exact hfirst hzero
    · rw [e] at hzero
      exact hsecond hzero
  · exact hleading 2 hgt (hrest 2 le_rfl)

/-- INTERNAL: the data block of its last byte is held, and so are its two pointer blocks, which
are different. -/
theorem Stray.held (h : Stray v n) : v.held n (.data 1022) ∧ v.held n (.ptr 0) ∧
    v.held n (.ptr 1) ∧ v.place n (.ptr 0) ≠ v.place n (.ptr 1) := by
  have hheld₀ : v.held n (.ptr 0) := ⟨h.live, h.first⟩
  have hheld₁ : v.held n (.ptr 1) := ⟨h.live, h.second⟩
  refine ⟨⟨h.live, ?_⟩, hheld₀, hheld₁, fun e => ?_⟩
  · rw [Inode.refers, blocks_file h.state h.first, h.size]
    omega
  · have := (h.own.inj n _ n _ hheld₀ hheld₁ e).2
    cases this

/-- INTERNAL: **a write that fills its last block** puts the new one in the second pointer block.
SRCLINE: node.c:94-115, sacio.c:204-242 -/
theorem vwp_sacWrite_stray {offset : ℕ} (h : Stray v n) (hoffset : offset = 1022 * 4096)
    (hlen : buffer.length = 4096) :
    vwp (sacWrite .ilp32 n buffer (offset : ℤ)) (fun _ w => w.live n ∧
      w.used (v.place n (.data 1023)) = false ∧
      w.data (v.place n (.ptr 0)) = v.data (v.place n (.ptr 0)) ∧
      w.inode n = { v.inode n with fileSize := 1023 * 4096 }) (fun _ _ => False) v := by
  have hcore := h.toCore
  obtain ⟨hheld, hheld₀, hheld₁, hne_ptr⟩ := h.held
  have hptr₀ := hcore.inData hheld₀
  have hptr₁ := hcore.inData hheld₁
  have hdata := hcore.inData hheld
  have hne_data := (ownFile_of_core hcore h.live h.state).ptr_ne_data hheld₀ hheld
  have hfits := (hcore.node n h.live).fits
  obtain ⟨y, hy, hylt, hyfree⟩ := h.lower
  have hroom : 1 < freeCount v.used 34 3000 := by
    have hin := h.inData
    refine Finset.one_lt_card.mpr ⟨y, ?_, _, ?_, hylt.ne⟩
    · rw [Finset.mem_filter, Finset.mem_Ico]
      exact ⟨by omega, hyfree⟩
    · rw [Finset.mem_filter, Finset.mem_Ico]
      exact ⟨by omega, h.released⟩
  refine vwp_sacWrite_start h.live.1 (hcore.node n h.live).named h.first (by omega)
    fun node hnode => ?_
  have hleading := h.leadingPointers hnode
  have hfs : node.fileSize = 1022 * 4096 := by
    rw [← h.size, ← hnode]
    rfl
  have hnodePtr : ∀ i, node.indirectPointerBlock i = v.place n (.ptr i) := by
    intro i
    rw [View.place, ← hnode]
    rfl
  have hnodeData : v.dataBlock (inodeOfNode node) 1022 = v.place n (.data 1022) := by
    rw [View.place, hnode]
  have hblock : offset / 4096 = 1022 := by omega
  -- there is nothing to fill up, and one round copies the buffer
  apply vwp_bind
  apply vwp_completarOffset_stop (by omega) (by omega) (by omega)
  rw [i32_of_lt (by omega), hblock]
  apply vwp_bind
  unfold escribirBuffer
  rw [if_pos (by omega)]
  refine vwp_bind (vwp_getDataBlockFromNode (Or.inl rfl) (by omega) ?_ ?_ ?_ ?_)
  · rw [hnodePtr]
    exact hptr₀.1
  · rw [hnodePtr]
    exact hptr₀.2.1
  · rw [hnodeData]
    exact hdata.2.1
  rw [hnodeData]
  have hcant : min (buffer.length - 0) (blockSize - offset % 4096) = 4096 := by
    simp only [blockSize]
    omega
  have hfull : 4096 = blockSize - offset % 4096 ∧ 0 + 4096 ≤ buffer.length := by
    simp only [blockSize]
    omega
  dsimp only
  rw [hcant]
  refine vwp_bind (vwp_store hdata.1 hdata.2.1 (by omega) ?_)
  rw [if_pos hfull]
  refine vwp_bind (vwp_addDataBlockToNode_slot ?_ (fun hfull => by omega) ?_
    (fun hfull => by omega) fun e _ _ hcount _ _ => ?_)
  · intro _ _
    rw [hnodePtr, hleading]
    exact ⟨hptr₁.1, hptr₁.2.1⟩
  · intro _ x hx hx' hxfree hxfirst
    obtain ⟨rounds, hrounds⟩ : ∃ k, buffer.length = k + 1 := ⟨4095, hlen⟩
    have hgrows : (offset : ℤ) + ((0 + 4096 : ℕ) : ℤ) > (node.fileSize : ℤ) := by omega
    have hsize : u32 ((offset : ℤ) + ((0 + 4096 : ℕ) : ℤ)) = 1023 * 4096 := by
      rw [← Int.natCast_add, u32_natCast_of_lt (by omega)]
      omega
    rw [if_pos hgrows, hsize, hrounds]
    unfold escribirBuffer
    rw [if_neg (by omega)]
    refine vwp_pure (vwp_bind (vwp_unmapAndDestroyNode h.live.1 ?_ (vwp_pure ?_)))
    · rw [← hnode] at hfits
      exact ⟨hfits.1, show 1023 * 4096 < 2 ^ 32 by omega, hfits.3, hfits.4, hfits.5, hfits.6⟩
    · have hlow : x ≤ y := by
        by_contra hlt
        have := hxfirst y hy (by omega)
        rw [View.setData_used, hyfree] at this
        cases this
      have hlive : 2 + n ≠ x := by
        have := h.live.1
        omega
      rw [hnodePtr, hleading]
      refine ⟨⟨h.live.1, ?_⟩, ?_, ?_, ?_⟩
      · rw [View.setInode_used, setSlot, View.setData_used, View.setUsed_ne _ hlive]
        exact h.live.2
      · rw [View.setInode_used, setSlot, View.setData_used, View.setUsed_ne _ (by omega)]
        exact h.released
      · rw [View.setInode_data, setSlot_data_ne hne_ptr, View.setUsed_data,
          View.setData_ne _ hne_data]
      · rw [View.setInode_same, ← hnode]
        rfl
  · have : freeCount v.used 34 3000 ≤ 1 := hcount
    omega

/-- INTERNAL: **the readers then find a block that is free.** -/
theorem Stray.write (h : Stray (viewOf s) n) (hlen : buffer.length = 4096) :
    ∃ r s', (Change.write n buffer ((1022 * 4096 : ℕ) : ℤ)).perform s = .ok r s' ∧
      ¬ OwnBlocks s' := by
  obtain ⟨hheld, hheld₀, -, -⟩ := h.held
  have hptr₀ := h.toCore.inData hheld₀
  have hwp := vwp_bind (f := fun count : ℕ => (pure (count : ℤ) : Sac ℤ)) (Q := fun _ w =>
    w.live n ∧ w.used ((viewOf s).place n (.data 1023)) = false ∧
      w.data ((viewOf s).place n (.ptr 0)) = (viewOf s).data ((viewOf s).place n (.ptr 0)) ∧
      w.inode n = { (viewOf s).inode n with fileSize := 1023 * 4096 })
    (vwp_mono (vwp_sacWrite_stray h rfl hlen) (fun _ _ hw => vwp_pure hw) fun _ _ hf => hf)
  obtain ⟨r, s', hok, hlive, hfree, hsame, hinode⟩ :=
    exists_ok_of_wp (hwp s rfl) fun _ _ hf => hf
  refine ⟨r, s', hok, fun hown => ?_⟩
  have hhas : HasBlock s' n 1023 := by
    refine ⟨hlive, ?_, ?_, ?_⟩
    · rw [hinode]
      exact h.state
    · rw [hinode]
      exact h.first
    · rw [hinode]
      exact show 1023 ≤ 1023 * 4096 / 4096 by omega
  have hplace : (viewOf s').place n (.data 1023) = (viewOf s).place n (.data 1023) := by
    have hptr : ((viewOf s').inode n).ptr = ((viewOf s).inode n).ptr := by rw [hinode]
    simp only [View.place, View.dataBlock, View.slot, hptr]
    exact leNat_congr fun i _ => congrFun hsame _
  have hname : ((viewOf s').inode n).name.isSome := by
    rw [hinode]
    exact (h.node n h.live).named
  have hptr' : 34 ≤ ((viewOf s').inode n).ptr (1023 / 1024) ∧
      ((viewOf s').inode n).ptr (1023 / 1024) < 3000 := by
    rw [hinode]
    exact ⟨hptr₀.1, hptr₀.2.1⟩
  obtain ⟨u, hu⟩ := exists_resolveBlock hlive.1 hname (by omega) hptr'.1 hptr'.2
    (by rw [hplace]; exact h.inData)
  obtain ⟨b, u', hu', -, -, hused⟩ := hown.resolved n 1023 hhas
  rw [hu, hplace] at hu'
  obtain rfl := (EStateM.Result.ok.inj hu').1
  rw [show s'.used _ = false from hfree] at hused
  cases hused

end Stray

/-! ## A run to such a file -/

/-- The paths `/a` and `/b` lead to the files `g` and `f`. -/
structure TwoFiles (s : SacState) (g f : ℕ) : Prop extends Inv (viewOf s) none where
  ne : g ≠ f
  found : leadsTo s (stringSplit aPath.val) = some g
  found' : leadsTo s (stringSplit bPath.val) = some f
  live : (viewOf s).live g
  live' : (viewOf s).live f
  state : ((viewOf s).inode g).state = 1
  state' : ((viewOf s).inode f).state = 1

section TwoFiles

variable {s s' : SacState} {g f n : ℕ}

/-- INTERNAL: a change of a file leaves the two files there. -/
theorem TwoFiles.change (h : TwoFiles s g f) (hstate : ((viewOf s).inode n).state = 1)
    (ho : Others n (viewOf s) (viewOf s')) (hcore : Core (viewOf s'))
    (hlive : ∀ m, (viewOf s').live m ↔ (viewOf s).live m)
    (hsame : ((viewOf s').inode n).state = ((viewOf s).inode n).state)
    (hparent : ((viewOf s').inode n).parentBlock = ((viewOf s).inode n).parentBlock) :
    TwoFiles s' g f := by
  have htree := tree_of_others ho h.toCore hlive (by rw [hstate]; decide) hsame hparent
  have hkind : ∀ m, ((viewOf s').inode m).state = ((viewOf s).inode m).state := by
    intro m
    by_cases hm : m = n
    · rw [hm, hsame]
    · rw [ho.inode m hm]
  refine ⟨⟨hcore, by rw [htree]; exact h.tree⟩, h.ne, ?_, ?_, (hlive g).mpr h.live,
    (hlive f).mpr h.live', (hkind g).trans h.state, (hkind f).trans h.state'⟩
  · rw [leadsTo, htree]
    exact h.found
  · rw [leadsTo, htree]
    exact h.found'

theorem TwoFiles.grown (h : TwoFiles s g f) (hstate : ((viewOf s).inode n).state = 1)
    (hw : Grown n (viewOf s) (viewOf s')) : TwoFiles s' g f :=
  h.change hstate (hw.others h.toCore) (hw.core h.toCore) hw.live hw.state hw.parentBlock

theorem TwoFiles.shrunk (h : TwoFiles s g f) (hstate : ((viewOf s).inode n).state = 1)
    (hs : Shrunk n (viewOf s) (viewOf s')) : TwoFiles s' g f :=
  h.change hstate hs.others hs.core hs.live hs.state hs.parentBlock

/-- INTERNAL: two new files, and nearly all of the disk is free. -/
theorem exists_twoFiles : ∃ (g f : ℕ) (s : SacState), NewFiles s ∧ TwoFiles s g f ∧
    NoStrays (viewOf s) ∧ ((viewOf s).inode g).ptr 0 = 0 ∧ ((viewOf s).inode f).ptr 0 = 0 ∧
    2960 ≤ freeCount (viewOf s).used 34 3000 := by
  have hfresh := fresh_of_formatted formatted_newDisk
  have hplain := hfresh.plain
  have ht := aPath_target hplain.toCore
  have hlookup := hfresh.lookup_eq_none 0 [97]
  obtain ⟨g, s₁, date, hok, hc⟩ := exists_open hplain.toInv ht (by decide) hlookup (by omega)
    hfresh.spare
  have hnew := hc.newNode hplain ht hlookup
  have hplain₁ := hc.plain hplain hplain.toCore.live_root hlookup
  have hspare₁ : Spare (viewOf s₁) 28 := hc.spare hfresh.spare
  have ht' : Target (viewOf s₁) bPath 0 [98] :=
    root_target hplain₁.toCore rfl (by decide) (by decide)
  have hfree : leadsTo s₁ (stringSplit bPath.val) = none := by
    rw [hnew.others _ (by decide)]
    exact hfresh.leadsTo_eq_none (by decide)
  have hlookup' := hfree
  rw [leadsTo, ht'.walk] at hlookup'
  obtain ⟨f, s, date', hok', hc'⟩ := exists_open hplain₁.toInv ht' (by decide) hlookup' (by omega)
    hspare₁
  have hnew' := hc'.newNode hplain₁ ht' hlookup'
  have hplain' := hc'.plain hplain₁ hplain₁.toCore.live_root hlookup'
  have hgf : g ≠ f := by
    rintro rfl
    exact hnew'.free hnew.live
  have hg : (viewOf s).inode g = (viewOf s₁).inode g := by
    apply hc'.inode g hgf
    rintro rfl
    exact hnew.free hplain.toCore.live_root
  have hrun : Run (Step fun v op => Promised v op ∧ op.Creates) newDisk
      [.open aPath, .open bPath] s :=
    (Run.single ⟨⟨aPath_addressed hplain.toCore, trivial⟩, _, hok⟩).snoc
      ⟨⟨⟨⟨by decide, by decide, by decide⟩, 0, rfl, hplain₁.root⟩, trivial⟩, _, hok'⟩
  refine ⟨g, f, s, ⟨newDisk, _, formatted_newDisk, hrun⟩, ⟨hplain'.toInv, hgf, ?_, hnew'.found, ?_,
    hnew'.live, ?_, hnew'.state_eq⟩, hc'.noStrays (hc.noStrays hfresh.noStrays), ?_,
    hnew'.empty.2 0, ?_⟩
  · rw [hnew'.others _ (by decide)]
    exact hnew.found
  · obtain ⟨t, hborn, hlinked⟩ := hc'.tree
    exact (hlinked.live g).mpr ((hborn.live g).mpr (Or.inl hnew.live))
  · rw [hg]
    exact hnew.state_eq
  · rw [hg]
    exact hnew.empty.2 0
  · have h₁ := hc.freeCount_le 34 3000
    have h₂ := hc'.freeCount_le 34 3000
    have h₀ := hfresh.le_freeCount 34 3000 le_rfl
    omega

/-- INTERNAL: a new file takes its first block, which was free, and the ones in front of it are
in use. -/
theorem Written.first_taken {v w : View} {b : ℕ} {src : ℕ → UInt8} (hw : Written v w n 0 b src)
    (hstate : (v.inode n).state = 1) (hnone : (v.inode n).ptr 0 = 0) {k : ℕ}
    (hk : w.held n (.data k)) :
    v.used (w.place n (.data k)) = false ∧ w.used (w.place n (.data k)) = true ∧
      ∀ y, 34 ≤ y → y < w.place n (.data k) → w.used y = true := by
  have hnot : ¬ v.held n (.data k) := by
    rintro ⟨-, hr⟩
    simp only [Inode.refers, Inode.blocks, if_pos hstate, if_pos hnone] at hr
    omega
  have hfree := (hw.grown.fresh _ hk).resolve_left hnot
  have hused := (hw.grown.own.inData hk).2.2
  exact ⟨hfree, hused, hw.lowest _ hfree hused⟩

/-- INTERNAL: a cut that drops no pointer leaves the places of the blocks. -/
theorem shortened_kept {v w : View} {len c S : ℕ} (hw : w = shortened v n len)
    (hlt : len < (v.inode n).fileSize) (hc : blocksLeft len (v.inode n).fileSize = c)
    (hS : sizeLeft len (v.inode n).fileSize = S)
    (hptr : ∀ i, ¬ (c ≤ 1024 * i ∧ 1024 * i < (v.inode n).blocks)) :
    (w.inode n).fileSize = S ∧ (w.inode n).ptr = (v.inode n).ptr ∧
      ∀ k, w.place n (.data k) = v.place n (.data k) := by
  rw [shortened, if_pos hlt, hc, hS] at hw
  have hsame : (w.inode n).ptr = (v.inode n).ptr := by
    funext i
    rw [hw, cut_inode]
    exact if_neg (hptr i)
  refine ⟨by rw [hw, cut_inode], hsame, fun k => ?_⟩
  have hdata : w.data = v.data := by
    rw [hw]
    rfl
  simp only [View.place, View.dataBlock, View.slot, hsame, hdata]

/-- INTERNAL: a write of one byte to the one file, and of 1024 blocks to the other. -/
theorem exists_filled : ∃ (s t : SacState) (cs : List Change) (g f : ℕ), NewFiles s ∧
    Run (ChangeStep fun s c => c.Within s) s cs t ∧ TwoFiles t g f ∧
    ((viewOf t).inode g).fileSize = 1 ∧ ((viewOf t).inode f).fileSize = 1024 * 4096 ∧
    NoStray ((viewOf t).inode f) ∧ (viewOf t).held g (.data 0) ∧ (viewOf t).held f (.data 1023) ∧
    (viewOf t).place g (.data 0) < (viewOf t).place f (.data 1023) := by
  obtain ⟨g, f, s₀, hnew, h₀, hstrays, hg₀, hf₀, hroom⟩ := exists_twoFiles
  obtain ⟨buffer, hlen⟩ : ∃ buffer : List UInt8, buffer.length = 1024 * 4096 :=
    ⟨List.replicate _ 0, List.length_replicate⟩
  obtain ⟨s₁, hok₁, hw₁⟩ := exists_write_of_room [0] h₀.toInv h₀.live h₀.state (Nat.zero_le _)
    (hstrays g h₀.live h₀.state) (by simp only [List.length_singleton]; omega)
  have h₁ := h₀.grown h₀.state hw₁.grown
  have hf₁ : (viewOf s₁).inode f = (viewOf s₀).inode f := hw₁.grown.inode f h₀.ne.symm
  have hstray₁ : NoStray ((viewOf s₁).inode f) := by
    rw [hf₁]
    exact hstrays f h₀.live' h₀.state'
  have hroom₁ : 2950 ≤ freeCount (viewOf s₁).used 34 3000 := by
    have hcount := hw₁.count
    have hfirst : firstBlocks ((viewOf s₀).inode g) ≤ 2 := by
      unfold firstBlocks
      split <;> omega
    simp only [List.length_singleton] at hcount
    omega
  obtain ⟨s₂, hok₂, hw₂⟩ := exists_write_of_room buffer h₁.toInv h₁.live' h₁.state'
    (Nat.zero_le _) hstray₁ (by omega)
  have h₂ := h₁.grown h₁.state' hw₂.grown
  have hsize_g : ((viewOf s₁).inode g).fileSize = 1 := by
    rw [hw₁.size, ((h₀.node g h₀.live).file h₀.state).empty hg₀]
    rfl
  have hsize_f : ((viewOf s₂).inode f).fileSize = 1024 * 4096 := by
    rw [hw₂.size, hf₁, ((h₀.node f h₀.live').file h₀.state').empty hf₀, hlen]
    omega
  have hptr_g := h₁.ptr_ne_zero h₁.live h₁.state (by omega)
  have hptr_f := h₂.ptr_ne_zero h₂.live' h₂.state' (by omega)
  have hheld_g : (viewOf s₁).held g (.data 0) :=
    ⟨h₁.live, by rw [Inode.refers, blocks_file h₁.state hptr_g]; omega⟩
  have hheld_f : (viewOf s₂).held f (.data 1023) :=
    ⟨h₂.live', by rw [Inode.refers, blocks_file h₂.state' hptr_f]; omega⟩
  obtain ⟨-, hused_g, hlow⟩ := hw₁.first_taken h₀.state hg₀ hheld_g
  obtain ⟨hfree_f, -, -⟩ := hw₂.first_taken h₁.state' (by rw [hf₁]; exact hf₀) hheld_f
  obtain ⟨hheld_g', hplace_g⟩ := (hw₂.grown.others h₁.toCore).place h₁.toCore h₁.ne hheld_g
  have hrun : Run (ChangeStep fun s c => c.Within s) s₀ [.write g [0] (0 : ℕ), .write f buffer (0 : ℕ)]
      s₂ :=
    (Run.single ⟨⟨h₀.live, h₀.state, by omega, by omega⟩, _, hok₁⟩).snoc
      ⟨⟨h₁.live', h₁.state', by omega, by omega⟩, _, hok₂⟩
  refine ⟨s₀, s₂, _, g, f, hnew, hrun, h₂, ?_, hsize_f, hw₂.noStray hstray₁, hheld_g', hheld_f, ?_⟩
  · rw [hw₂.grown.inode g h₁.ne]
    exact hsize_g
  · -- the block of the first file was taken when that of the second one was free
    rw [hplace_g]
    by_contra hge
    have hused : (viewOf s₁).used ((viewOf s₂).place f (.data 1023)) = true := by
      rcases Nat.lt_or_eq_of_le (Nat.le_of_not_lt hge) with hlt | he
      · exact hlow _ (h₂.toCore.inData hheld_f).1 hlt
      · rw [he]
        exact hused_g
    rw [hfree_f] at hused
    cases hused

/-- INTERNAL: after a cut of the one file and two cuts of the other, that one has kept a pointer
block too many. SRCLINE: sacio.c:536-552 -/
theorem exists_stray : ∃ (s t : SacState) (cs : List Change) (n : ℕ), NewFiles s ∧
    Run (ChangeStep fun s c => c.Within s) s cs t ∧ Stray (viewOf t) n := by
  obtain ⟨s₀, s₂, cs, g, f, hnew, hrun, h₂, hsize_g, hsize_f, hstray, hheld_g, hheld_f, hlt⟩ :=
    exists_filled
  -- the first file loses its block
  obtain ⟨-, s₃, hok₃, hs₃, hcut₃⟩ :=
    exists_truncate 0 h₂.toInv (by decide) h₂.found h₂.state (Nat.zero_le _)
  have h₃ := h₂.shrunk h₂.state hs₃
  have hf₃ : (viewOf s₃).inode f = (viewOf s₂).inode f := hs₃.others.inode f h₂.ne.symm
  have hfree : (viewOf s₃).used ((viewOf s₂).place g (.data 0)) = false := by
    rw [shortened, if_pos (by omega), hsize_g] at hcut₃
    have hall : Ref.CutAt (blocksLeft 0 1) ((viewOf s₂).inode g).blocks (.data 0) :=
      show blocksLeft 0 1 ≤ 0 by decide
    rw [hcut₃]
    exact ((cut_cleared h₂.toCore _).mpr ⟨_, hheld_g, hall, rfl⟩).2
  obtain ⟨hheld_f₃, hplace₃⟩ := hs₃.others.place h₂.toCore h₂.ne.symm hheld_f
  -- the second one is cut by one byte, and then into its block 1022
  obtain ⟨-, s₄, hok₄, hs₄, hcut₄⟩ := exists_truncate (1024 * 4096 - 1) h₃.toInv (by decide)
    h₃.found' h₃.state' (by rw [hf₃, hsize_f]; omega)
  have h₄ := h₃.shrunk h₃.state' hs₄
  have hblocks₃ : ((viewOf s₃).inode f).blocks = 1025 := by
    rw [blocks_file h₃.state' (h₃.ptr_ne_zero h₃.live' h₃.state' (by rw [hf₃]; omega)), hf₃,
      hsize_f]
  obtain ⟨hsize₄, hptr₄, hplace₄⟩ := shortened_kept (c := 1025) (S := 1024 * 4096 - 1) hcut₄
    (by rw [hf₃]; omega) (by rw [hf₃, hsize_f]; decide) (by rw [hf₃, hsize_f]; decide)
    fun i => by omega
  obtain ⟨-, s₅, hok₅, hs₅, hcut₅⟩ := exists_truncate (1022 * 4096) h₄.toInv (by decide)
    h₄.found' h₄.state' (by rw [hsize₄]; omega)
  have h₅ := h₄.shrunk h₄.state' hs₅
  have hblocks₄ : ((viewOf s₄).inode f).blocks = 1024 := by
    rw [blocks_file h₄.state' (h₄.ptr_ne_zero h₄.live' h₄.state' (by omega)), hsize₄]
  obtain ⟨hsize₅, hptr₅, hplace₅⟩ := shortened_kept (c := 1023) (S := 1022 * 4096) hcut₅
    (by omega) (by rw [hsize₄]; decide) (by rw [hsize₄]; decide)
    fun i => by omega
  have hptr : ((viewOf s₅).inode f).ptr = ((viewOf s₂).inode f).ptr := by
    rw [hptr₅, hptr₄, hf₃]
  have hplace : (viewOf s₅).place f (.data 1023) = (viewOf s₂).place f (.data 1023) := by
    rw [hplace₅, hplace₄, hplace₃]
  have hfile := (h₂.node f h₂.live').file h₂.state'
  have hptr_f := h₂.ptr_ne_zero h₂.live' h₂.state' (by omega)
  have hreleased : (viewOf s₅).used ((viewOf s₅).place f (.data 1023)) = false := by
    have hheld : (viewOf s₄).held f (.data 1023) :=
      ⟨h₄.live', by rw [Inode.refers, hblocks₄]; omega⟩
    have hat : Ref.CutAt 1023 ((viewOf s₄).inode f).blocks (.data 1023) := le_rfl
    rw [hplace₅]
    rw [shortened, if_pos (by omega), hsize₄,
      show blocksLeft (1022 * 4096) (1024 * 4096 - 1) = 1023 by decide] at hcut₅
    rw [hcut₅]
    exact ((cut_cleared h₄.toCore _).mpr ⟨_, hheld, hat, rfl⟩).2
  have hstray₅ : Stray (viewOf s₅) f := by
    refine ⟨h₅.toInv, h₅.live', h₅.state', hsize₅, ?_, ?_, fun i hi => ?_, ?_, hreleased,
      ⟨(viewOf s₂).place g (.data 0), (h₂.toCore.inData hheld_g).1, ?_, ?_⟩⟩
    · rw [hptr]
      exact hptr_f
    · rw [hptr]
      exact hfile.ptr hptr_f 1 (by omega)
    · rw [hptr]
      exact hstray i (by omega)
    · rw [hplace]
      exact (h₂.toCore.inData hheld_f).2.1
    · rw [hplace]
      exact hlt
    · apply Bool.eq_false_iff.mpr
      intro hused
      rw [hs₄.used _ (hs₅.used _ hused)] at hfree
      cases hfree
  have hstep₃ : ChangeStep (fun s c => c.Within s) s₂ (.truncate aPath (0 : ℕ)) s₃ :=
    ⟨⟨by decide, g, h₂.found, h₂.state, by omega⟩, _, hok₃⟩
  have hstep₄ : ChangeStep (fun s c => c.Within s) s₃ (.truncate bPath (1024 * 4096 - 1 : ℕ)) s₄ :=
    ⟨⟨by decide, f, h₃.found', h₃.state', by rw [hf₃, hsize_f]; omega⟩, _, hok₄⟩
  have hstep₅ : ChangeStep (fun s c => c.Within s) s₄ (.truncate bPath (1022 * 4096 : ℕ)) s₅ :=
    ⟨⟨by decide, f, h₄.found', h₄.state', by rw [hsize₄]; omega⟩, _, hok₅⟩
  exact ⟨s₀, s₅, _, f, hnew, ((hrun.snoc hstep₃).snoc hstep₄).snoc hstep₅, hstray₅⟩

/-- **A write after two cuts leads the readers to a free block.**  The file of 1024 blocks has lost
its last byte and then its last block, but not the second pointer block. SRCLINE: node.c:94-115 -/
theorem write_after_cuts_loses_block : ∃ (s t : SacState) (cs : List Change), NewFiles s ∧
    Run (ChangeStep fun s c => c.Within s) s cs t ∧ ¬ OwnBlocks t := by
  obtain ⟨s, u, cs, n, hnew, hrun, hstray⟩ := exists_stray
  obtain ⟨buffer, hlen⟩ : ∃ buffer : List UInt8, buffer.length = 4096 :=
    ⟨List.replicate _ 0, List.length_replicate⟩
  obtain ⟨r, t, hok, hnot⟩ := hstray.write hlen
  have hwithin : (Change.write n buffer ((1022 * 4096 : ℕ) : ℤ)).Within u :=
    ⟨hstray.live, hstray.state, by omega, by rw [hstray.size]⟩
  exact ⟨s, t, _, hnew, hrun.snoc ⟨hwithin, r, hok⟩, hnot⟩

end TwoFiles

end LinuseFs.Analysis
