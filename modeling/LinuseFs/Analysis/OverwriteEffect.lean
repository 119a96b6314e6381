import LinuseFs.Analysis.LookupFrame
import LinuseFs.Analysis.PointerSlots
import LinuseFs.Analysis.NameRuns

/-!
# A write inside a file

A write that ends inside the file and fills no block stores its bytes, and nothing else but the
node.  As soon as it fills a block, `sac_write` asks for one more, although the file has the next
block already: the condition on the bytes written, which should see that more are to come, holds
of every round.

The node is stored with the memory that `malloc` handed out for its name; it comes out the same
only if this memory, behind the NUL, holds what the disk has there.
-/

set_option autoImplicit false

namespace LinuseFs.Analysis

open LinuseFs.Computation LinuseFs.Model LinuseFs.Interface

/-- The slot `n` holds a file, and the blocks from its first one up to the one of its size are
allocated to it, each block of the data region that is marked used. -/
structure Allocated (s : SacState) (n : ℕ) : Prop where
  slot : n < 32
  state : ((viewOf s).inode n).state = 1
  named : ((viewOf s).inode n).name.isSome
  pointer : ∀ k ≤ ((viewOf s).inode n).fileSize / 4096,
    (viewOf s).InData (((viewOf s).inode n).ptr (k / 1024))
  data : ∀ k ≤ ((viewOf s).inode n).fileSize / 4096,
    (viewOf s).InData ((viewOf s).dataBlock ((viewOf s).inode n) k)
  distinct : ∀ j k, j ≤ ((viewOf s).inode n).fileSize / 4096 →
    k ≤ ((viewOf s).inode n).fileSize / 4096 →
    (viewOf s).dataBlock ((viewOf s).inode n) j = (viewOf s).dataBlock ((viewOf s).inode n) k →
    j = k
  apart : ∀ i k, ((viewOf s).inode n).ptr i ≠ 0 → k ≤ ((viewOf s).inode n).fileSize / 4096 →
    ((viewOf s).inode n).ptr i ≠ (viewOf s).dataBlock ((viewOf s).inode n) k

/-- The block and the byte in it where the file `n` has its byte `i`. -/
def isByte (s : SacState) (n i b p : ℕ) : Prop :=
  b = (viewOf s).dataBlock ((viewOf s).inode n) (i / 4096) ∧ p = i % 4096

/-- From `s` to `s'` the bytes of the buffer have replaced those of the file `n` from `offset` on,
and nothing else has changed. -/
structure OverwrittenInPlace (s s' : SacState) (n : ℕ) (buffer : List UInt8) (offset : ℕ) :
    Prop where
  bitmap : s'.bitmap = s.bitmap
  size : ((viewOf s').inode n).fileSize = ((viewOf s).inode n).fileSize
  pointers : ((viewOf s').inode n).ptr = ((viewOf s).inode n).ptr
  pointerBlocks : ∀ i, ((viewOf s).inode n).ptr i ≠ 0 →
    s'.disk (((viewOf s).inode n).ptr i) = s.disk (((viewOf s).inode n).ptr i)
  written : ∀ i < buffer.length, ∀ b p, isByte s n (offset + i) b p →
    s'.disk b p = buffer.getD i 0
  frame : ∀ b p, (∀ i < buffer.length, ¬ isByte s n (offset + i) b p) →
    s'.disk b p = s.disk b p

/-- The memory that `malloc` hands out for the name of the node holds, behind the NUL of the name,
what the disk has there. SRCLINE: utils.c:88-99 -/
def PaddingRecurs (s : SacState) (n : ℕ) : Prop :=
  ∀ name, ((viewOf s).inode n).name = some name →
    ∀ i, name.length < i → i < 71 → s.env.heap s.env.taken i = s.disk (2 + n) (1 + i)

/-! ## Used bits are only set -/

/-- When the computation returns, every block that was used is used. -/
def KeepsUsed {α : Type} (x : Sac α) : Prop :=
  ∀ s, wp x (fun _ s' => ∀ b, s.used b = true → s'.used b = true) (fun _ _ => True) s

namespace KeepsUsed

variable {α β : Type} {x : Sac α} {f : α → Sac β}

theorem pure (a : α) : KeepsUsed (Pure.pure a : Sac α) := fun _ _ hb => hb

theorem throw (e : Fault) : KeepsUsed (MonadExcept.throw e : Sac α) := fun _ => trivial

theorem bind (hx : KeepsUsed x) (hf : ∀ a, KeepsUsed (f a)) : KeepsUsed (x >>= f) := by
  intro s
  refine wp_bind_of (hx s) (fun a s' hs => ?_) fun _ _ _ => trivial
  exact wp_mono (hf a s') (fun _ _ h b hb => h b (hs b hb)) fun _ _ _ => trivial

theorem of_readOnly (hx : ReadOnly x) : KeepsUsed x := by
  intro s
  refine wp_mono (hx s) (fun _ s' hs b hb => ?_) fun _ _ _ => trivial
  rw [hs]
  exact hb

end KeepsUsed

section Keeping

variable {s : SacState}

theorem keepsUsed_store (block pos : ℕ) (src : Bytes) (len : ℕ) :
    KeepsUsed (store block pos src len) := by
  intro s
  simp only [store, wp_bind, wp_get]
  split
  · exact fun b hb => hb
  · trivial

/-- INTERNAL: **a block of the data region is taken.** SRCLINE: bitmap.c:15-17 -/
theorem getFreeDataBlock_takes (s : SacState) :
    wp getFreeDataBlock (fun b s' => s.used b = false ∧ s'.used b = true ∧
      ∀ c, s.used c = true → s'.used c = true) (fun _ _ => True) s := by
  refine getFreeDataBlock_wp (fun b _ _ hfree _ => ⟨hfree, ?_, fun c hc => ?_⟩) fun _ _ _ => trivial
  · rw [take_used, decide_eq_true rfl, Bool.true_or]
  · rw [take_used, hc, Bool.or_true]

theorem keepsUsed_getFreeDataBlock : KeepsUsed getFreeDataBlock := fun s =>
  wp_mono (getFreeDataBlock_takes s) (fun _ _ h => h.2.2) fun _ _ _ => trivial

theorem keepsUsed_pointerAt (node : Node) (i : ℕ) : KeepsUsed (node.pointerAt i) :=
  KeepsUsed.of_readOnly (readOnly_pointerAt _ _)

theorem keepsUsed_setPointer (node : Node) (i x : ℕ) : KeepsUsed (node.setPointer i x) :=
  KeepsUsed.of_readOnly (readOnly_setPointer _ _ _)

theorem keepsUsed_storeNumber (node : Node) (i j b : ℕ) :
    KeepsUsed (do
      let pointersBlockNum ← node.pointerAt i
      store (readBlock pointersBlockNum) (j * 4) (leBytes b) 4
      return b) :=
  (keepsUsed_pointerAt node i).bind fun _ => (keepsUsed_store _ _ _ _).bind fun _ =>
    KeepsUsed.pure _

theorem keepsUsed_createDataBlockInPointerBlock (node : Node) (i j : ℕ) :
    KeepsUsed (createDataBlockInPointerBlock node i j) :=
  keepsUsed_getFreeDataBlock.bind fun b => keepsUsed_storeNumber node i j b

/-- INTERNAL: **`add_data_block_to_node` takes a block** when it returns. SRCLINE:
node.c:85-127 -/
theorem addDataBlockToNode_takes (node : Node) (s : SacState) :
    wp (addDataBlockToNode node) (fun _ s' => (∃ b, s.used b = false ∧ s'.used b = true) ∧
      ∀ c, s.used c = true → s'.used c = true) (fun _ _ => True) s := by
  have hrest : ∀ {α : Type} {f : ℕ → Sac α}, (∀ b, KeepsUsed (f b)) →
      wp (getFreeDataBlock >>= f) (fun _ s' => (∃ b, s.used b = false ∧ s'.used b = true) ∧
        ∀ c, s.used c = true → s'.used c = true) (fun _ _ => True) s := by
    intro α f hf
    refine wp_bind_of (getFreeDataBlock_takes s) (fun b s' hs => ?_) fun _ _ _ => trivial
    exact wp_mono (hf b s') (fun _ _ h => ⟨⟨b, hs.1, h b hs.2.1⟩, fun c hc => h c (hs.2.2 c hc)⟩)
      fun _ _ _ => trivial
  unfold addDataBlockToNode
  dsimp only
  split
  · simp only [createDataBlockInPointerBlock, bind_assoc]
    exact hrest fun b => (keepsUsed_pointerAt _ _).bind fun _ =>
      (keepsUsed_store _ _ _ _).bind fun _ => KeepsUsed.pure _
  · simp only [createPointersBlockInNode, bind_assoc]
    exact hrest fun b => (keepsUsed_setPointer _ _ _).bind fun node' =>
      (keepsUsed_createDataBlockInPointerBlock _ _ _).bind fun _ => KeepsUsed.pure _

theorem keepsUsed_addDataBlockToNode (node : Node) : KeepsUsed (addDataBlockToNode node) :=
  fun s => wp_mono (addDataBlockToNode_takes node s) (fun _ _ h => h.2) fun _ _ _ => trivial

theorem readOnly_getDataBlockFromNode (abi : Abi) (node : Node) (k : ℕ) :
    ReadOnly (getDataBlockFromNode abi node k) :=
  (readOnly_pointerAt _ _).bind fun _ => (readOnly_load _ _ _).bind fun _ => ReadOnly.pure _

/-- INTERNAL: the rounds of the copy loop only set used bits. SRCLINE: sacio.c:204-242 -/
theorem keepsUsed_escribirBuffer (abi : Abi) (buffer : List UInt8) (offset orig : ℤ) (n : ℕ)
    (node : Node) (bloque byte escritos enBloque : ℕ) :
    KeepsUsed (escribirBuffer abi buffer offset orig n node bloque byte escritos enBloque) := by
  induction n generalizing node bloque byte escritos enBloque with
  | zero => exact KeepsUsed.throw _
  | succ n ih =>
    unfold escribirBuffer
    split
    · apply (KeepsUsed.of_readOnly (readOnly_getDataBlockFromNode _ _ _)).bind
      intro b
      apply (keepsUsed_store _ _ _ _).bind
      intro _
      dsimp only
      split
      · exact (keepsUsed_addDataBlockToNode node).bind fun node' => ih _ _ _ _ _
      · exact ih _ _ _ _ _
    · exact KeepsUsed.pure _

theorem keepsUsed_unmapAndDestroyNode (node : Node) (block : ℕ) :
    KeepsUsed (unmapAndDestroyNode node block) :=
  (KeepsUsed.of_readOnly (readOnly_load _ _ _)).bind fun _ => keepsUsed_store _ _ _ _

end Keeping

/-! ## The steps of a write inside a block -/

section Steps

variable {s : SacState} {E : Fault → SacState → Prop} {n : ℕ} {node : Node}

/-- INTERNAL: a node is read with the next memory of `malloc` behind its name. SRCLINE:
node.c:16-21, utils.c:163-186 -/
theorem readNode_padded_wp {Q : Node × ℕ → SacState → Prop} {name : List UInt8}
    (hn : 2 + n < 3000)
    (hname : cstr (s.disk (2 + n)) 1 71 = some name)
    (hQ : ∀ node s', s'.disk = s.disk → s'.bitmap = s.bitmap → CopyOf (s.disk (2 + n)) node →
      (∀ i, name.length < i → node.fileName i = s.env.heap s.env.taken i) →
      Q (node, 2 + n) s') : wp (readNode n) Q E s := by
  have hblock : readBlock (getBlockNumFromNodeNum n) = 2 + n := by
    rw [readBlock_of_lt] <;> simp only [getBlockNumFromNodeNum, nodeTableInitialBlock_eq]
    exact hn
  have hbytes : (fun i => s.disk (2 + n) (0 + i)) = s.disk (2 + n) := by
    funext i
    rw [Nat.zero_add]
  obtain ⟨hlen, -, -, hnul⟩ := cstr_eq_some_iff.mp hname
  simp only [readNode, hblock, blockToNode, wp_bind]
  apply load_wp (by omega) (by decide)
  rw [hbytes]
  simp only [Nat.zero_add, Nat.reduceAdd, fileNameSize, hname, createNode, malloc, wp_bind, wp_get,
    wp_set, wp_pure]
  rw [if_pos hlen]
  refine hQ _ _ rfl rfl ⟨?_, name, hname⟩ fun i hi => memcpy_outside (Or.inr (by omega))
  simp only [inodeOfNode, inodeOf, hname, Inode.mk.injEq, and_self, and_true, true_and]
  exact cstr_memcpy_ofList _ 0 71 _ hnul hlen (by omega)

/-- INTERNAL: the bytes of the name field that `node_to_block` stores. SRCLINE: utils.c:146-161 -/
theorem nodeImage_fileName (d : Bytes) {i : ℕ} (hi : 1 ≤ i) (hi' : i < 72) :
    nodeImage node d i = node.fileName (i - 1) := by
  simp only [Model.nodeImage, fileNameSize, pointersPerNode, Nat.zero_add, Nat.reduceAdd,
    Nat.reduceMul]
  repeat rw [memcpy_outside (by omega)]
  unfold memcpy
  rw [if_pos ⟨hi, hi'⟩]

/-- INTERNAL: **a copy of a node is stored**: only the bytes behind its name may change.
SRCLINE: node.c:47-51 -/
theorem unmapAndDestroyNode_padded_wp {Q : Unit → SacState → Prop} {d : Bytes} {name : List UInt8}
    (hn : 2 + n < 3000) (hsame : s.disk (2 + n) = d) (hcopy : CopyOf d node)
    (hname : cstr d 1 71 = some name)
    (hQ : ∀ s', s'.bitmap = s.bitmap → (∀ b, b ≠ 2 + n → s'.disk b = s.disk b) →
      (∀ p, s'.disk (2 + n) p =
        if 1 + name.length < p ∧ p < 72 then node.fileName (p - 1) else d p) → Q () s') :
    wp (unmapAndDestroyNode node (2 + n)) Q E s := by
  simp only [unmapAndDestroyNode, nodeToBlock, wp_bind]
  refine load_wp (by omega) (by decide) (store_wp (by omega) (by decide) ?_)
  refine hQ _ rfl (fun b hb => setBlock_ne _ _ hb) fun p => ?_
  rw [setBlock_same, hsame]
  by_cases hp : p < 4096
  · rw [memcpy_zero_inside hp]
    split
    next hpad => exact nodeImage_fileName _ (by omega) hpad.2
    next hpad => exact hcopy.nodeImage hname (by omega) hp
  · rw [memcpy_outside (Or.inr (not_lt.mp hp)), if_neg (by omega)]

/-- INTERNAL: a data block is looked up, and the state is as it was. SRCLINE: node.c:128-144 -/
theorem getDataBlockFromNode_wp {Q : ℕ → SacState → Prop} {k : ℕ} (hk : k / 1024 < 1000)
    (hp : (viewOf s).InData (node.indirectPointerBlock (k / 1024)))
    (hb : (viewOf s).InData ((viewOf s).dataBlock (inodeOfNode node) k))
    (hQ : Q ((viewOf s).dataBlock (inodeOfNode node) k) s) :
    wp (getDataBlockFromNode .ilp32 node k) Q E s := by
  have hvalue : vwp (getDataBlockFromNode .ilp32 node k)
      (fun b _ => b = (viewOf s).dataBlock (inodeOfNode node) k) (fun _ _ => False) (viewOf s) :=
    vwp_getDataBlockFromNode (Or.inl rfl) hk hp.1 hp.2.1 hb.2.1 rfl
  refine wp_mono (wp_and (hvalue s rfl) (readOnly_getDataBlockFromNode .ilp32 node k s))
    (fun b s' h => ?_) fun _ _ h => h.1.elim
  obtain ⟨rfl, rfl⟩ := h
  exact hQ

/-- INTERNAL: **the copy loop, of a buffer that fills no block**: one round, which stores the
whole buffer. SRCLINE: sacio.c:204-242 -/
theorem escribirBuffer_inside_wp {Q : Node → SacState → Prop} {offset : ℕ} {buffer : List UInt8}
    (hroom : offset % 4096 + buffer.length < 4096) (hend : offset + buffer.length ≤ node.fileSize)
    (hk : offset / 4096 / 1024 < 1000)
    (hp : (viewOf s).InData (node.indirectPointerBlock (offset / 4096 / 1024)))
    (hb : (viewOf s).InData ((viewOf s).dataBlock (inodeOfNode node) (offset / 4096)))
    (hQ : ∀ s', s'.bitmap = s.bitmap →
      (∀ b p, s'.disk b p =
        if b = (viewOf s).dataBlock (inodeOfNode node) (offset / 4096) ∧ offset % 4096 ≤ p ∧
            p < offset % 4096 + buffer.length then buffer.getD (p - offset % 4096) 0
        else s.disk b p) → Q node s') :
    wp (escribirBuffer .ilp32 buffer offset node.fileSize (buffer.length + 1) node (offset / 4096)
      (offset % 4096) 0 0) Q E s := by
  generalize hB : (viewOf s).dataBlock (inodeOfNode node) (offset / 4096) = B at hb hQ
  unfold escribirBuffer
  by_cases hpos : 0 < buffer.length
  swap
  · rw [if_neg hpos]
    apply hQ s rfl
    intro b p
    rw [if_neg (by omega)]
  obtain ⟨rounds, hrounds⟩ : ∃ k, buffer.length = k + 1 := ⟨buffer.length - 1, by omega⟩
  have hcant : min (buffer.length - 0) (blockSize - offset % 4096) = buffer.length := by
    simp only [blockSize]
    omega
  have hpart : ¬ (buffer.length = blockSize - offset % 4096 ∧ 0 + buffer.length ≤ buffer.length) := by
    simp only [blockSize]
    omega
  have hsame : ¬ (offset : ℤ) + ((0 + buffer.length : ℕ) : ℤ) > node.fileSize := by omega
  rw [if_pos hpos]
  dsimp only
  rw [hcant, wp_bind]
  apply getDataBlockFromNode_wp hk hp (by rw [hB]; exact hb)
  rw [hB, wp_bind]
  apply store_wp hb.2.1 (by omega)
  rw [if_neg hpart, if_neg hsame, hrounds]
  unfold escribirBuffer
  rw [hrounds, if_neg (by omega), ← hrounds, wp_pure]
  refine hQ _ rfl fun b p => ?_
  by_cases hbB : b = B
  · subst hbB
    rw [setBlock_same]
    by_cases hin : offset % 4096 ≤ p ∧ p < offset % 4096 + buffer.length
    · rw [if_pos ⟨rfl, hin⟩, memcpy, if_pos (by omega)]
      congr 1
      omega
    · rw [if_neg fun h => hin h.2, memcpy_outside (by omega)]
  · rw [setBlock_ne _ _ hbB, if_neg fun h => hbB h.1]

/-- INTERNAL: **the beginning of a write at an offset inside the file**: no block is asked for
and no gap filled. SRCLINE: sacio.c:152-202 -/
theorem sacWrite_start_wp {Q : ℕ → SacState → Prop} {offset : ℕ} {buffer : List UInt8}
    (h : Allocated s n) (hoffset : offset ≤ ((viewOf s).inode n).fileSize)
    (hsize : ((viewOf s).inode n).fileSize < 2 ^ 31)
    (hQ : ∀ node s' name, s'.disk = s.disk → s'.bitmap = s.bitmap →
      cstr (s.disk (2 + n)) 1 71 = some name → CopyOf (s.disk (2 + n)) node →
      (∀ i, name.length < i → node.fileName i = s.env.heap s.env.taken i) →
      wp (do
        let fileNode ← escribirBuffer .ilp32 buffer offset node.fileSize (buffer.length + 1) node
          (offset / 4096) (offset % 4096) 0 0
        unmapAndDestroyNode fileNode (2 + n)
        return buffer.length) Q E s') :
    wp (sacWrite .ilp32 n buffer (offset : ℤ)) Q E s := by
  have hdiv : u32 ((offset : ℤ).tdiv (blockSize : ℕ)) = offset / 4096 := by
    rw [Int.tdiv_eq_ediv_of_nonneg (by omega), ← Int.natCast_ediv]
    exact u32_natCast_of_lt (show offset / 4096 < 2 ^ 32 by omega)
  have hmod : u32 ((offset : ℤ).tmod (blockSize : ℕ)) = offset % 4096 := by
    rw [Int.tmod_eq_emod_of_nonneg (by omega), ← Int.natCast_emod]
    exact u32_natCast_of_lt (show offset % 4096 < 2 ^ 32 by omega)
  obtain ⟨name, hname⟩ := Option.isSome_iff_exists.mp h.named
  rw [viewOf_inode h.slot] at hname
  unfold sacWrite
  rw [wp_bind]
  have hslot := h.slot
  apply readNode_padded_wp (by omega) hname
  intro node s' hdisk hbitmap hcopy hpad
  have hinode : inodeOfNode node = (viewOf s).inode n := by
    rw [hcopy.1, viewOf_inode h.slot]
  have hptr : node.indirectPointerBlock 0 ≠ 0 := by
    have hin := h.pointer 0 (Nat.zero_le _)
    rw [← hinode] at hin
    intro hzero
    have : 34 ≤ node.indirectPointerBlock 0 := hin.1
    omega
  have hfile : node.fileSize = ((viewOf s).inode n).fileSize := congrArg Inode.fileSize hinode
  have hno : ¬ node.fileSize < offset := by omega
  dsimp only
  rw [if_neg hptr, hdiv, hmod, i32_of_lt (n := offset) (by omega),
    u32_natCast_of_lt (n := offset) (by omega), wp_bind, wp_pure]
  unfold completarOffset
  rw [u32_natCast_of_lt (n := offset) (by omega), if_neg hno, wp_bind, wp_pure,
    i32_of_lt (n := node.fileSize) (by omega)]
  exact hQ node s' name hdisk hbitmap hname hcopy hpad

end Steps

/-! ## The effect -/

section Overwrite

variable {s s' : SacState} {n offset : ℕ} {buffer : List UInt8}

/-- INTERNAL: an allocated file is smaller than the disk. -/
theorem Allocated.size_lt (h : Allocated s n) : ((viewOf s).inode n).fileSize < 2 ^ 31 := by
  have hle := le_of_distinct_blocks
    (f := fun k => (viewOf s).dataBlock ((viewOf s).inode n) k)
    (m := ((viewOf s).inode n).fileSize / 4096 + 1) (fun k hk => ?_) fun j k hj hk => ?_
  · omega
  · obtain ⟨h1, h2, -⟩ := h.data k (by omega)
    exact ⟨h1, h2⟩
  · exact h.distinct j k (by omega) (by omega)

/-- INTERNAL: **what a write that fills no block leaves**: its bytes in the block of its offset,
and behind the name of the node what `malloc` handed out. SRCLINE: sacio.c:152-246 -/
theorem sacWrite_inside (h : Allocated s n)
    (hend : offset + buffer.length ≤ ((viewOf s).inode n).fileSize)
    (hroom : offset % 4096 + buffer.length < 4096) : ∃ s' name,
    sacWrite .ilp32 n buffer (offset : ℤ) s = .ok buffer.length s' ∧
    ((viewOf s).inode n).name = some name ∧ s'.bitmap = s.bitmap ∧
    ∀ b p, s'.disk b p =
      if b = (viewOf s).dataBlock ((viewOf s).inode n) (offset / 4096) ∧ offset % 4096 ≤ p ∧
          p < offset % 4096 + buffer.length then buffer.getD (p - offset % 4096) 0
      else if b = 2 + n ∧ 1 + name.length < p ∧ p < 72 then s.env.heap s.env.taken (p - 1)
      else s.disk b p := by
  have hdiv : offset / 4096 ≤ ((viewOf s).inode n).fileSize / 4096 := by omega
  obtain ⟨hB, hB', hBused⟩ := h.data _ hdiv
  obtain ⟨name, hname⟩ := Option.isSome_iff_exists.mp h.named
  have hwp : wp (sacWrite .ilp32 n buffer (offset : ℤ))
      (fun r s' => r = buffer.length ∧ s'.bitmap = s.bitmap ∧
        ∀ b p, s'.disk b p =
          if b = (viewOf s).dataBlock ((viewOf s).inode n) (offset / 4096) ∧ offset % 4096 ≤ p ∧
              p < offset % 4096 + buffer.length then buffer.getD (p - offset % 4096) 0
          else if b = 2 + n ∧ 1 + name.length < p ∧ p < 72 then s.env.heap s.env.taken (p - 1)
          else s.disk b p) (fun _ _ => False) s := by
    refine sacWrite_start_wp h (by omega) h.size_lt fun node s₁ name' hdisk hbitmap hname' hcopy
      hpad => ?_
    rw [viewOf_inode h.slot] at hname
    obtain rfl : name' = name := Option.some.inj (hname'.symm.trans hname)
    have hinode : inodeOfNode node = (viewOf s).inode n := by
      rw [hcopy.1, viewOf_inode h.slot]
    have hview : ∀ k, (viewOf s₁).dataBlock (inodeOfNode node) k =
        (viewOf s).dataBlock ((viewOf s).inode n) k := by
      intro k
      rw [hinode]
      simp only [View.dataBlock, View.slot, viewOf, hdisk]
    have hindata : ∀ b, (viewOf s).InData b → (viewOf s₁).InData b := by
      rintro b ⟨h1, h2, h3⟩
      refine ⟨h1, h2, ?_⟩
      simp only [viewOf_used, SacState.used, hbitmap] at h3 ⊢
      exact h3
    have hptr := h.pointer _ hdiv
    rw [← hinode] at hptr
    have hfile : node.fileSize = ((viewOf s).inode n).fileSize := congrArg Inode.fileSize hinode
    have hsmall := h.size_lt
    rw [wp_bind]
    refine escribirBuffer_inside_wp hroom (by omega) (by omega) (hindata _ hptr)
      (by rw [hview]; exact hindata _ (h.data _ hdiv)) fun s₂ hbitmap₂ hdisk₂ => ?_
    rw [hview, hdisk] at hdisk₂
    have hnode : ∀ b, b = 2 + n → s₂.disk b = s.disk b := by
      rintro b rfl
      have hslot := h.slot
      funext p
      rw [hdisk₂, if_neg (by omega)]
    rw [wp_bind]
    have hslot := h.slot
    refine unmapAndDestroyNode_padded_wp (by omega) (hnode _ rfl) hcopy hname
      fun s₃ hbitmap₃ hother hbytes => ?_
    refine ⟨rfl, hbitmap₃.trans (hbitmap₂.trans hbitmap), fun b p => ?_⟩
    have hslot := h.slot
    by_cases hb : b = 2 + n
    · subst hb
      have hno : ¬ (2 + n = (viewOf s).dataBlock ((viewOf s).inode n) (offset / 4096) ∧
          offset % 4096 ≤ p ∧ p < offset % 4096 + buffer.length) := by omega
      rw [hbytes, if_neg hno]
      by_cases hp : 1 + name'.length < p ∧ p < 72
      · rw [if_pos hp, if_pos ⟨rfl, hp⟩, hpad _ (by omega)]
      · rw [if_neg hp, if_neg fun hc => hp hc.2]
    · rw [hother b hb, hdisk₂]
      split
      · rfl
      · rw [if_neg fun hc => hb hc.1]
  obtain ⟨r, s', hok, rfl, hbitmap, hbytes⟩ := exists_ok_of_wp hwp fun _ _ hf => hf
  exact ⟨s', name, hok, hname, hbitmap, hbytes⟩

/-- INTERNAL: **a write that fills a block takes another one**, if it returns. SRCLINE:
sacio.c:204-242 -/
theorem sacWrite_filling (h : Allocated s n)
    (hend : offset + buffer.length ≤ ((viewOf s).inode n).fileSize)
    (hfill : 4096 ≤ offset % 4096 + buffer.length) {r : ℕ}
    (hok : sacWrite .ilp32 n buffer (offset : ℤ) s = .ok r s') : s'.bitmap ≠ s.bitmap := by
  have hwp : wp (sacWrite .ilp32 n buffer (offset : ℤ))
      (fun _ s' => ∃ b, s.used b = false ∧ s'.used b = true) (fun _ _ => True) s := by
    apply sacWrite_start_wp h (by omega) h.size_lt
    intro node s₁ name _ hbitmap _ _ _
    have hused : s₁.used = s.used := by
      unfold SacState.used
      rw [hbitmap]
    have hpos : 0 < buffer.length := by omega
    have hall : 0 + (blockSize - offset % 4096) ≤ buffer.length := by
      simp only [blockSize]
      omega
    have hcant : min (buffer.length - 0) (blockSize - offset % 4096) = blockSize - offset % 4096 := by
      simp only [blockSize]
      omega
    unfold escribirBuffer
    rw [if_pos hpos]
    dsimp only
    rw [hcant, if_pos ⟨rfl, hall⟩]
    simp only [bind_assoc]
    refine wp_bind_of (readOnly_getDataBlockFromNode _ _ _ s₁) (fun b s₂ hs₂ => ?_)
      fun _ _ _ => trivial
    subst hs₂
    refine wp_bind_of (keepsUsed_store _ _ _ _ s₂) (fun _ s₃ hs₃ => ?_) fun _ _ _ => trivial
    refine wp_bind_of (addDataBlockToNode_takes node s₃) (fun node' s₄ hs₄ => ?_)
      fun _ _ _ => trivial
    obtain ⟨⟨b, hfree, htaken⟩, -⟩ := hs₄
    have hfree' : s.used b = false := by
      rw [← hused]
      apply Bool.eq_false_iff.mpr
      intro hb
      rw [hs₃ b hb] at hfree
      cases hfree
    have hrest := ((keepsUsed_escribirBuffer .ilp32 buffer offset node.fileSize buffer.length
      (if (offset : ℤ) + (0 + (blockSize - offset % 4096) : ℕ) > node.fileSize then
        { node' with fileSize := u32 ((offset : ℤ) + (0 + (blockSize - offset % 4096) : ℕ)) }
      else node') (offset / 4096 + 1) 0 (0 + (blockSize - offset % 4096)) 0).bind fun node'' =>
        (keepsUsed_unmapAndDestroyNode node'' (2 + n)).bind fun _ =>
          KeepsUsed.pure buffer.length) s₄
    exact wp_mono hrest (fun _ s' hs' => ⟨b, hfree', hs' b htaken⟩) fun _ _ _ => trivial
  obtain ⟨b, hfree, htaken⟩ := wp_of_ok hwp hok
  intro hsame
  have hused : s'.used b = s.used b := by
    unfold SacState.used
    rw [hsame]
  rw [hused, hfree] at htaken
  cases htaken

theorem Allocated.node_ne_data (h : Allocated s n) {k : ℕ}
    (hk : k ≤ ((viewOf s).inode n).fileSize / 4096) :
    2 + n ≠ (viewOf s).dataBlock ((viewOf s).inode n) k := by
  have hslot := h.slot
  obtain ⟨hB, -, -⟩ := h.data k hk
  omega

/-- INTERNAL: when the bytes of the buffer are all that changed, the write was in place. -/
theorem overwritten_of_bytes (h : Allocated s n)
    (hend : offset + buffer.length ≤ ((viewOf s).inode n).fileSize)
    (hroom : offset % 4096 + buffer.length < 4096) (hbitmap : s'.bitmap = s.bitmap)
    (hbytes : ∀ b p, s'.disk b p =
      if b = (viewOf s).dataBlock ((viewOf s).inode n) (offset / 4096) ∧ offset % 4096 ≤ p ∧
          p < offset % 4096 + buffer.length then buffer.getD (p - offset % 4096) 0
      else s.disk b p) : OverwrittenInPlace s s' n buffer offset := by
  have hother : ∀ b, b ≠ (viewOf s).dataBlock ((viewOf s).inode n) (offset / 4096) →
      s'.disk b = s.disk b := by
    intro b hb
    funext p
    rw [hbytes, if_neg fun hc => hb hc.1]
  have hnode : (viewOf s').inode n = (viewOf s).inode n := by
    rw [viewOf_inode h.slot, viewOf_inode h.slot, hother _ (h.node_ne_data (by omega))]
  refine ⟨hbitmap, by rw [hnode], by rw [hnode], fun i hi => ?_, ?_, fun b p hno => ?_⟩
  · exact hother _ (h.apart i _ hi (by omega))
  · rintro i hi b p ⟨rfl, rfl⟩
    have hblock : (offset + i) / 4096 = offset / 4096 := by omega
    have hpos : (offset + i) % 4096 = offset % 4096 + i := by omega
    rw [hbytes, hblock, hpos, if_pos ⟨rfl, by omega, by omega⟩, Nat.add_sub_cancel_left]
  · rw [hbytes, if_neg]
    rintro ⟨rfl, hp, hp'⟩
    refine hno (p - offset % 4096) (by omega) ⟨?_, by omega⟩
    congr 1
    omega

/-- **A write inside a file overwrites in place** exactly when it fills no block and the memory
that the node is read into holds the same bytes behind its name. SRCLINE: sacio.c:152-246 -/
theorem overwrites_in_place_iff (h : Allocated s n)
    (hend : offset + buffer.length ≤ ((viewOf s).inode n).fileSize) :
    (∃ s', sacWrite .ilp32 n buffer (offset : ℤ) s = .ok buffer.length s' ∧
        OverwrittenInPlace s s' n buffer offset) ↔
      offset % 4096 + buffer.length < 4096 ∧ PaddingRecurs s n := by
  constructor
  · rintro ⟨s', hok, hover⟩
    have hroom : offset % 4096 + buffer.length < 4096 := by
      by_contra hfill
      exact sacWrite_filling h hend (not_lt.mp hfill) hok hover.bitmap
    obtain ⟨s'', name, hok', hname, -, hbytes⟩ := sacWrite_inside h hend hroom
    rw [hok] at hok'
    cases hok'
    refine ⟨hroom, fun name' hname' i hi hi' => ?_⟩
    obtain rfl : name' = name := Option.some.inj (hname'.symm.trans hname)
    have hframe := hover.frame (2 + n) (1 + i) fun j hj hbyte =>
      h.node_ne_data (by omega) hbyte.1
    have hno := h.node_ne_data (k := offset / 4096) (by omega)
    rw [hbytes, if_neg fun hc => hno hc.1, if_pos ⟨rfl, by omega, by omega⟩] at hframe
    rwa [Nat.add_sub_cancel_left] at hframe
  · rintro ⟨hroom, hpad⟩
    obtain ⟨s', name, hok, hname, hbitmap, hbytes⟩ := sacWrite_inside h hend hroom
    refine ⟨s', hok, overwritten_of_bytes h hend hroom hbitmap fun b p => ?_⟩
    rw [hbytes]
    split
    · rfl
    · split
      next hp =>
        obtain ⟨rfl, hp, hp'⟩ := hp
        rw [hpad name hname (p - 1) (by omega) (by omega)]
        congr 1
        omega
      next => rfl

/-- INTERNAL: the files of a well formed disk are allocated. -/
theorem allocated_of_core (h : Core (viewOf s)) (hn : (viewOf s).live n)
    (hstate : ((viewOf s).inode n).state = 1) (hptr : ((viewOf s).inode n).ptr 0 ≠ 0) :
    Allocated s n := by
  have hheld : ∀ k ≤ ((viewOf s).inode n).fileSize / 4096, (viewOf s).held n (.data k) := by
    intro k hk
    refine ⟨hn, ?_⟩
    rw [Inode.refers, blocks_file hstate hptr]
    omega
  have hnode := h.node n hn
  refine ⟨hn.1, hstate, hnode.named, fun k hk => ?_, fun k hk => h.inData (hheld k hk),
    fun j k hj hk he => ?_, fun i k hi hk he => ?_⟩
  · exact h.inData_ptr hn (hnode.refers_ptr (hheld k hk).2)
  · exact Ref.data.inj (h.own.inj n (.data j) n (.data k) (hheld j hj) (hheld k hk) he).2
  · cases (h.own.inj n (.ptr i) n (.data k) ⟨hn, hi⟩ (hheld k hk) he).2

/-- The statement for a file of one byte that is overwritten. -/
theorem overwrites_in_place_one_byte : ∃ (t : SacState) (n : ℕ), OneFile t n 1 ∧
    ((∃ s', sacWrite .ilp32 n [7] (0 : ℕ) t = .ok 1 s' ∧ OverwrittenInPlace t s' n [7] 0) ↔
      0 % 4096 + 1 < 4096 ∧ PaddingRecurs t n) := by
  obtain ⟨n, -, t, -, -, ht, -⟩ := exists_oneFile [1] Nat.one_pos (by decide)
  have hend : 0 + [(7 : UInt8)].length ≤ ((viewOf t).inode n).fileSize := by
    rw [ht.size_eq]
    decide
  exact ⟨t, n, ht, overwrites_in_place_iff
    (allocated_of_core ht.toCore ht.live ht.state ht.ptr) hend⟩

/-- **Overwriting the first block of a file of 4097 bytes takes a block.** SRCLINE:
sacio.c:227 -/
theorem full_overwrite_takes_block : ∃ (t : SacState) (n : ℕ), OneFile t n 4097 ∧
    Allocated t n ∧ ¬ ∃ s', sacWrite .ilp32 n (List.replicate 4096 7) (0 : ℕ) t = .ok 4096 s' ∧
      OverwrittenInPlace t s' n (List.replicate 4096 7) 0 := by
  have hlen : (List.replicate 4097 (0 : UInt8)).length = 4097 := List.length_replicate
  have hlen' : (List.replicate 4096 (7 : UInt8)).length = 4096 := List.length_replicate
  obtain ⟨n, -, t, -, -, ht, -⟩ := exists_oneFile (List.replicate 4097 0) (by omega) (by omega)
  rw [hlen] at ht
  have halloc := allocated_of_core ht.toCore ht.live ht.state ht.ptr
  have hsize := ht.size_eq
  refine ⟨t, n, ht, halloc, fun ⟨s', hok, hover⟩ => ?_⟩
  exact sacWrite_filling halloc (by rw [hlen', hsize]; decide) (by rw [hlen']) hok hover.bitmap

end Overwrite

end LinuseFs.Analysis
