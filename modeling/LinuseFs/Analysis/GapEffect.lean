import LinuseFs.Analysis.TruncateEffect
import LinuseFs.Analysis.WriteFrame

/-!
# A write behind the end of a file

`sac_write` fills the file with NULs up to the offset.  The fill loop is right as long as it
stays in the first block of the file.  Where it finishes a block it has already raised the size,
so that `add_data_block_to_node` stores the next block one slot too far; only where that slot would
be in a pointer block that the file does not have yet is the new block in the right place
(`GapInReach`).
-/

set_option autoImplicit false

namespace LinuseFs.Analysis

open LinuseFs.Computation LinuseFs.Model LinuseFs.Interface

/-- From `s` to `s'` the file `n` has got the buffer at the offset and NULs before it, and each
of its blocks is its own. -/
structure FilledGap (s s' : SacState) (n : ℕ) (buffer : List UInt8) (offset : ℕ) : Prop where
  size : ((viewOf s').inode n).fileSize = offset + buffer.length
  reads : ReadsAs s' n (content (viewOf s) n ++
    List.replicate (offset - ((viewOf s).inode n).fileSize) 0 ++ buffer)
  resolved : ∀ k ≤ (offset + buffer.length) / 4096,
    (viewOf s').InData ((viewOf s').place n (.data k)) ∧
    ∀ m r, (viewOf s').held m r → (viewOf s').place m r = (viewOf s').place n (.data k) →
      m = n ∧ r = .data k

/-- `sac_write` at an offset behind the end of the file, unless the allocator stops the server. -/
def FillsGap (s : SacState) (n : ℕ) (buffer : List UInt8) (offset : ℕ) : Prop :=
  wp (sacWrite .ilp32 n buffer (offset : ℤ))
    (fun r s' => r = buffer.length ∧ FilledGap s s' n buffer offset) (fun e _ => e.IsAlloc) s

/-- The fill loop stays in the first block, or it finishes the last block of the first pointer
block, which the offset is not behind and the buffer reaches; and each block that the write takes
goes into the slot that the readers look in. -/
def GapInReach (nd : Inode) (offset count : ℕ) : Prop :=
  (offset < 4096 ∨ (nd.fileSize / 4096 = 1023 ∧ nd.ptr 1 = 0 ∧ offset ≤ 1024 * 4096 ∧
    1024 * 4096 ≤ offset + count)) ∧
  ∀ k, nd.fileSize / 4096 < k → k ≤ (offset + count) / 4096 → NextInPlace nd k

section Write

variable {v : View} {E : Fault → View → Prop} {n : ℕ} {buffer : List UInt8} {offset : ℕ}

/-- INTERNAL: **a round of the fill loop that finishes its block.**  The block is looked up by its
slot, in the first pointer block. SRCLINE: sacio.c:181-200 -/
theorem vwp_completarOffset_full {Q : Node → View → Prop} {node : Node} {rounds : ℕ}
    (h : OwnFile (v.setInode n (inodeOfNode node)) n)
    (hptr : node.indirectPointerBlock 0 ≠ 0) (hfar : 4096 ≤ offset) (hsmall : offset < 2 ^ 31)
    (hoffset : node.fileSize < offset) (hmore : 4096 < offset + node.fileSize % 4096)
    (hQ : ∀ b bytes w, b = (v.setInode n (inodeOfNode node)).place n
          (.data (node.fileSize / 4096 % 1024)) →
        bytes = memcpy (v.data b) (node.fileSize % 4096) (fun _ => 0)
          (4096 - node.fileSize % 4096) →
        w = v.setData b bytes →
      vwp (addDataBlockToNode { node with fileSize := (node.fileSize / 4096 + 1) * 4096 } >>=
        fun node' => completarOffset .ilp32 rounds node'
          ((offset - (4096 - node.fileSize % 4096) : ℕ) : ℤ)) Q E w) :
    vwp (completarOffset .ilp32 (rounds + 1) node (offset : ℤ)) Q E v := by
  generalize hV : v.setInode n (inodeOfNode node) = V at h hQ
  have hVinode : V.inode n = inodeOfNode node := by rw [← hV, View.setInode_same]
  have hVptr : (V.inode n).ptr 0 ≠ 0 := by rw [hVinode]; exact hptr
  have hVsize : (V.inode n).fileSize = node.fileSize := by rw [hVinode]; rfl
  have hheld : V.held n (.data (node.fileSize / 4096 % 1024)) := by
    refine ⟨h.live, ?_⟩
    rw [Inode.refers, blocks_file h.state hVptr, hVsize]
    omega
  have hzero : node.fileSize / 4096 % 1024 / 1024 = 0 := by omega
  obtain ⟨hp, hp', -⟩ := h.inData (h.held_ptr hheld)
  obtain ⟨hb, hb', -⟩ := h.inData hheld
  have hplace : v.dataBlock (inodeOfNode node) (node.fileSize / 4096 % 1024) =
      V.place n (.data (node.fileSize / 4096 % 1024)) := by
    rw [View.place, hVinode, ← hV]
    rfl
  simp only [View.place, hzero, hVinode] at hp hp'
  apply vwp_completarOffset_round (4096 - node.fileSize % 4096) hoffset hsmall (by omega)
    hp hp' hplace hb hb'
  have hfilled : node.fileSize + (4096 - node.fileSize % 4096) =
      (node.fileSize / 4096 + 1) * 4096 := by omega
  rw [if_pos ⟨by omega, by omega⟩, hfilled]
  exact hQ _ _ _ rfl rfl rfl

/-- INTERNAL: **the fill loop at the end of a pointer block**, when there is no next one yet: the
block that it takes one slot too far is the first of a new pointer block, the right one.
SRCLINE: sacio.c:181-200 -/
theorem vwp_completarOffset_lastSlot {Q : Node → View → Prop} {node : Node} {rounds : ℕ}
    (h : OwnFile (v.setInode n (inodeOfNode node)) n)
    (hptr : node.indirectPointerBlock 0 ≠ 0) (hblock : (node.fileSize / 4096 + 1) % 1024 = 0)
    (hnone : node.indirectPointerBlock ((node.fileSize / 4096 + 1) / 1024) = 0)
    (hoffset : node.fileSize < offset) (hend : offset ≤ (node.fileSize / 4096 + 1) * 4096)
    (hQ : ∀ node' w u bytes x y, node'.fileSize = (node.fileSize / 4096 + 1) * 4096 →
      bytes = memcpy (v.data ((v.setInode n (inodeOfNode node)).place n
        (.data (node.fileSize / 4096 % 1024)))) (node.fileSize % 4096) (fun _ => 0)
        (4096 - node.fileSize % 4096) →
      u = (v.setInode n (inodeOfNode node)).setData ((v.setInode n (inodeOfNode node)).place n
        (.data (node.fileSize / 4096 % 1024))) bytes →
      Extension u n x y → TakesFirst (v.setInode n (inodeOfNode node)) x y →
      w.setInode n (inodeOfNode node') =
        extendedBy u n x y ((node.fileSize / 4096 + 1) * 4096) → Q node' w)
    (hE : ∀ e w, e.IsAlloc → E e w) :
    vwp (completarOffset .ilp32 (rounds + 2) node (offset : ℤ)) Q E v := by
  have hle := h.blocks_le
  generalize hV : v.setInode n (inodeOfNode node) = V at h hQ hle
  have hVinode : V.inode n = inodeOfNode node := by rw [← hV, View.setInode_same]
  have hVptr : (V.inode n).ptr 0 ≠ 0 := by rw [hVinode]; exact hptr
  have hVused : V.used = v.used := by rw [← hV]; rfl
  have hblocks : (V.inode n).blocks = node.fileSize / 4096 + 1 := by
    rw [blocks_file h.state hVptr, hVinode]
    rfl
  rw [hblocks] at hle
  have hfile : ∀ i ≤ node.fileSize / 4096 / 1024, node.indirectPointerBlock i ≠ 0 := by
    have := h.file.ptr hVptr
    rw [hVinode] at this
    exact this
  have hleading : node.leadingPointers = (node.fileSize / 4096 + 1) / 1024 := by
    obtain ⟨-, hnonzero, hstop⟩ := leadingPointers_spec node
    apply le_antisymm
    · by_contra hlt
      exact hnonzero _ (not_le.mp hlt) hnone
    · by_contra hlt
      exact hfile _ (by omega) (hstop (by omega))
  refine vwp_completarOffset_full (by rw [hV]; exact h) hptr (by omega) (by omega) hoffset
    (by omega) fun b bytes w hb hbytes hstored => ?_
  rw [hV] at hb
  have hused : w.used = v.used := by rw [hstored]; rfl
  refine vwp_bind (vwp_addDataBlockToNode_slot ?_ ?_ ?_ ?_ fun e u he _ _ _ => hE e u he)
  · intro hroom
    have hroom' : (node.fileSize / 4096 + 1) * 4096 / 4096 + 1 < 1024 * node.leadingPointers :=
      hroom
    exact absurd hroom' (by omega)
  · intro _
    have hroom : node.leadingPointers < 1000 := by omega
    exact hroom
  · intro hroom
    have hroom' : (node.fileSize / 4096 + 1) * 4096 / 4096 + 1 < 1024 * node.leadingPointers :=
      hroom
    omega
  · intro _ x y hx hx' hfree hy hy' hyfree hxy hfirst
    have hlead : Node.leadingPointers
        { node with fileSize := (node.fileSize / 4096 + 1) * 4096 } =
          (node.fileSize / 4096 + 1) / 1024 := hleading
    rw [hlead]
    dsimp only
    rw [hused] at hfree hyfree
    have hext : Extension (V.setData b bytes) n x y := by
      refine ⟨hx, hx', ?_, Or.inr ⟨?_, hy, hy', ?_, hxy⟩⟩
      · change V.used x = false
        rw [hVused]
        exact hfree
      · change (V.inode n).ptr ((V.inode n).blocks / 1024) = 0
        rw [hblocks, hVinode]
        exact hnone
      · change V.used y = false
        rw [hVused]
        exact hyfree
    have hfirst' : TakesFirst V x y := by
      constructor
      · rw [hVused, ← hused]
        exact hfirst.pointer
      · rw [hVused, ← hused]
        exact hfirst.data
    apply vwp_completarOffset_stop (Nat.succ_ne_zero _) (by dsimp only; omega)
      (by dsimp only; omega)
    refine hQ _ _ _ bytes x y rfl (by rw [← hb]; exact hbytes) rfl (by rw [← hb]; exact hext)
      hfirst' ?_
    have hnd : (V.setData b bytes).inode n = inodeOfNode node := hVinode
    have hbl : (V.setData b bytes).inode n = V.inode n := rfl
    rw [← hb, extendedBy, hbl, hblocks, hblock, hVinode, hstored, ← hV]
    simp only [setSlot, View.setInode_setUsed, View.setInode_setData, View.setInode_setInode,
      View.setInode_data, View.setUsed_data]
    rfl

/-- INTERNAL: **the fill loop at the end of the first pointer block** writes the zeros where they
belong. SRCLINE: sacio.c:181-200 -/
theorem vwp_completarOffset_boundary {Q : Node → View → Prop} {node : Node} {rounds : ℕ}
    (h : OwnFile (v.setInode n (inodeOfNode node)) n)
    (hptr : node.indirectPointerBlock 0 ≠ 0) (hblock : node.fileSize / 4096 = 1023)
    (hnone : node.indirectPointerBlock 1 = 0) (hoffset : node.fileSize < offset)
    (hend : offset ≤ 1024 * 4096)
    (hQ : ∀ node' w, node'.fileSize = 1024 * 4096 →
      Written (v.setInode n (inodeOfNode node)) (w.setInode n (inodeOfNode node')) n
        node.fileSize (1024 * 4096) (fun _ => 0) → Q node' w)
    (hE : ∀ e w, e.IsAlloc → E e w) :
    vwp (completarOffset .ilp32 (rounds + 2) node (offset : ℤ)) Q E v := by
  have hlast : (node.fileSize / 4096 + 1) * 4096 = 1024 * 4096 := by omega
  have hslot : node.fileSize / 4096 % 1024 = node.fileSize / 4096 := by omega
  have hnone' : node.indirectPointerBlock ((node.fileSize / 4096 + 1) / 1024) = 0 := by
    rw [hblock]
    exact hnone
  have hend' : offset ≤ (node.fileSize / 4096 + 1) * 4096 := by
    rw [hlast]
    exact hend
  refine vwp_completarOffset_lastSlot h hptr (by omega) hnone' hoffset hend'
    (fun node' w u bytes x y hsize hbytes hu hext hfirst hview => ?_) hE
  have hVinode := View.setInode_same (v := v) n (inodeOfNode node)
  have hVptr : ((v.setInode n (inodeOfNode node)).inode n).ptr 0 ≠ 0 := by
    rw [hVinode]
    exact hptr
  have hVsize : ((v.setInode n (inodeOfNode node)).inode n).fileSize = node.fileSize := by
    rw [hVinode]
    rfl
  rw [hslot] at hbytes hu
  have hstored : u = storedAt (v.setInode n (inodeOfNode node)) n node.fileSize (fun _ => 0)
      (4096 - node.fileSize % 4096) := by
    rw [hu, hbytes]
    rfl
  rw [hstored] at hext hview
  rw [hlast] at hsize hview
  have hwritten := written_extended (fun _ => 0) h hVptr hVsize.ge (by omega) (fun _ => 0)
    (fun _ _ => rfl) hext hfirst
  have hfilled : node.fileSize + (4096 - node.fileSize % 4096) = 1024 * 4096 := by omega
  rw [hfilled, hVsize, max_eq_right (by omega), ← hview] at hwritten
  exact hQ node' w hsize hwritten

/-- INTERNAL: **`sac_write` over the end of the first pointer block.** SRCLINE:
sacio.c:152-246 -/
theorem vwp_sacWrite_boundary {Q : ℕ → View → Prop} (h : OwnFile v n)
    (hname : (v.inode n).name.isSome) (hblock : (v.inode n).fileSize / 4096 = 1023)
    (hnone : (v.inode n).ptr 1 = 0) (hoffset : (v.inode n).fileSize < offset)
    (hend : offset ≤ 1024 * 4096) (hover : 1024 * 4096 ≤ offset + buffer.length)
    (hnext : ∀ k, (v.inode n).fileSize / 4096 < k → k ≤ (offset + buffer.length) / 4096 →
      NextInPlace (v.inode n) k)
    (hQ : ∀ u w, Written v u n (v.inode n).fileSize (1024 * 4096) (fun _ => 0) →
      Written u w n offset (offset + buffer.length) (sourceByte buffer offset) → Q buffer.length w)
    (hE : ∀ e w, e.IsAlloc → E e w) : vwp (sacWrite .ilp32 n buffer (offset : ℤ)) Q E v := by
  have hptr : (v.inode n).ptr 0 ≠ 0 := fun e => by
    have := h.file.empty e
    omega
  apply vwp_sacWrite_start h.live.1 hname hptr (by omega)
  intro node hnode
  have hself : v.setInode n (inodeOfNode node) = v := by rw [hnode, View.setInode_self]
  rw [← hnode] at hblock hnone hoffset hptr
  obtain ⟨rounds, rfl⟩ : ∃ k, offset = k + 1 := ⟨offset - 1, by omega⟩
  refine vwp_bind (vwp_completarOffset_boundary (by rw [hself]; exact h) hptr
    hblock hnone hoffset hend (fun node' u hsize hzeros => ?_) hE)
  rw [hself] at hzeros
  have hinode := View.setInode_same (v := u) n (inodeOfNode node')
  have hptr' := (hzeros.grown.kept (.ptr 0) ⟨h.live, by rw [← hnode]; exact hptr⟩).1.2
  have hfs : (inodeOfNode node).fileSize = (v.inode n).fileSize := by rw [hnode]
  have hall : InPlace (v.inode n) node.fileSize (rounds + 1 + buffer.length) :=
    ⟨hnext, fun hlt => absurd hlt (by rw [← hfs]; exact lt_irrefl _)⟩
  have hplace := hzeros.inPlace hall (by
    have hsmall : node.fileSize < rounds + 1 := hoffset
    omega) hover
  rw [hinode] at hptr' hplace
  have hsize' : (inodeOfNode node').fileSize = 1024 * 4096 := hsize
  refine vwp_sacWrite_copy hzeros.grown.own hptr' (by omega) ⟨hplace.1, fun _ hlt => ?_⟩
    (fun w hw => hQ _ w ?_ hw) fun e w he _ => hE e w he
  · -- the block behind the new one is not the first of a pointer block
    rw [hsize'] at hlt ⊢
    exact (hplace.1 1025 (by rw [hsize']; decide) (by omega)).resolve_right fun hmod =>
      absurd hmod.1 (by decide)
  · rw [← hfs]
    exact hzeros

/-- INTERNAL: **a write that ends in the block of the old end**, behind the first block, leaves
the size at the end of that block. SRCLINE: sacio.c:181-200 -/
theorem vwp_sacWrite_rounded (buffer : List UInt8) (offset : ℕ) (h : OwnFile v n)
    (hname : (v.inode n).name.isSome) (hfar : 4096 ≤ offset)
    (hoffset : (v.inode n).fileSize < offset)
    (hinside : offset < ((v.inode n).fileSize / 4096 + 1) * 4096)
    (hend : offset + buffer.length ≤ ((v.inode n).fileSize / 4096 + 1) * 4096) :
    vwp (sacWrite .ilp32 n buffer (offset : ℤ))
      (fun r w => r = buffer.length ∧
        (w.inode n).fileSize = ((v.inode n).fileSize / 4096 + 1) * 4096)
      (fun e _ => e.IsAlloc ∧ freeCount v.used 34 3000 <
        2 * ((offset % 4096 + buffer.length) / 4096 + 2)) v := by
  have hptr : (v.inode n).ptr 0 ≠ 0 := fun e => by
    have := h.file.empty e
    omega
  have hsize := h.fileSize_lt
  -- the fill loop takes a block, and leaves the size at the end of the block before it
  have hfills : (slotsOf v (v.inode n)).size < offset := hoffset
  generalize hcant : min offset 4096 - (v.inode n).fileSize % 4096 = cant
  have hfull : (v.inode n).fileSize % 4096 + cant = 4096 ∧ cant < offset := by omega
  have hfilled : filledSize (offset + 1) (v.inode n).fileSize offset =
      ((v.inode n).fileSize / 4096 + 1) * 4096 := by
    rw [filledSize, if_pos hoffset, hcant, filledSize_of_le (by omega)]
    omega
  obtain ⟨rounds, hrounds⟩ : ∃ r, offset = r + 1 := Nat.exists_eq_succ_of_ne_zero (by omega)
  have huses : (slotsOf v (v.inode n)).write offset buffer.length =
      .lookUp ((v.inode n).fileSize / 4096 % 1024) ::
        ((slotsOf v (v.inode n)).resize ((v.inode n).fileSize + cant)).take
          fun s => Slots.copy (i32 s.size) offset buffer.length (buffer.length + 1) 0 s := by
    rw [Slots.write, if_pos (show (slotsOf v (v.inode n)).isSet 0 = true by simpa [slotsOf]),
      Slots.loops, Slots.fill, if_pos hfills]
    have hslots : (slotsOf v (v.inode n)).size = (v.inode n).fileSize := rfl
    dsimp only
    rw [hslots, hcant, if_pos hfull, hrounds]
    congr 1
    apply Slots.take_congr
    apply Slots.fill_of_le
    change rounds + 1 - cant ≤ (v.inode n).fileSize + cant
    omega
  have hfollowed : Followed (fun k => k ≤ (v.inode n).fileSize / 4096)
      ((slotsOf v (v.inode n)).write offset buffer.length) := by
    apply followed_of_forall
    intro k hk
    rw [huses, List.mem_cons] at hk
    rcases hk with hk | hk
    · cases hk
      exact Nat.mod_le _ _
    · have hcopied := Slots.lookUp_of_take hk
      obtain ⟨i, hi, rfl⟩ := Slots.exists_of_lookUp_copy hcopied
      omega
  have hheld : ∀ k ≤ (v.inode n).fileSize / 4096, v.held n (.data k) := by
    intro k hk
    refine ⟨h.live, ?_⟩
    rw [Inode.refers, blocks_file h.state hptr]
    omega
  have hsmall : offset < 2 ^ 31 := by omega
  apply vwp_mono ((h.soundAt _).vwp_sacWrite hname h.fits hsmall
    (hfollowed.mono fun k _ => hheld k))
  · rintro r w ⟨hr, hkeeps⟩
    refine ⟨hr, ?_⟩
    have hkept : ¬ ((((v.inode n).fileSize / 4096 + 1) * 4096 : ℕ) : ℤ) <
        ((offset + buffer.length : ℕ) : ℤ) := by omega
    rw [hkeeps.node, writtenSize, hfilled, newSize, i32_of_lt (by omega), if_neg hkept]
    exact ite_self _
  · rintro e w ⟨halloc, hstop, -⟩
    refine ⟨halloc, ?_⟩
    rw [huses, List.mem_cons] at hstop
    rcases hstop with hstop | hstop
    · cases hstop
    have hfree := Slots.free_le (s := (slotsOf v (v.inode n)).resize ((v.inode n).fileSize + cant))
    change freeCount v.used 34 3000 ≤ _ at hfree
    rcases Slots.stop_of_take hstop with hfew | hlater
    · change freeCount v.used 34 3000 < 2 at hfew
      omega
    · have hless := Slots.free_lt_of_stop_copy (Nat.zero_le _) hlater
      omega

end Write

section Gap

variable {v w : View} {s s' : SacState} {n : ℕ} {buffer : List UInt8} {offset : ℕ}

/-- INTERNAL: the bytes of a file with a gap filled. -/
theorem content_filled (hsize : (w.inode n).fileSize = offset + buffer.length)
    (hoffset : (v.inode n).fileSize ≤ offset)
    (hbyte : ∀ i < offset + buffer.length, byteAt w n i =
      if i < (v.inode n).fileSize then byteAt v n i else writtenByte buffer offset i) :
    content w n =
      content v n ++ List.replicate (offset - (v.inode n).fileSize) 0 ++ buffer := by
  apply List.ext_getElem
  · simp only [length_content, hsize, List.length_append, List.length_replicate]
    omega
  intro i hi hi'
  rw [length_content, hsize] at hi
  have hleft : (content w n)[i] = byteAt w n i := by simp [content]
  rw [hleft, hbyte i hi]
  by_cases hold : i < (v.inode n).fileSize
  · rw [if_pos hold, List.getElem_append_left (by simp; omega),
      List.getElem_append_left (by simpa using hold)]
    simp [content]
  · rw [if_neg hold, writtenByte]
    by_cases hgap : i < offset
    · rw [if_pos hgap, List.getElem_append_left (by simp; omega),
        List.getElem_append_right (by simpa using hold), List.getElem_replicate]
    · rw [if_neg hgap, List.getElem_append_right (by simp; omega), sourceByte,
        List.getD_eq_getElem _ _ (by omega)]
      congr 1
      simp
      omega

/-- INTERNAL: a well-formed file with these bytes has its gap filled. -/
theorem filledGap_of_content (h : Core (viewOf s')) (hn : (viewOf s').live n)
    (hstate : ((viewOf s').inode n).state = 1)
    (hsize : ((viewOf s').inode n).fileSize = offset + buffer.length) (hpos : 0 < buffer.length)
    (hcontent : content (viewOf s') n = content (viewOf s) n ++
      List.replicate (offset - ((viewOf s).inode n).fileSize) 0 ++ buffer) :
    FilledGap s s' n buffer offset := by
  have hptr : ((viewOf s').inode n).ptr 0 ≠ 0 := h.ptr_ne_zero hn hstate (by omega)
  refine ⟨hsize, readsAs_of_content h hn hstate hcontent, fun k hk => ?_⟩
  have hheld : (viewOf s').held n (.data k) := by
    refine ⟨hn, ?_⟩
    rw [Inode.refers, blocks_file hstate hptr, hsize]
    omega
  exact ⟨h.inData hheld, fun m r hr he => h.own.inj m r n _ hr hheld he⟩

/-- **A write behind the end of a file fills the gap with NULs** when the fill loop stays in the
first block, or ends with the first pointer block. SRCLINE: sacio.c:152-246 -/
theorem fills_gap (h : Inv (viewOf s) none) (hn : (viewOf s).live n)
    (hstate : ((viewOf s).inode n).state = 1) (hoffset : ((viewOf s).inode n).fileSize < offset)
    (hpos : 0 < buffer.length)
    (hreach : GapInReach ((viewOf s).inode n) offset buffer.length) : FillsGap s n buffer offset := by
  obtain ⟨hwhere, hnext⟩ := hreach
  have hown := ownFile_of_core h.toCore hn hstate
  have hname := (h.node n hn).named
  have hwp : vwp (sacWrite .ilp32 n buffer (offset : ℤ)) (fun r w => r = buffer.length ∧
      Grown n (viewOf s) w ∧ (w.inode n).fileSize = offset + buffer.length ∧
      ∀ i < offset + buffer.length, byteAt w n i = if i < ((viewOf s).inode n).fileSize then
        byteAt (viewOf s) n i else writtenByte buffer offset i)
      (fun e _ => e.IsAlloc) (viewOf s) := by
    rcases hwhere with hfirst | ⟨hblock, hnone, hend, hover⟩
    · refine vwp_sacWrite hown hname (Or.inr hfirst) ⟨hnext, fun hlt => by omega⟩
        (fun w hw => ?_) fun e w he _ => he
      rw [min_eq_right hoffset.le] at hw
      have hsize := hw.size
      refine ⟨rfl, hw.grown, by omega, fun i hi => ?_⟩
      rw [hw.byte i (by omega)]
      by_cases hold : i < ((viewOf s).inode n).fileSize
      · rw [if_neg (by omega), if_pos hold]
      · rw [if_pos ⟨not_lt.mp hold, hi⟩, if_neg hold]
    · refine vwp_sacWrite_boundary hown hname hblock hnone hoffset hend hover hnext
        (fun u w hzeros hw => ?_) fun e w he => he
      have hsize := hzeros.size
      have hsize' := hw.size
      refine ⟨rfl, hzeros.grown.trans hw.grown, by omega, fun i hi => ?_⟩
      rw [hw.byte i (by omega), writtenByte]
      by_cases hbehind : offset ≤ i
      · rw [if_pos ⟨hbehind, hi⟩, if_neg (by omega), if_neg (by omega)]
      · rw [if_neg (by omega), hzeros.byte i (by omega)]
        by_cases hold : i < ((viewOf s).inode n).fileSize
        · rw [if_neg (by omega), if_pos hold]
        · rw [if_pos (by omega), if_neg hold, if_pos (by omega)]
  refine wp_mono (hwp s rfl) ?_ fun _ _ he => he
  rintro r s' ⟨rfl, hgrown, hsize, hbyte⟩
  exact ⟨rfl, filledGap_of_content (hgrown.core h.toCore) ((hgrown.live n).mpr hn)
    (hgrown.state.trans hstate) hsize hpos (content_filled hsize hoffset.le hbyte)⟩

/-- The statement for a file of one byte and an offset of ten. -/
theorem fills_gap_of_nine : ∃ (t : SacState) (n : ℕ), OneFile t n 1 ∧ FillsGap t n [7] 10 := by
  obtain ⟨n, -, t, -, -, ht, -⟩ := exists_oneFile [1] Nat.one_pos (by decide)
  have hoffset : ((viewOf t).inode n).fileSize < 10 := by
    rw [ht.size_eq]
    decide
  exact ⟨t, n, ht, fills_gap ht.toInv ht.live ht.state hoffset Nat.one_pos
    ⟨Or.inl (by decide), fun k hk _ => ht.noStray.nextInPlace hk⟩⟩

/-- **A file of 4097 bytes gets a size of 8192** from a write of one byte at offset 5000.
SRCLINE: sacio.c:183 -/
theorem gap_raises_size : ∃ (t : SacState) (n : ℕ) (s' : SacState), OneFile t n 4097 ∧
    sacWrite .ilp32 n [7] 5000 t = .ok 1 s' ∧ ((viewOf s').inode n).fileSize = 8192 ∧
    ¬ FillsGap t n [7] 5000 := by
  have hlen : (List.replicate 4097 (0 : UInt8)).length = 4097 := List.length_replicate
  obtain ⟨n, -, t, -, -, ht, hroom, -⟩ :=
    exists_oneFile (List.replicate 4097 0) (by omega) (by omega)
  rw [hlen] at ht
  have hsize := ht.size_eq
  have hwp := vwp_sacWrite_rounded [7] 5000 (ownFile_of_core ht.toCore ht.live ht.state)
    (ht.node n ht.live).named (by decide) (by omega) (by rw [hsize]; decide)
    (by rw [hsize]; decide)
  obtain ⟨r, s', hok, rfl, hrounded⟩ := exists_ok_of_wp (hwp t rfl) fun e s' he => by
    have hless : freeCount t.used 34 3000 < 4 := he.2
    omega
  have hraised : ((viewOf s').inode n).fileSize = 8192 := by rw [hrounded, hsize]
  refine ⟨t, n, s', ht, hok, hraised, fun hfills => ?_⟩
  have hfilled := (wp_of_ok (Q := fun r s' => r = 1 ∧ FilledGap t s' n [7] 5000) hfills hok).2
  have hwrong := hfilled.size
  rw [hraised] at hwrong
  exact absurd hwrong (by decide)

end Gap

end LinuseFs.Analysis
