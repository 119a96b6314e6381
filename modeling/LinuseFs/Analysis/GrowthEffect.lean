import LinuseFs.Analysis.TruncateEffect

/-!
# What a truncation to a longer file leaves

`sac_truncate` writes the letter A behind the end of the file.  When the file has stray pointers
this write goes wherever old slots of its pointer blocks lead, to pointer blocks and nodes too.
Even then the first or the last of the new bytes, if it can be read at all, is an A (`Lettered`):
the block of the first one is one of the file, and its slot is either kept, or overwritten by a
number of no block, or the last byte was written over it.
-/

set_option autoImplicit false

namespace LinuseFs.Analysis

open LinuseFs.Computation LinuseFs.Model LinuseFs.Interface

/-- From `s` to `s'` the file `n` was filled with NULs up to `len` bytes, and nothing else
changed. -/
structure FilledTo (s s' : SacState) (n len : ℕ) : Prop where
  size : ((viewOf s').inode n).fileSize = len
  reads : ReadsAs s' n
    (content (viewOf s) n ++ List.replicate (len - ((viewOf s).inode n).fileSize) 0)
  others : Others n (viewOf s) (viewOf s')

/-- The byte `i` of the node, if it can be read at all, is an A. -/
def Lettered (v : View) (nd : Inode) (i : ℕ) : Prop :=
  readBlock (v.dataBlock nd (i / 4096)) < 3000 →
    34 ≤ readBlock (v.dataBlock nd (i / 4096)) ∧
      v.data (readBlock (v.dataBlock nd (i / 4096))) (i % 4096) = 65

/-- The file in memory has its byte `a` in block `b`, through the pointer block `p`, and its
pointers are good up to its size. -/
structure Marked (a b p : ℕ) (node : Node) (v : View) : Prop where
  fits : (inodeOfNode node).Fits
  named : (inodeOfNode node).name.isSome
  inData : v.InData b
  inData_ptr : v.InData p
  ne : p ≠ b
  ptr : node.indirectPointerBlock (a / 4096 / 1024) = p
  only : ∀ i, node.indirectPointerBlock i = p → i = a / 4096 / 1024
  noData : ∀ i, node.indirectPointerBlock i ≠ b
  region : ∀ i, node.indirectPointerBlock i ≠ 0 →
    34 ≤ node.indirectPointerBlock i ∧ node.indirectPointerBlock i < 3000
  reach : ∀ i ≤ node.fileSize / 4096 / 1024, node.indirectPointerBlock i ≠ 0
  size : a ≤ node.fileSize
  small : node.fileSize < 2 ^ 31

section Wild

variable {v w : View} {n a b p : ℕ} {node : Node}

theorem Marked.used (h : Marked a b p node v) (hw : ∀ c, v.used c = true → w.used c = true) :
    Marked a b p node w where
  fits := h.fits
  named := h.named
  inData := ⟨h.inData.1, h.inData.2.1, hw b h.inData.2.2⟩
  inData_ptr := ⟨h.inData_ptr.1, h.inData_ptr.2.1, hw p h.inData_ptr.2.2⟩
  ne := h.ne
  ptr := h.ptr
  only := h.only
  noData := h.noData
  region := h.region
  reach := h.reach
  size := h.size
  small := h.small

/-- INTERNAL: a longer file, if it has pointers for it. -/
theorem Marked.resize (h : Marked a b p node v) {S : ℕ} (hS : node.fileSize ≤ S)
    (hsmall : S < 2 ^ 31) (hreach : ∀ i ≤ S / 4096 / 1024, node.indirectPointerBlock i ≠ 0) :
    Marked a b p { node with fileSize := S } v where
  fits :=
    { h.fits with
      fileSize := by
        change S < 2 ^ 32
        omega }
  named := h.named
  inData := h.inData
  inData_ptr := h.inData_ptr
  ne := h.ne
  ptr := h.ptr
  only := h.only
  noData := h.noData
  region := h.region
  reach := hreach
  size := h.size.trans hS
  small := hsmall

/-- INTERNAL: one more pointer block, behind that of the byte. -/
theorem Marked.link (h : Marked a b p node v) {l y : ℕ} (hl : a / 4096 / 1024 < l)
    (hl' : l < 1000) (hy : 34 ≤ y) (hy' : y < 3000) (hyp : y ≠ p) (hyb : y ≠ b) :
    Marked a b p
      { node with indirectPointerBlock := Function.update node.indirectPointerBlock l y } v := by
  have hptr : ∀ i, Function.update node.indirectPointerBlock l y i =
      if i = l then y else node.indirectPointerBlock i := by
    intro i
    rw [Function.update_apply]
  refine ⟨⟨h.fits.1, h.fits.2, h.fits.3, h.fits.4, fun i => ?_, fun i hi => ?_⟩, h.named,
    h.inData, h.inData_ptr, h.ne, ?_, fun i hi => ?_, fun i => ?_, fun i => ?_, fun i hi => ?_,
    h.size, h.small⟩
  · change Function.update node.indirectPointerBlock l y i < 2 ^ 32
    rw [hptr]
    split
    · omega
    · exact h.fits.ptr i
  · change Function.update node.indirectPointerBlock l y i = 0
    rw [hptr, if_neg (by omega)]
    exact h.fits.ptr_past i hi
  · dsimp only
    rw [hptr, if_neg (by omega), h.ptr]
  · dsimp only at hi
    rw [hptr] at hi
    split at hi
    · exact absurd hi hyp
    · exact h.only i hi
  · dsimp only
    rw [hptr]
    split
    · exact hyb
    · exact h.noData i
  · dsimp only
    rw [hptr]
    split
    · exact fun _ => ⟨hy, hy'⟩
    · exact h.region i
  · dsimp only
    rw [hptr]
    split
    · omega
    · exact h.reach i hi

/-- INTERNAL: **the next block** leaves the block of the byte and its slot. SRCLINE: node.c:85-127 -/
theorem vwp_addDataBlockToNode_marked {Q : Node → View → Prop} (h : Marked a b p node v)
    (hQ : ∀ node' w, Marked a b p node' w → node'.fileSize = node.fileSize →
      (∀ i ≤ (node.fileSize / 4096 + 1) / 1024, node'.indirectPointerBlock i ≠ 0) →
      w.data b = v.data b →
      (∀ i < 4, w.data p (a / 4096 % 1024 * 4 + i) = v.data p (a / 4096 % 1024 * 4 + i)) →
      Q node' w) :
    vwp (addDataBlockToNode node) Q (fun _ _ => True) v := by
  obtain ⟨hle, hleading, hend⟩ := leadingPointers_spec node
  have hsize := h.size
  have hsmall := h.small
  have hpast : node.fileSize / 4096 / 1024 < node.leadingPointers := by
    by_contra hnot
    exact h.reach _ (not_lt.mp hnot) (hend (by omega))
  have hdiv := Nat.div_le_div_right (c := 4096) hsize
  unfold addDataBlockToNode
  dsimp only [blockSize]
  by_cases hroom : node.fileSize / 4096 + 1 < 1024 * node.leadingPointers
  · rw [if_pos hroom]
    obtain ⟨hq, hq'⟩ := h.region _ (hleading (node.leadingPointers - 1) (by omega))
    refine vwp_bind (vwp_createDataBlockInPointerBlock (by omega) (by omega) hq hq'
      (fun x _ _ _ _ => vwp_pure ?_) fun _ _ _ => trivial)
    refine hQ node _ (h.used fun c hc => View.used_setUsed_true hc) rfl
      (fun i hi => hleading i (by omega)) ?_ ?_
    · rw [setSlot_data_ne (h.noData _).symm, View.setUsed_data]
    · intro i hi
      by_cases hsame : node.indirectPointerBlock (node.leadingPointers - 1) = p
      · -- the new number is stored behind the slot of the byte
        have hlast := h.only _ hsame
        rw [hsame, setSlot, View.setData_same, View.setUsed_data, memcpy_outside (by omega)]
      · rw [setSlot_data_ne (Ne.symm hsame), View.setUsed_data]
  · rw [if_neg hroom]
    have hp := h.inData_ptr.2.2
    have hb := h.inData.2.2
    refine vwp_bind (vwp_createPointersBlockInNode (by omega) (fun y hy hy' hfree _ => ?_)
      fun _ _ _ => trivial)
    have hyp : y ≠ p := by
      rintro rfl
      rw [hp] at hfree
      cases hfree
    have hyb : y ≠ b := by
      rintro rfl
      rw [hb] at hfree
      cases hfree
    have hlinked := h.link (l := node.leadingPointers) (by omega) (by omega) hy hy' hyp hyb
    dsimp only
    have hself : Function.update node.indirectPointerBlock node.leadingPointers y
        node.leadingPointers = y := Function.update_self ..
    refine vwp_bind (vwp_createDataBlockInPointerBlock (by omega) (by decide)
      (by dsimp only; omega) (by dsimp only; omega) (fun x _ _ _ _ => vwp_pure ?_)
      fun _ _ _ => trivial)
    dsimp only
    rw [hself]
    refine hQ _ _ (hlinked.used fun c hc => View.used_setUsed_true (View.used_setUsed_true hc)) rfl
      (fun i hi => ?_) ?_ fun i hi => ?_
    · dsimp only
      rw [Function.update_apply]
      split
      · omega
      · exact hleading i (by omega)
    · rw [setSlot_data_ne (Ne.symm hyb), View.setUsed_data, View.setUsed_data]
    · rw [setSlot_data_ne (Ne.symm hyp), View.setUsed_data, View.setUsed_data]

/-- The slot of the byte `a` leads to its block, and the byte is an A; or the slot is overwritten
with A's, which is the number of no block. -/
def Marker (a b p : ℕ) (v : View) : Prop :=
  (v.slot p (a / 4096 % 1024) = b ∧ v.data b (a % 4096) = 65) ∨
    ∀ i < 4, v.data p (a / 4096 % 1024 * 4 + i) = 65

theorem Marker.congr (h : Marker a b p v) (hb : w.data b = v.data b)
    (hp : ∀ i < 4, w.data p (a / 4096 % 1024 * 4 + i) = v.data p (a / 4096 % 1024 * 4 + i)) :
    Marker a b p w := by
  rcases h with ⟨hslot, hbyte⟩ | hover
  · left
    exact ⟨(leNat_congr hp).trans hslot, by rw [hb]; exact hbyte⟩
  · right
    intro i hi
    rw [hp i hi, hover i hi]

/-- INTERNAL: the byte is an A, or cannot be read. -/
theorem Marker.lettered (h : Marker a b p v) (hm : Marked a b p node v) :
    Lettered v (inodeOfNode node) a := by
  have hblock : v.dataBlock (inodeOfNode node) (a / 4096) = v.slot p (a / 4096 % 1024) := by
    rw [View.dataBlock]
    exact congrArg (v.slot · _) hm.ptr
  intro hlt
  rw [hblock] at hlt ⊢
  rcases h with ⟨hslot, hbyte⟩ | hover
  · rw [hslot, readBlock_of_lt hm.inData.2.1]
    exact ⟨hm.inData.1, hbyte⟩
  · have hnumber : v.slot p (a / 4096 % 1024) = leNat (fun _ => 65) 0 4 := leNat_congr fun i hi => by
      rw [hover i hi]
    rw [hnumber] at hlt
    exact absurd hlt (by decide)

/-- INTERNAL: A's that are stored over the whole slot, or beside the pointer block. -/
theorem Marker.store (h : Marker a b p v) (hm : Marked a b p node v) {x len : ℕ} {src : Bytes}
    (hsrc : ∀ i < len, src i = 65) (hwhole : x = p → a / 4096 % 1024 * 4 + 4 ≤ len)
    (hdata : ∀ c, 34 ≤ c → c < 3000 → w.data c =
      if c = x then memcpy (v.data c) 0 src len else v.data c) : Marker a b p w := by
  obtain ⟨hb, hb', -⟩ := hm.inData
  obtain ⟨hp, hp', -⟩ := hm.inData_ptr
  by_cases hx : x = p
  · right
    intro i hi
    have hlen := hwhole hx
    rw [hdata p hp hp', if_pos hx.symm, memcpy_zero_inside (by omega), hsrc _ (by omega)]
  · have hslot : w.data p = v.data p := by rw [hdata p hp hp', if_neg (Ne.symm hx)]
    rcases h with ⟨hslot', hbyte⟩ | hover
    · left
      rw [View.slot, hslot, hdata b hb hb']
      refine ⟨hslot', ?_⟩
      split
      · by_cases hin : a % 4096 < len
        · rw [memcpy_zero_inside hin, hsrc _ hin]
        · rw [memcpy_outside (by omega), hbyte]
      · exact hbyte
    · right
      rw [hslot]
      exact hover

/-- What the write leaves: the first or the last byte of the new ones is an A, or cannot be
read. -/
structure Spelled (a b p e : ℕ) (node : Node) (v : View) : Prop extends Marked a b p node v where
  end_eq : node.fileSize = e
  lettered : Lettered v (inodeOfNode node) a ∨ Lettered v (inodeOfNode node) (e - 1)

theorem padding_getD {count i : ℕ} (hi : i < count) : (padding count).getD i 0 = 65 := by
  rw [padding, List.getD_eq_getElem _ _ (by rw [List.length_replicate]; exact hi),
    List.getElem_replicate]

/-- INTERNAL: the loop ends. -/
theorem vwp_escribirBuffer_done {Q : Node → View → Prop} {count : ℕ} {offset orig : ℤ}
    {rounds bloque byte enBloque : ℕ} (hQ : Q node v) :
    vwp (escribirBuffer .ilp32 (padding count) offset orig rounds node bloque byte count enBloque)
      Q (fun _ _ => True) v := by
  have hlen : (padding count).length = count := List.length_replicate
  cases rounds with
  | zero => exact vwp_throw trivial
  | succ rounds =>
    rw [escribirBuffer_done (Nat.succ_ne_zero _) hlen.le]
    exact vwp_pure hQ

/-- INTERNAL: **the rounds behind the first block**, wherever their stores go; the induction is on
the rounds that are left. SRCLINE: sacio.c:204-242 -/
theorem vwp_escribirBuffer_wild {Q : Node → View → Prop} {count : ℕ} (hsmall : a + count < 2 ^ 31)
    (hQ : ∀ node w, Spelled a b p (a + count) node w → Q node w) (rounds : ℕ) :
    ∀ (node : Node) (v : View) (j e : ℕ), Marked a b p node v → Marker a b p v → a / 4096 < j →
      node.fileSize = j * 4096 → a + e = j * 4096 → e ≤ count →
      vwp (escribirBuffer .ilp32 (padding count) (a : ℤ) (a : ℤ) rounds node j 0 e 0) Q
        (fun _ _ => True) v := by
  have hlen : (padding count).length = count := List.length_replicate
  induction rounds with
  | zero => exact fun _ _ _ _ _ _ _ _ _ _ => vwp_throw trivial
  | succ rounds ih =>
    intro node v j e hm hmark hj hsize hwritten he
    obtain rfl | hlt := he.eq_or_lt
    · exact vwp_escribirBuffer_done
        (hQ node v ⟨hm, by omega, Or.inl (hmark.lettered hm)⟩)
    have hptr := hm.reach (j / 1024) (by omega)
    obtain ⟨hq, hq'⟩ := hm.region _ hptr
    unfold escribirBuffer
    rw [hlen, if_pos hlt]
    refine vwp_bind (vwp_getDataBlockFromNode_mapped (Or.inl rfl) (by omega) hq hq' ?_)
    generalize hx : readBlock (v.dataBlock (inodeOfNode node) j) = x
    simp only [blockSize, Nat.sub_zero, Nat.zero_add]
    generalize hround : min (count - e) 4096 = len
    have hsrc : ∀ i < len, (padding count).getD (e + i) 0 = 65 := by
      intro i hi
      exact padding_getD (by omega)
    refine vwp_bind (vwp_store_anywhere fun w hxlt hused hdata => ?_)
    have hm' : Marked a b p node w := hm.used fun c hc => by rw [hused]; exact hc
    have hgrows : (a : ℤ) + ((e + len : ℕ) : ℤ) > a := by omega
    have hsum : (a : ℤ) + ((e + len : ℕ) : ℤ) = ((a + (e + len) : ℕ) : ℤ) := by omega
    have hu32 : u32 ((a : ℤ) + ((e + len : ℕ) : ℤ)) = a + (e + len) := by
      rw [hsum]
      exact u32_natCast_of_lt (by omega)
    by_cases hfull : len = 4096
    · rw [if_pos ⟨hfull, by omega⟩]
      have hmark' : Marker a b p w := hmark.store hm hsrc (fun _ => by omega) hdata
      refine vwp_bind (vwp_addDataBlockToNode_marked hm' fun node' w' hm'' hfs hreach hb hp => ?_)
      rw [if_pos hgrows, hu32]
      have hnext : (a + (e + len)) / 4096 / 1024 = (node.fileSize / 4096 + 1) / 1024 := by omega
      refine ih _ w' (j + 1) (e + len) (hm''.resize (by omega) (by omega) ?_) (hmark'.congr hb hp)
        (by omega) ?_ (by omega) (by omega)
      · rw [hnext]
        exact hreach
      · change a + (e + len) = (j + 1) * 4096
        omega
    · -- the last round
      have hlast : e + len = count := by omega
      rw [if_neg fun hk => hfull hk.1, if_pos hgrows, hu32, hlast]
      have hend : (a + count) / 4096 = node.fileSize / 4096 := by omega
      have hm'' : Marked a b p { node with fileSize := a + count } w := by
        apply hm'.resize (by omega) hsmall
        rw [hend]
        exact hm.reach
      refine vwp_escribirBuffer_done (hQ _ w ⟨hm'', rfl, ?_⟩)
      by_cases hcut : x = p ∧ len < a / 4096 % 1024 * 4 + 4
      · right
        obtain ⟨hxp, hcut⟩ := hcut
        have hdiv : (a + count - 1) / 4096 = j := by omega
        have hmod : (a + count - 1) % 4096 = len - 1 := by omega
        have hblock : w.dataBlock (inodeOfNode { node with fileSize := a + count }) j =
            v.dataBlock (inodeOfNode node) j := by
          change w.slot (node.indirectPointerBlock (j / 1024)) (j % 1024) =
            v.slot (node.indirectPointerBlock (j / 1024)) (j % 1024)
          rw [View.slot, hdata _ hq hq', View.slot]
          split
          next hsame =>
            -- the slot of this block is behind that of the byte
            have hone := hm.only _ (hsame.trans hxp)
            exact leNat_memcpy_outside (by omega)
          next => rfl
        intro _
        obtain ⟨hp, hp', -⟩ := hm.inData_ptr
        rw [hdiv, hmod, hblock, hx, hxp]
        refine ⟨hp, ?_⟩
        rw [hdata p hp hp', if_pos hxp.symm, memcpy_zero_inside (by omega), hsrc _ (by omega)]
      · left
        have hmark' : Marker a b p w := by
          refine hmark.store hm hsrc (fun hxp => ?_) hdata
          by_contra hnot
          exact hcut ⟨hxp, not_le.mp hnot⟩
        exact hmark'.lettered hm''

/-- INTERNAL: the end of a well-formed file is marked. -/
theorem marked_of_core (h : Core (v.setInode n (inodeOfNode node))) (hn : v.live n)
    (hstate : node.state = 1) (hptr : node.indirectPointerBlock 0 ≠ 0)
    (hsmall : node.fileSize < 2 ^ 31) :
    Marked node.fileSize (v.dataBlock (inodeOfNode node) (node.fileSize / 4096))
      (node.indirectPointerBlock (node.fileSize / 4096 / 1024)) node v := by
  generalize hV : v.setInode n (inodeOfNode node) = V at h
  have hVinode : V.inode n = inodeOfNode node := by rw [← hV, View.setInode_same]
  have hVn : V.live n := by rw [← hV]; exact hn
  have hnode := h.node n hVn
  rw [hVinode] at hnode
  have hreach := (hnode.file hstate).ptr hptr
  have hplace : ∀ i, V.place n (.ptr i) = node.indirectPointerBlock i := by
    intro i
    rw [View.place, hVinode]
    rfl
  have hplaceData : V.place n (.data (node.fileSize / 4096)) =
      v.dataBlock (inodeOfNode node) (node.fileSize / 4096) := by
    rw [View.place, hVinode, ← hV]
    rfl
  have hheld : ∀ i, node.indirectPointerBlock i ≠ 0 → V.held n (.ptr i) := by
    intro i hi
    refine ⟨hVn, ?_⟩
    rw [hVinode]
    exact hi
  have hdata : V.held n (.data (node.fileSize / 4096)) := by
    refine ⟨hVn, ?_⟩
    rw [Inode.refers, hVinode, @blocks_file (inodeOfNode node) hstate hptr]
    exact Nat.lt_succ_self _
  have hused : V.used = v.used := by rw [← hV]; rfl
  have hlast := hheld _ (hreach _ le_rfl)
  have hin := h.inData hdata
  have hinPtr := h.inData hlast
  rw [hplaceData, View.InData, hused] at hin
  rw [hplace, View.InData, hused] at hinPtr
  refine ⟨hnode.fits, hnode.named, hin, hinPtr, fun e => ?_, rfl, fun i hi => ?_, fun i hi => ?_,
    fun i hi => ?_, hreach, le_rfl, hsmall⟩
  · rw [← hplace, ← hplaceData] at e
    cases (h.own.inj n _ n _ hlast hdata e).2
  · have hi0 : node.indirectPointerBlock i ≠ 0 := hi ▸ hreach _ le_rfl
    rw [← hplace, ← hplace] at hi
    exact Ref.ptr.inj (h.own.inj n _ n _ (hheld i hi0) hlast hi).2
  · have hi0 : node.indirectPointerBlock i ≠ 0 := by
      rw [hi]
      omega
    rw [← hplace, ← hplaceData] at hi
    cases (h.own.inj n _ n _ (hheld i hi0) hdata hi).2
  · have := h.inData (hheld i hi)
    rw [hplace] at this
    exact ⟨this.1, this.2.1⟩

/-- INTERNAL: **the copy loop behind the end of a well-formed file.** SRCLINE: sacio.c:204-242 -/
theorem vwp_escribirBuffer_padding {Q : Node → View → Prop} {count : ℕ}
    (h : Core (v.setInode n (inodeOfNode node))) (hn : v.live n) (hstate : node.state = 1)
    (hptr : node.indirectPointerBlock 0 ≠ 0) (hpos : 0 < count)
    (hsmall : node.fileSize + count < 2 ^ 31)
    (hQ : ∀ b p node' w, Spelled node.fileSize b p (node.fileSize + count) node' w → Q node' w)
    (rounds : ℕ) :
    vwp (escribirBuffer .ilp32 (padding count) (node.fileSize : ℤ) (node.fileSize : ℤ) rounds node
      (node.fileSize / 4096) (node.fileSize % 4096) 0 0) Q (fun _ _ => True) v := by
  have hm := marked_of_core h hn hstate hptr (by omega)
  generalize hb : v.dataBlock (inodeOfNode node) (node.fileSize / 4096) = b at hm
  generalize hp : node.indirectPointerBlock (node.fileSize / 4096 / 1024) = p at hm
  generalize ha : node.fileSize = a at *
  have hlen : (padding count).length = count := List.length_replicate
  obtain ⟨hb34, hb3000, -⟩ := hm.inData
  cases rounds with
  | zero => exact vwp_throw trivial
  | succ rounds =>
    unfold escribirBuffer
    rw [hlen, if_pos hpos]
    obtain ⟨hp34, hp3000, -⟩ := hm.inData_ptr
    rw [← hp] at hp34 hp3000
    refine vwp_bind (vwp_getDataBlockFromNode (Or.inl rfl) (by omega) hp34 hp3000
      (by rw [hb]; exact hb3000) ?_)
    rw [hb]
    simp only [blockSize, Nat.sub_zero, Nat.add_zero, Nat.zero_add]
    generalize hround : min count (4096 - a % 4096) = len
    have hsrc : ∀ i < len, (padding count).getD i 0 = 65 := fun i hi => padding_getD (by omega)
    refine vwp_bind (vwp_store_anywhere fun w _ hused hdata => ?_)
    have hm' : Marked a b p node w := hm.used fun c hc => by rw [hused]; exact hc
    have hmark : Marker a b p w := by
      left
      obtain ⟨hp34, hp3000, -⟩ := hm.inData_ptr
      constructor
      · rw [View.slot, hdata p hp34 hp3000, if_neg hm.ne, ← hb, ← hp]
        rfl
      · have hfirst := @memcpy_inside (v.data b) (fun i => (padding count).getD i 0) (a % 4096) len 0
          (by omega)
        rw [hdata b hb34 hb3000, if_pos rfl]
        exact hfirst.trans (hsrc 0 (by omega))
    have hgrows : (a : ℤ) + ((len : ℕ) : ℤ) > a := by omega
    have hsum : (a : ℤ) + ((len : ℕ) : ℤ) = ((a + len : ℕ) : ℤ) := by omega
    have hu32 : u32 ((a : ℤ) + ((len : ℕ) : ℤ)) = a + len := by
      rw [hsum]
      exact u32_natCast_of_lt (by omega)
    by_cases hfull : len = 4096 - a % 4096
    · rw [if_pos ⟨hfull, by omega⟩]
      refine vwp_bind (vwp_addDataBlockToNode_marked hm' fun node' w' hm'' hfs hreach hkept hp => ?_)
      rw [if_pos hgrows, hu32]
      have hnext : (a + len) / 4096 / 1024 = (node.fileSize / 4096 + 1) / 1024 := by omega
      refine vwp_escribirBuffer_wild (p := p) (b := b) hsmall (fun node w hs => hQ b p node w hs)
        rounds _ w' (a / 4096 + 1) len (hm''.resize (by omega) (by omega) ?_)
        (hmark.congr hkept hp) (Nat.lt_succ_self _) ?_ (by omega) (by omega)
      · rw [hnext]
        exact hreach
      · change a + len = (a / 4096 + 1) * 4096
        omega
    · have hlast : len = count := by omega
      rw [if_neg fun hk => hfull hk.1, if_pos hgrows, hu32, hlast]
      have hend : (a + count) / 4096 = node.fileSize / 4096 := by omega
      have hm'' : Marked a b p { node with fileSize := a + count } w := by
        apply hm'.resize (by omega) hsmall
        rw [hend]
        exact hm.reach
      exact vwp_escribirBuffer_done (hQ b p _ w ⟨hm'', rfl, Or.inl (hmark.lettered hm'')⟩)

/-- INTERNAL: **`sac_write` of A's behind the end of a file.** SRCLINE: sacio.c:152-246 -/
theorem vwp_sacWrite_padding {count : ℕ} (h : Inv v none) (hn : v.live n)
    (hstate : (v.inode n).state = 1) (hpos : 0 < count)
    (hsmall : (v.inode n).fileSize + count < 2 ^ 31) :
    vwp (sacWrite .ilp32 n (padding count) ((v.inode n).fileSize : ℤ))
      (fun _ w => ∃ b p node, w.inode n = inodeOfNode node ∧
        Spelled (v.inode n).fileSize b p ((v.inode n).fileSize + count) node w)
      (fun _ _ => True) v := by
  generalize ha : (v.inode n).fileSize = a at hsmall ⊢
  have hdiv : u32 ((a : ℤ).tdiv (blockSize : ℕ)) = a / 4096 := by
    rw [Int.tdiv_eq_ediv_of_nonneg (by omega), ← Int.natCast_ediv]
    exact u32_natCast_of_lt (show a / 4096 < 2 ^ 32 by omega)
  have hmod : u32 ((a : ℤ).tmod (blockSize : ℕ)) = a % 4096 := by
    rw [Int.tmod_eq_emod_of_nonneg (by omega), ← Int.natCast_emod]
    exact u32_natCast_of_lt (show a % 4096 < 2 ^ 32 by omega)
  have hi32 : i32 (a : ℤ) = a := i32_of_lt (by omega)
  have hu32 : u32 (a : ℤ) = a := u32_natCast_of_lt (by omega)
  unfold sacWrite
  refine vwp_bind (vwp_readNode hn.1 (h.node n hn).named fun file hfile => ?_)
  have hself : v.setInode n (inodeOfNode file) = v := by rw [hfile, View.setInode_self]
  have hfs : file.fileSize = a := by
    rw [← hfile] at ha
    exact ha
  dsimp only
  refine vwp_primerBloque (n := n) (a := a)
    (by rw [hself]; exact ownFile_of_core h.toCore hn hstate) (by omega) (fun _ => 0)
    (fun node₁ v₁ hptr₁ _ _ hwritten => ?_) fun _ _ _ _ _ => trivial
  rw [hself] at hwritten
  have hinode₁ := View.setInode_same (v := v₁) n (inodeOfNode node₁)
  have hn₁ : v₁.live n := (hwritten.grown.live n).mpr hn
  have hsize₁ := hwritten.size
  have hstate₁ := hwritten.grown.state
  rw [hinode₁, ha, max_self] at hsize₁
  rw [hinode₁, hstate] at hstate₁
  have hsize₁' : node₁.fileSize = a := hsize₁
  rw [hdiv, hmod, hi32, hu32]
  -- there is nothing to fill up
  have hfilled : completarOffset .ilp32 (a + 1) node₁ (a : ℤ) = pure node₁ := by
    unfold completarOffset
    rw [hu32, if_neg (by omega)]
  rw [hfilled]
  refine vwp_bind (vwp_pure ?_)
  rw [hsize₁', hi32]
  subst hsize₁'
  refine vwp_bind (vwp_escribirBuffer_padding (hwritten.grown.core h.toCore) hn₁ hstate₁ hptr₁ hpos hsmall
    (fun b p node w hs => ?_) _)
  refine vwp_bind (vwp_unmapAndDestroyNode hn.1 hs.fits (vwp_pure ?_))
  exact ⟨b, p, node, View.setInode_same .., hs.toMarked.used fun _ hc => hc, hs.end_eq,
    hs.lettered⟩

/-- INTERNAL: **the byte does not read as a NUL.** SRCLINE: sacio.c:248-313 -/
theorem vwp_sacRead_lettered {i : ℕ} (hn : n < 32) (hnode : v.inode n = inodeOfNode node)
    (hm : Marked a b p node v) (hi : i < node.fileSize)
    (hletter : Lettered v (inodeOfNode node) i) :
    vwp (sacRead .ilp32 n 1 (i : ℤ)) (fun r _ => r ≠ (1, [0])) (fun _ _ => True) v := by
  have hsmall := hm.small
  have hptr := hm.reach (i / 4096 / 1024) (Nat.div_le_div_right (Nat.div_le_div_right hi.le))
  obtain ⟨hq, hq'⟩ := hm.region _ hptr
  have hblock : (v.inode n).ptr (i / 4096 / 1024) = node.indirectPointerBlock (i / 4096 / 1024) := by
    rw [hnode]
    rfl
  have hdiv : u32 ((i : ℤ).tdiv (blockSize : ℕ)) = i / 4096 := by
    rw [Int.tdiv_eq_ediv_of_nonneg (by omega), ← Int.natCast_ediv]
    exact u32_natCast_of_lt (show i / 4096 < 2 ^ 32 by omega)
  have hmod : (i : ℤ).tmod (blockSize : ℕ) = (i % 4096 : ℕ) := by
    rw [Int.tmod_eq_emod_of_nonneg (by omega)]
    rfl
  unfold sacRead
  refine vwp_bind (vwp_readNode hn (by rw [hnode]; exact hm.named) fun copy hcopy => ?_)
  have hfs : copy.fileSize = node.fileSize := by
    rw [hnode] at hcopy
    exact congrArg Inode.fileSize hcopy
  rw [← hcopy] at hblock
  have hptr' : copy.indirectPointerBlock (i / 4096 / 1024) =
    node.indirectPointerBlock (i / 4096 / 1024) := hblock
  -- what is returned without reading is no NUL
  have hback : ∀ {r : ℕ × List UInt8}, r ≠ (1, [0]) →
      vwp (unmapAndDestroyNode copy (2 + n) >>= fun _ => pure r)
        (fun r (_ : View) => r ≠ (1, [0])) (fun _ _ => True) v := by
    intro r hr
    exact vwp_bind_of (vwp_anything _) (fun _ _ _ => trivial) fun _ _ _ => vwp_pure hr
  dsimp only
  by_cases hstate : copy.state ≠ 1
  · rw [if_pos hstate]
    exact hback (by simp)
  rw [if_neg hstate]
  by_cases hnone : copy.indirectPointerBlock 0 = 0
  · rw [if_pos hnone]
    exact hback (by simp)
  rw [if_neg hnone, i32_of_lt (n := i) (by omega), hfs, i32_of_lt (n := node.fileSize) (by omega),
    if_neg (by omega), hdiv, hmod]
  have hone := @count_cut .ilp32 1 i node.fileSize hi hsmall (by decide) fun _ => by omega
  rw [hone, min_eq_left (by omega)]
  refine vwp_bind (vwp_getDataBlockFromNode_mapped (Or.inl rfl) (by omega) (hptr' ▸ hq)
    (hptr' ▸ hq') ?_)
  rw [hcopy, hnode]
  generalize hx : readBlock (v.dataBlock (inodeOfNode node) (i / 4096)) = x
  unfold Lettered at hletter
  rw [hx] at hletter
  unfold leerBloques
  rw [if_pos Nat.one_pos]
  dsimp only
  rw [hfs, datosALeer_eq (Nat.mod_lt _ (by decide)) (by decide) Nat.one_pos (by omega) (by omega)]
  have hmin : min (1 - 0) (4096 - i % 4096) = 1 := by omega
  rw [hmin, if_neg (by omega), Int.toNat_natCast, Int.toNat_natCast]
  refine vwp_bind (vwp_bind (vwp_load_anywhere fun bytes hbytes hx' => ?_))
  obtain ⟨hx34, hletter⟩ := hletter hx'
  have hbyte : bytes 0 = 65 := by
    rw [hbytes hx34 0]
    exact hletter
  have hread : ∀ k : ℕ, (k, [] ++ (List.range 1).map bytes) ≠ (1, [0]) := by
    intro k e
    have hlist : [bytes 0] = [0] := congrArg Prod.snd e
    rw [hbyte] at hlist
    exact absurd hlist (by decide)
  split
  · exact vwp_pure (hback (hread _))
  · rw [if_neg (lt_irrefl 1)]
    unfold leerBloques
    rw [if_neg (lt_irrefl 1)]
    exact vwp_pure (hback (hread _))

end Wild

section Growing

variable {s : SacState} {path : CString} {n len : ℕ}

/-- INTERNAL: what `sac_truncate` leaves of a shorter file, if it returns. -/
theorem vwp_sacTruncate_padding {v : View} {d : ℕ} {name : List UInt8} (h : Inv v none)
    (ht : Target v path d name) (hlookup : v.tree.lookup d name = some n)
    (hstate : (v.inode n).state = 1) (hlt : (v.inode n).fileSize < len) (hlen : len < 2 ^ 31) :
    vwp (sacTruncate .ilp32 path (len : ℤ)) (fun _ w => ∃ b p node, w.inode n = inodeOfNode node ∧
      Spelled (v.inode n).fileSize b p len node w) (fun _ _ => True) v := by
  have hn := (parentBlock_of_lookup h (ht.live h) hlookup).1
  have hthis : ∀ m, v.tree.lookup d name = some m → m = n := by
    intro m hm
    rw [hlookup] at hm
    exact (Option.some.inj hm).symm
  apply vwp_sacTruncate_of_write h ht (by omega) (fun hno => absurd hstate (hno n hlookup))
  · intro m count hm _ hcount hpos
    obtain rfl := hthis m hm
    obtain rfl : (v.inode m).fileSize + count = len := by omega
    exact vwp_sacWrite_padding h hn hstate hpos hlen
  · intro m w hm _ hle _ _
    rw [hthis m hm] at hle
    omega

/-- **Growing a file by a truncation never fills it with NULs.** SRCLINE: sacio.c:516-533 -/
theorem grows_without_zeros (h : Inv (viewOf s) none)
    (hpath : isValidPath path.val = true ∧ path.val ≠ [slash])
    (hfound : leadsTo s (stringSplit path.val) = some n)
    (hstate : ((viewOf s).inode n).state = 1) (hlt : ((viewOf s).inode n).fileSize < len)
    (hlen : len < 2 ^ 31) :
    ¬ ∃ r s', sacTruncate .ilp32 path (len : ℤ) s = .ok r s' ∧ FilledTo s s' n len := by
  rintro ⟨r, s', hok, hfilled⟩
  obtain ⟨d, ht, hlookup⟩ := exists_target_of_found hpath hfound
  have hn := (parentBlock_of_lookup h (ht.live h) hlookup).1
  obtain ⟨b, p, node, hnode, hspelled⟩ :=
    wp_of_ok (Q := fun _ t => ∃ b p node, (viewOf t).inode n = inodeOfNode node ∧
      Spelled ((viewOf s).inode n).fileSize b p len node (viewOf t))
    (vwp_sacTruncate_padding h ht hlookup hstate hlt hlen s rfl) hok
  -- a byte from the old end on reads as a NUL, so it is no A
  have hzero : ∀ i, ((viewOf s).inode n).fileSize ≤ i → i < len →
      ¬ Lettered (viewOf s') (inodeOfNode node) i := by
    intro i hi hi' hletter
    obtain ⟨s'', hread⟩ := hfilled.reads 1 i Nat.one_pos (by
      rw [List.length_append, length_content, List.length_replicate]
      omega)
    have hnul : ((content (viewOf s) n ++
        List.replicate (len - ((viewOf s).inode n).fileSize) 0).drop i).take 1 = [0] := by
      have hone : min 1 (len - ((viewOf s).inode n).fileSize -
          (i - ((viewOf s).inode n).fileSize)) = 1 := by omega
      rw [List.drop_append, List.drop_eq_nil_of_le (by rw [length_content]; exact hi),
        List.nil_append, List.drop_replicate, List.take_replicate, length_content, hone]
      rfl
    rw [hnul] at hread
    have hbound : i < node.fileSize := by
      rw [hspelled.end_eq]
      exact hi'
    exact wp_of_ok (Q := fun r _ => r ≠ (1, [0]))
      (vwp_sacRead_lettered hn.1 hnode hspelled.toMarked hbound hletter s' rfl) hread rfl
  rcases hspelled.lettered with hfirst | hlast
  · exact hzero _ le_rfl hlt hfirst
  · exact hzero _ (by omega) (by omega) hlast

/-- The statement for an empty file on a new disk and one byte. -/
theorem grows_without_zeros_new_disk : ∃ (n : ℕ) (s : SacState),
    sacOpen aPath newDisk = .ok (n : ℤ) s ∧
    ¬ ∃ r s', sacTruncate .ilp32 aPath 1 s = .ok r s' ∧ FilledTo s s' n 1 := by
  have hfresh := fresh_of_formatted formatted_newDisk
  obtain ⟨n, s, hopen, hnew, hplain, -⟩ := exists_newNode aPath hfresh.plain rfl
    (by decide) (by decide) (by decide) (hfresh.leadsTo_eq_none (by decide)) hfresh.spare
  refine ⟨n, s, hopen, ?_⟩
  exact @grows_without_zeros _ aPath n 1 hplain.toInv (by decide) hnew.found hnew.state_eq
    (by rw [hnew.empty.1]; exact Nat.one_pos) (by decide)

/-- **An empty file that is truncated to one byte holds an A.** SRCLINE: sacio.c:522-529 -/
theorem truncate_writes_letter : ∃ (n : ℕ) (s s' s'' : SacState),
    sacOpen aPath newDisk = .ok (n : ℤ) s ∧ sacTruncate .ilp32 aPath 1 s = .ok 0 s' ∧
    sacRead .ilp32 n 1 0 s' = .ok (1, [65]) s'' ∧ ¬ FilledTo s s' n 1 := by
  have hfresh := fresh_of_formatted formatted_newDisk
  obtain ⟨n, s, hopen, hnew, hplain, hspare⟩ := exists_newNode aPath hfresh.plain rfl
    (by decide) (by decide) (by decide) (hfresh.leadsTo_eq_none (by decide)) hfresh.spare
  have hinv := hplain.toInv
  obtain ⟨d, ht, hlookup⟩ := @exists_target_of_found _ aPath n (by decide) hnew.found
  have hsize := hnew.empty.1
  have hthis : ∀ m, (viewOf s).tree.lookup d ((stringSplit aPath.val).getLastD []) = some m →
      m = n := by
    intro m hm
    rw [hlookup] at hm
    exact (Option.some.inj hm).symm
  have hwp : vwp (sacTruncate .ilp32 aPath 1) (fun r w => r = 0 ∧
      Written (viewOf s) w n 0 1 (writtenByte (padding 1) 0)) (fun _ _ => False) (viewOf s) := by
    refine vwp_sacTruncate_of_write hinv ht (by decide)
      (fun hno => absurd hnew.state_eq (hno n hlookup)) ?_ ?_
    · intro m count hm hstate hcount hpos
      obtain rfl := hthis m hm
      rw [hsize, Nat.zero_add] at hcount
      obtain rfl : count = 1 := by omega
      rw [hsize]
      refine @vwp_sacWrite_noStray _ _ _ _ 0 _ hinv hnew.live hnew.state_eq (Or.inl (Nat.zero_le _))
        (Or.inr (by decide)) (fun w hw => ⟨rfl, ?_⟩) fun e w _ hcount => ?_
      · rw [hsize] at hw
        exact hw
      · have hroom := hspare.2
        have hneed : 2 * ((0 % 4096 + (padding 1).length) / 4096 + 1) = 2 := by decide
        rw [hneed] at hcount
        omega
    · intro m w hm _ hle _ _
      rw [hthis m hm, hsize] at hle
      omega
  obtain ⟨r, s', hok, rfl, hw⟩ := exists_ok_of_wp (hwp s rfl) fun _ _ hf => hf
  have hn := (hw.grown.live n).mpr hnew.live
  have hstate := hw.grown.state.trans hnew.state_eq
  have hempty : content (viewOf s) n = [] := by
    apply List.eq_nil_of_length_eq_zero
    rw [length_content, hsize]
  have hcontent : content (viewOf s') n = [65] := by
    rw [@Written.content _ _ _ _ 0 (padding 1) hw (by rw [hsize]) fun i hi => ?_, hempty]
    · rfl
    · obtain rfl : i = 0 := by
        have hlen : (padding 1).length = 1 := rfl
        omega
      rfl
  obtain ⟨s'', hread⟩ := readsAs_of_content (hw.grown.core hinv.toCore) hn hstate hcontent 1 0
    Nat.one_pos le_rfl
  refine ⟨n, s, s', s'', hopen, hok, hread, fun hfilled => ?_⟩
  obtain ⟨s₂, hread'⟩ := hfilled.reads 1 0 Nat.one_pos (by
    rw [List.length_append, length_content, List.length_replicate, hsize])
  rw [hempty, hsize, hread] at hread'
  have hbytes : ((1 : ℕ), [(65 : UInt8)]) = (1, [0]) := (EStateM.Result.ok.inj hread').1
  exact absurd hbytes (by decide)

end Growing

end LinuseFs.Analysis
