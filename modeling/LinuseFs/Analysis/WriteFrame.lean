import LinuseFs.Analysis.SlotUses

/-!
# What a write reaches

A write looks the blocks of a file up by its pointers and takes blocks for it.  As long as each
block that it looks up is one of the file, or one that it has taken itself, it changes nothing
else, whatever the rest of the disk holds: no two of these blocks need be different, and the blocks
and pointers that the write does not use may be anything.  `Reaches` is what the rounds keep.
-/

set_option autoImplicit false

namespace LinuseFs.Analysis

open LinuseFs.Computation LinuseFs.Model LinuseFs.Interface

/-- From `v` to `w` only the file `n` changed: its node, its blocks, and blocks that were free. -/
structure OnlyFile (n : ℕ) (v w : View) : Prop where
  inode : ∀ m, m ≠ n → w.inode m = v.inode m
  used : ∀ b, v.used b = true → w.used b = true
  frame : ∀ b, v.used b = true → (∀ r, v.held n r → v.place n r ≠ b) → w.data b = v.data b
  metadata : w.metadata = v.metadata

section OnlyFile

variable {v w : View} {n b : ℕ}

theorem OnlyFile.refl (v : View) (n : ℕ) : OnlyFile n v v :=
  ⟨fun _ _ => rfl, fun _ hb => hb, fun _ _ _ => rfl, rfl⟩

theorem OnlyFile.setData (h : OnlyFile n v w)
    (hb : v.used b = true → ∃ r, v.held n r ∧ v.place n r = b) (bytes : Bytes) :
    OnlyFile n v (w.setData b bytes) where
  inode := h.inode
  used := h.used
  frame c hc hnot := by
    have hne : c ≠ b := by
      rintro rfl
      obtain ⟨r, hr, he⟩ := hb hc
      exact hnot r hr he
    rw [View.setData_ne _ hne, h.frame c hc hnot]
  metadata := h.metadata

theorem OnlyFile.setUsed (h : OnlyFile n v w) (b : ℕ) : OnlyFile n v (w.setUsed b true) where
  inode := h.inode
  used c hc := View.used_setUsed_true (h.used c hc)
  frame := h.frame
  metadata := h.metadata

theorem OnlyFile.setInode (h : OnlyFile n v w) (nd : Inode) : OnlyFile n v (w.setInode n nd) where
  inode m hm := (View.setInode_ne _ hm).trans (h.inode m hm)
  used := h.used
  frame := h.frame
  metadata := h.metadata

end OnlyFile

/-- The block is in use in `w`, and in `v` it was one of the file `n` or free. -/
structure Reachable (n : ℕ) (v w : View) (b : ℕ) : Prop where
  inData : w.InData b
  own : v.used b = true → ∃ r, v.held n r ∧ v.place n r = b

/-- A write to the file `n` that began in `v` has come to `w` and the node `nd`: only the file has
changed; the pointer blocks `i` of the node with `P i` are reachable, the blocks `k` of it with
`K k`, which are behind them, are so too, and none of these is a pointer block. -/
structure Reaches (n : ℕ) (v : View) (P K : ℕ → Prop) (w : View) (nd : Inode) : Prop where
  only : OnlyFile n v w
  same : nd = { v.inode n with fileSize := nd.fileSize, ptr := nd.ptr }
  fits : nd.Fits
  behind : ∀ k, K k → P (k / 1024)
  ptr : ∀ i, P i → nd.ptr i ≠ 0 → Reachable n v w (nd.ptr i)
  pointer : ∀ k, K k → nd.ptr (k / 1024) ≠ 0
  data : ∀ k, K k → Reachable n v w (w.dataBlock nd k)
  apart : ∀ k, K k → ∀ i, P i → nd.ptr i ≠ 0 → w.dataBlock nd k ≠ nd.ptr i

/-- A write to the file `n` has left `u`: only the file has changed, and of its node only the
pointers and the size, which is `S`. -/
structure Keeps (n : ℕ) (v : View) (S : ℕ) (u : View) : Prop where
  only : OnlyFile n v u
  node : u.inode n = { v.inode n with fileSize := S, ptr := (u.inode n).ptr }

/-- The file `n`, as far as a write uses it: the pointer blocks that it goes through and the blocks
that it looks up are used blocks of the data region, and none of the latter is one of the former;
and there is a pointer for the block behind the end. -/
structure SoundAt (v : View) (n : ℕ) (uses : List (KeyUse ℕ)) : Prop where
  live : v.live n
  state : (v.inode n).state = 1
  size : (v.inode n).fileSize / 4096 + 1 < 1024 * 1000
  ptr : ∀ i, GoesThrough uses i → v.held n (.ptr i) → v.InData (v.place n (.ptr i))
  pointer : ∀ k, .lookUp k ∈ uses → v.held n (.data k) → (v.inode n).ptr (k / 1024) ≠ 0
  data : ∀ k, .lookUp k ∈ uses → v.held n (.data k) → v.InData (v.place n (.data k))
  apart : ∀ k i, .lookUp k ∈ uses → GoesThrough uses i → v.held n (.data k) →
    v.held n (.ptr i) → v.place n (.data k) ≠ v.place n (.ptr i)

/-- The block `x` is free, and `y` is the pointer block `i` of the node or, when it has none,
another free block. -/
structure TakesFree (w : View) (nd : Inode) (i x y : ℕ) : Prop where
  ge : 34 ≤ x
  lt : x < 3000
  free : w.used x = false
  pointer : nd.ptr i = y ∧ y ≠ 0 ∨
    nd.ptr i = 0 ∧ 34 ≤ y ∧ y < 3000 ∧ w.used y = false ∧ x ≠ y

/-- The view with the block `x` taken in the slot `j` of the pointer block `y`. -/
def takenInto (w : View) (x y j : ℕ) : View := setSlot ((w.setUsed y true).setUsed x true) y j x

section Reaches

variable {n : ℕ} {v w : View} {P K K' : ℕ → Prop} {nd : Inode} {i j k x y b : ℕ}
  {uses : List (KeyUse ℕ)}

theorem Reachable.mono {u : View} (h : Reachable n v w b) (hused : w.used b = true →
    u.used b = true) : Reachable n v u b :=
  ⟨⟨h.inData.1, h.inData.2.1, hused h.inData.2.2⟩, h.own⟩

/-- INTERNAL: a block that has been taken. -/
theorem OnlyFile.reachable {u : View} (h : OnlyFile n v w) (hb : 34 ≤ b) (hb' : b < 3000)
    (hfree : w.used b = false) (htaken : u.used b = true) : Reachable n v u b := by
  refine ⟨⟨hb, hb', htaken⟩, fun hused => ?_⟩
  rw [h.used b hused] at hfree
  cases hfree

/-- INTERNAL: before the write. -/
theorem SoundAt.reaches (h : SoundAt v n uses) (hfits : (v.inode n).Fits) :
    Reaches n v (GoesThrough uses) (fun k => .lookUp k ∈ uses ∧ k < (v.inode n).blocks) v
      (v.inode n) where
  only := OnlyFile.refl v n
  same := rfl
  fits := hfits
  behind k hk := ⟨k, Or.inl hk.1, rfl⟩
  ptr i hgoes hi := ⟨h.ptr i hgoes ⟨h.live, hi⟩, fun _ => ⟨.ptr i, ⟨h.live, hi⟩, rfl⟩⟩
  pointer k hk := h.pointer k hk.1 ⟨h.live, hk.2⟩
  data k hk := ⟨h.data k hk.1 ⟨h.live, hk.2⟩, fun _ => ⟨.data k, ⟨h.live, hk.2⟩, rfl⟩⟩
  apart k hk i hgoes hi := h.apart k i hk.1 hgoes ⟨h.live, hk.2⟩ ⟨h.live, hi⟩

/-- INTERNAL: a file with blocks of its own is sound wherever it is used. -/
theorem OwnFile.soundAt (h : OwnFile v n) (uses : List (KeyUse ℕ)) : SoundAt v n uses where
  live := h.live
  state := h.state
  size := by
    have := h.fileSize_lt
    omega
  ptr _ _ := h.inData
  pointer _ _ hk := (h.held_ptr hk).2
  data _ _ := h.inData
  apart _ _ _ _ hk hi he := h.ptr_ne_data hi hk he.symm

/-- INTERNAL: the size of the node may be any. -/
theorem Reaches.resize (h : Reaches n v P K w nd) {S : ℕ} (hS : S < 2 ^ 32) :
    Reaches n v P K w { nd with fileSize := S } :=
  ⟨h.only, by rw [h.same], ⟨h.fits.1, hS, h.fits.3, h.fits.4, h.fits.5, h.fits.6⟩, h.behind, h.ptr,
    h.pointer, h.data, h.apart⟩

theorem Reaches.lt (h : Reaches n v P K w nd) (hk : K k) : k / 1024 < 1000 := by
  by_contra hle
  exact h.pointer k hk (h.fits.ptr_past _ (not_lt.mp hle))

theorem Reaches.keeps (h : Reaches n v P K w nd) : Keeps n v nd.fileSize (w.setInode n nd) := by
  refine ⟨h.only.setInode nd, ?_⟩
  rw [View.setInode_same]
  exact h.same

/-- INTERNAL: **a store into a block that the write looks up.** SRCLINE: sacio.c:213-215 -/
theorem Reaches.store (h : Reaches n v P K w nd) (hk : K k) (bytes : Bytes) :
    Reaches n v P K (w.setData (w.dataBlock nd k) bytes) nd := by
  have hsame : ∀ l, K l →
      (w.setData (w.dataBlock nd k) bytes).dataBlock nd l = w.dataBlock nd l := by
    intro l hl
    apply dataBlock_congr
    exact View.setData_ne _ (h.apart k hk _ (h.behind l hl) (h.pointer l hl)).symm
  refine ⟨h.only.setData (h.data k hk).own bytes, h.same, h.fits, h.behind,
    fun i hP hi => (h.ptr i hP hi).mono id, h.pointer, fun l hl => ?_, fun l hl => ?_⟩
  · rw [hsame l hl]
    exact (h.data l hl).mono id
  · rw [hsame l hl]
    exact h.apart l hl

/-- INTERNAL: a pointer of the node is the one that was set, or was there before. -/
theorem update_ptr_ne_zero {l : ℕ} (hl : Function.update nd.ptr i y l ≠ 0) :
    Function.update nd.ptr i y l = y ∨
      nd.ptr l ≠ 0 ∧ Function.update nd.ptr i y l = nd.ptr l := by
  by_cases hli : l = i
  · subst hli
    exact Or.inl (Function.update_self ..)
  · rw [Function.update_of_ne hli] at hl ⊢
    exact Or.inr ⟨hl, rfl⟩

/-- INTERNAL: a pointer that was set stays. -/
theorem TakesFree.kept (ht : TakesFree w nd i x y) {l : ℕ} (hl : nd.ptr l ≠ 0) :
    Function.update nd.ptr i y l = nd.ptr l := by
  by_cases hli : l = i
  · subst hli
    rw [Function.update_self]
    exact ((ht.pointer.resolve_right fun hz => hl hz.1).1).symm
  · exact Function.update_of_ne hli ..

theorem takenInto_used (hb : w.used b = true) : (takenInto w x y j).used b = true :=
  View.used_setUsed_true (View.used_setUsed_true hb)

/-- INTERNAL: the pointer block of the block that is taken. -/
theorem Reaches.takenInto_pointer (h : Reaches n v P K w nd) (ht : TakesFree w nd i x y)
    (hP : P i) : Reachable n v (takenInto w x y j) y := by
  rcases ht.pointer with ⟨rfl, hy0⟩ | ⟨-, hge, hlt, hyfree, -⟩
  · exact (h.ptr i hP hy0).mono takenInto_used
  · exact h.only.reachable hge hlt hyfree (View.used_setUsed_true (View.setUsed_same ..))

/-- INTERNAL: a block of the data region that was none of these pointer blocks of the node is none
of them now. -/
theorem TakesFree.ne_pointer (ht : TakesFree w nd i x y) (hP : P i) (hb : w.InData b)
    (hne : ∀ l, P l → nd.ptr l ≠ 0 → b ≠ nd.ptr l) {l : ℕ} (hPl : P l)
    (hl : Function.update nd.ptr i y l ≠ 0) : b ≠ Function.update nd.ptr i y l := by
  rcases update_ptr_ne_zero hl with he | ⟨hl', he⟩
  · rw [he]
    rintro rfl
    rcases ht.pointer with ⟨hy', hy0⟩ | ⟨-, -, -, hyfree, -⟩
    · exact hne i hP (by rw [hy']; exact hy0) hy'.symm
    · rw [hb.2.2] at hyfree
      cases hyfree
  · rw [he]
    exact hne l hPl hl'

/-- INTERNAL: the block that is taken is none of these pointer blocks, since it was free. -/
theorem Reaches.taken_ne_pointer (h : Reaches n v P K w nd) (ht : TakesFree w nd i x y) (hP : P i)
    {l : ℕ} (hPl : P l) (hl : Function.update nd.ptr i y l ≠ 0) :
    x ≠ Function.update nd.ptr i y l := by
  have hfree := ht.free
  rcases update_ptr_ne_zero hl with he | ⟨hl', he⟩
  · rw [he]
    rcases ht.pointer with ⟨rfl, hy0⟩ | ⟨-, -, -, -, hxy⟩
    · rintro rfl
      rw [(h.ptr i hP hy0).inData.2.2] at hfree
      cases hfree
    · exact hxy
  · rw [he]
    rintro rfl
    rw [(h.ptr l hPl hl').inData.2.2] at hfree
    cases hfree

/-- INTERNAL: the blocks of the node are those before and the one that is taken. -/
theorem Reaches.takenInto_dataBlock (h : Reaches n v P K w nd) (ht : TakesFree w nd i x y)
    (hj : j < 1024) (hk : K k ∨ k = 1024 * i + j) :
    (takenInto w x y j).dataBlock { nd with ptr := Function.update nd.ptr i y } k = x ∨
      K k ∧ (takenInto w x y j).dataBlock { nd with ptr := Function.update nd.ptr i y } k =
        w.dataBlock nd k := by
  have hlt := ht.lt
  unfold View.dataBlock
  dsimp only
  rw [takenInto, slot_setSlot (by omega)]
  rcases hk with hk | rfl
  · rw [ht.kept (h.pointer k hk)]
    split
    · exact Or.inl rfl
    · exact Or.inr ⟨hk, rfl⟩
  · have hdiv : (1024 * i + j) / 1024 = i := by omega
    rw [hdiv, Function.update_self, if_pos ⟨rfl, by omega⟩]
    exact Or.inl rfl

/-- INTERNAL: **a block that is taken** for the file in the slot `j` of its pointer block `i`, which
may be new as well. SRCLINE: node.c:85-127 -/
theorem Reaches.take (h : Reaches n v P K w nd) (ht : TakesFree w nd i x y) (hP : P i)
    (hi : i < 1000) (hj : j < 1024) :
    Reaches n v P (fun k => K k ∨ k = 1024 * i + j) (takenInto w x y j)
      { nd with ptr := Function.update nd.ptr i y } := by
  have hy : Reachable n v (takenInto w x y j) y := h.takenInto_pointer ht hP
  have hge := hy.inData.1
  have hlt := hy.inData.2.1
  have hdiv : (1024 * i + j) / 1024 = i := by omega
  refine ⟨((h.only.setUsed y).setUsed x).setData hy.own _, by rw [h.same],
    ⟨h.fits.1, h.fits.2, h.fits.3, h.fits.4, fun l => ?_, fun l hl => ?_⟩,
    ?_, fun l hPl hl => ?_, ?_, fun k hk => ?_, fun k hk l hPl hl => ?_⟩
  · dsimp only
    rw [Function.update_apply]
    split
    · omega
    · exact h.fits.ptr l
  · dsimp only
    rw [Function.update_of_ne (by omega)]
    exact h.fits.ptr_past l hl
  · rintro k (hk | rfl)
    · exact h.behind k hk
    · rw [hdiv]
      exact hP
  · dsimp only
    rcases update_ptr_ne_zero hl with he | ⟨hl', he⟩
    · rw [he]
      exact hy
    · rw [he]
      exact (h.ptr l hPl hl').mono takenInto_used
  · rintro k (hk | rfl) <;> dsimp only
    · rw [ht.kept (h.pointer k hk)]
      exact h.pointer k hk
    · rw [hdiv, Function.update_self]
      omega
  · rcases h.takenInto_dataBlock ht hj hk with he | ⟨hk', he⟩
    · rw [he]
      exact h.only.reachable ht.ge ht.lt ht.free (View.setUsed_same ..)
    · rw [he]
      exact (h.data k hk').mono takenInto_used
  · rcases h.takenInto_dataBlock ht hj hk with he | ⟨hk', he⟩
    · rw [he]
      exact h.taken_ne_pointer ht hP hPl hl
    · rw [he]
      exact ht.ne_pointer hP (h.data k hk').inData (h.apart k hk') hPl hl

/-- INTERNAL: what stopped in `add_data_block_to_node` has changed only the file. -/
theorem OnlyFile.trans_takes {u : View} (h : OnlyFile n v w) (h' : OnlyTakes w u) :
    OnlyFile n v u where
  inode m hm := by rw [h'.inode, h.inode m hm]
  used c hc := h'.used c (h.used c hc)
  frame c hc hnot := by rw [h'.data, h.frame c hc hnot]
  metadata := h'.metadata.trans h.metadata

end Reaches

/-! ## The loops -/

section Loops

variable {E : Fault → View → Prop} {n x y : ℕ} {v w : View} {P K : ℕ → Prop} {node : Node}
  {buffer : List UInt8} {offset : ℕ} {all : List (KeyUse ℕ)}

/-- INTERNAL: a block that is taken into a slot of the last leading pointer block. SRCLINE:
node.c:105-112 -/
theorem Reaches.takeSlot (h : Reaches n v P K w (inodeOfNode node))
    (hcase : node.fileSize / 4096 + 1 < 1024 * node.leadingPointers)
    (hP : P (node.leadingPointers - 1)) (hx : 34 ≤ x) (hx' : x < 3000) (hfree : w.used x = false) :
    Reaches n v P (fun l => K l ∨ l = (slotsOf w (inodeOfNode node)).next)
      (setSlot (w.setUsed x true) (node.indirectPointerBlock (node.leadingPointers - 1))
        ((node.fileSize / 4096 + 1) % 1024) x) (inodeOfNode node) := by
  obtain ⟨hlead, hleading, -⟩ := leadingPointers_spec node
  have hp := hleading (node.leadingPointers - 1) (by omega)
  have hused := (h.ptr _ hP hp).inData.2.2
  have hsame : Function.update (inodeOfNode node).ptr (node.leadingPointers - 1)
      ((inodeOfNode node).ptr (node.leadingPointers - 1)) = (inodeOfNode node).ptr :=
    Function.update_eq_self ..
  have htake := h.take (j := (node.fileSize / 4096 + 1) % 1024)
    ⟨hx, hx', hfree, Or.inl ⟨rfl, hp⟩⟩ hP (by omega) (by omega)
  rw [takenInto, View.setUsed_self hused, hsame] at htake
  rw [slotsOf_next_of_lt hcase]
  exact htake

/-- INTERNAL: a block that is taken together with a pointer block. SRCLINE: node.c:113-125 -/
theorem Reaches.takePointer (h : Reaches n v P K w (inodeOfNode node))
    (hcase : 1024 * node.leadingPointers ≤ node.fileSize / 4096 + 1)
    (hroom : node.leadingPointers < 1000) (hP : P node.leadingPointers) (hx : 34 ≤ x)
    (hx' : x < 3000) (hfree : w.used x = false) (hy : 34 ≤ y) (hy' : y < 3000)
    (hyfree : w.used y = false) (hxy : x ≠ y) :
    Reaches n v P (fun l => K l ∨ l = (slotsOf w (inodeOfNode node)).next)
      (setSlot ((w.setUsed y true).setUsed x true) y 0 x)
      { inodeOfNode node with
        ptr := Function.update node.indirectPointerBlock node.leadingPointers y } := by
  have hzero := (leadingPointers_spec node).2.2 hroom
  rw [slotsOf_next_of_le hcase]
  exact h.take (j := 0) ⟨hx, hx', hfree, Or.inr ⟨hzero, hy, hy', hyfree, hxy⟩⟩ hP hroom (by decide)

/-- INTERNAL: **`add_data_block_to_node` takes the block that the slots say**, and stays in the
file. SRCLINE: node.c:85-127 -/
theorem vwp_addDataBlockToNode_reaches {Q : Node → View → Prop} (rest : Slots → List (KeyUse ℕ))
    (h : Reaches n v (GoesThrough all) K w (inodeOfNode node))
    (hroom : 1024 * node.leadingPointers ≤ node.fileSize / 4096 + 1 → node.leadingPointers < 1000)
    (hfollowed : Followed K ((slotsOf w (inodeOfNode node)).take rest))
    (hall : (slotsOf w (inodeOfNode node)).take rest ⊆ all)
    (hQ : ∀ node' w' K', node'.fileSize = node.fileSize →
      Reaches n v (GoesThrough all) K' w' (inodeOfNode node') →
      freeCount w'.used 34 3000 < freeCount w.used 34 3000 →
      Followed K' (rest (slotsOf w' (inodeOfNode node'))) →
      rest (slotsOf w' (inodeOfNode node')) ⊆ all → Q node' w')
    (hE : ∀ e u, e.IsAlloc → .stop ∈ all → OnlyFile n v u → E e u) :
    vwp (addDataBlockToNode node) Q E w := by
  obtain ⟨-, hleading, -⟩ := leadingPointers_spec node
  have hfree : (slotsOf w (inodeOfNode node)).free = freeCount w.used 34 3000 := rfl
  rw [Slots.take, hfree] at hfollowed hall
  have hgoes : (slotsOf w (inodeOfNode node)).needs ≤ freeCount w.used 34 3000 →
      GoesThrough all ((slotsOf w (inodeOfNode node)).next / 1024) := by
    intro hneeds
    rw [if_neg (not_lt.mpr hneeds)] at hall
    exact ⟨_, Or.inr (hall List.mem_cons_self), rfl⟩
  have htakes : ∀ node' w', node'.fileSize = node.fileSize →
      (slotsOf w (inodeOfNode node)).needs ≤ freeCount w.used 34 3000 →
      Reaches n v (GoesThrough all) (fun l => K l ∨ l = (slotsOf w (inodeOfNode node)).next) w'
        (inodeOfNode node') →
      slotsOf w' (inodeOfNode node') = (slotsOf w (inodeOfNode node)).taken →
      freeCount w'.used 34 3000 < freeCount w.used 34 3000 → Q node' w' := by
    intro node' w' hfs hneeds hreaches htaken hless
    rw [if_neg (not_lt.mpr hneeds)] at hfollowed hall
    apply hQ node' w' _ hfs hreaches hless
    · rw [htaken]
      exact hfollowed
    · rw [htaken]
      exact List.Subset.trans (List.subset_cons_self _ _) hall
  -- the pointer block of a slot that is left
  have hlast : node.fileSize / 4096 + 1 < 1024 * node.leadingPointers →
      freeCount w.used 34 3000 ≠ 0 → GoesThrough all (node.leadingPointers - 1) := by
    intro hcase hsome
    have hthrough := hgoes (by rw [slotsOf_needs_of_lt hcase]; omega)
    have hdiv : (1024 * (node.leadingPointers - 1) + (node.fileSize / 4096 + 1) % 1024) / 1024 =
        node.leadingPointers - 1 := by omega
    rwa [slotsOf_next_of_lt hcase, hdiv] at hthrough
  apply vwp_addDataBlockToNode_slot _ hroom
  · -- a slot of the last leading pointer block
    intro hcase x hx hx' hxfree _
    have hone := View.freeCount_setUsed_free hx hx' hxfree
    apply htakes node _ rfl (by rw [slotsOf_needs_of_lt hcase]; omega)
    · exact h.takeSlot hcase (hlast hcase (by omega)) hx hx' hxfree
    · exact slotsOf_taken_of_lt hcase hx hx' hxfree
    · rw [setSlot_used]
      omega
  · -- the first slot of a new pointer block
    intro hcase x y hx hx' hxfree hy hy' hyfree hxy _
    have hone := View.freeCount_setUsed_free hy hy' hyfree
    have htwo := View.freeCount_setUsed_free hx hx' ((View.setUsed_ne true hxy).trans hxfree)
    have hneeds : (slotsOf w (inodeOfNode node)).needs ≤ freeCount w.used 34 3000 := by
      rw [slotsOf_needs_of_le hcase]
      omega
    have hthrough := hgoes hneeds
    rw [slotsOf_next_of_le hcase, Nat.mul_div_cancel_left _ (by decide)] at hthrough
    apply htakes
      { node with
        indirectPointerBlock := Function.update node.indirectPointerBlock node.leadingPointers y }
      _ rfl hneeds
    · exact h.takePointer hcase (hroom hcase) hthrough hx hx' hxfree hy hy' hyfree hxy
    · exact slotsOf_taken_of_le hcase hx hx' hxfree hy hy' hyfree hxy
    · rw [setSlot_used]
      omega
  · intro e u he hle hnone hused
    have hfew : freeCount w.used 34 3000 < (slotsOf w (inodeOfNode node)).needs := by
      by_cases hcase : node.fileSize / 4096 + 1 < 1024 * node.leadingPointers
      · have := hnone hcase
        rw [slotsOf_needs_of_lt hcase]
        omega
      · rw [slotsOf_needs_of_le (not_lt.mp hcase)]
        omega
    rw [if_pos hfew] at hall
    exact hE e u he (hall List.mem_cons_self) (h.only.trans_takes hused)
  · intro hcase hsome
    have hin := (h.ptr _ (hlast hcase hsome) (hleading _ (by omega))).inData
    exact ⟨hin.1, hin.2.1⟩

/-- INTERNAL: **the fill loop stays in the file** when the blocks that it looks up are there; the
induction is on the rounds. SRCLINE: sacio.c:181-200 -/
theorem vwp_completarOffset_reaches {Q : Node → View → Prop} {S : ℕ}
    (rest : Slots → List (KeyUse ℕ))
    (hQ : ∀ node' w' K', Reaches n v (GoesThrough all) K' w' (inodeOfNode node') →
      node'.fileSize = S → S / 4096 + 1 < 1024 * 1000 →
      Followed K' (rest (slotsOf w' (inodeOfNode node'))) →
      rest (slotsOf w' (inodeOfNode node')) ⊆ all → Q node' w')
    (hE : ∀ e u, e.IsAlloc → .stop ∈ all → OnlyFile n v u → E e u) (rounds : ℕ) :
    ∀ (node : Node) (w : View) (K : ℕ → Prop) (offset : ℕ),
      Reaches n v (GoesThrough all) K w (inodeOfNode node) →
      offset < rounds → offset < 2 ^ 31 → filledSize rounds node.fileSize offset = S →
      node.fileSize / 4096 + 1 < 1024 * 1000 →
      Followed K (Slots.fill rest rounds offset (slotsOf w (inodeOfNode node))) →
      Slots.fill rest rounds offset (slotsOf w (inodeOfNode node)) ⊆ all →
      vwp (completarOffset .ilp32 rounds node (offset : ℤ)) Q E w := by
  induction rounds with
  | zero => exact fun _ _ _ _ _ hrounds => absurd hrounds (Nat.not_lt_zero _)
  | succ rounds ih =>
    intro node w K offset h hrounds hsmall hS hbound hfollowed hall
    by_cases hmore : node.fileSize < offset
    swap
    · have hle : offset ≤ node.fileSize := not_lt.mp hmore
      rw [Slots.fill_of_le hle] at hfollowed hall
      rw [filledSize_of_le hle] at hS
      apply vwp_completarOffset_stop (Nat.succ_ne_zero _) hle (by omega)
      exact hQ node w K h hS (by omega) hfollowed hall
    rw [filledSize, if_pos hmore] at hS
    rw [Slots.fill, if_pos (show (slotsOf w (inodeOfNode node)).size < offset from hmore)]
      at hfollowed hall
    dsimp only at hfollowed hall
    change Followed K (.lookUp (node.fileSize / 4096 % 1024) :: _) at hfollowed
    obtain ⟨hk, hfollowed⟩ := hfollowed
    obtain ⟨hmem, hall⟩ := List.cons_subset.mp hall
    have hsize : (slotsOf w (inodeOfNode node)).size = node.fileSize := rfl
    rw [hsize] at hfollowed hall
    generalize hcant : min offset 4096 - node.fileSize % 4096 = cant at hS hfollowed hall
    have hfirst : node.fileSize / 4096 % 1024 / 1024 = 0 := by omega
    have hp := (h.ptr _ (h.behind _ hk) (h.pointer _ hk)).inData
    rw [hfirst] at hp
    have hb := (h.data _ hk).inData
    apply vwp_completarOffset_round cant hmore hsmall (by omega) hp.1 hp.2.1 rfl hb.1 hb.2.1
    have hstore := (h.store hk (memcpy (w.data (w.dataBlock (inodeOfNode node)
      (node.fileSize / 4096 % 1024))) (node.fileSize % 4096) (fun _ => 0) cant)).resize
      (show node.fileSize + cant < 2 ^ 32 by omega)
    by_cases hfull : node.fileSize % 4096 + cant = 4096 ∧ cant < offset
    · -- the block is full, and another one is taken
      rw [if_pos hfull] at hfollowed hall ⊢
      apply vwp_bind
      have hslots : (slotsOf w (inodeOfNode node)).resize (node.fileSize + cant) =
          slotsOf (w.setData (w.dataBlock (inodeOfNode node) (node.fileSize / 4096 % 1024))
            (memcpy (w.data (w.dataBlock (inodeOfNode node) (node.fileSize / 4096 % 1024)))
              (node.fileSize % 4096) (fun _ => 0) cant))
            (inodeOfNode { node with fileSize := node.fileSize + cant }) := rfl
      rw [hslots] at hfollowed hall
      apply vwp_addDataBlockToNode_reaches _ hstore (by dsimp only; omega) hfollowed hall _ hE
      intro node' w' K' hfs hreaches _ hfollowed' hall'
      have hfs' : node'.fileSize = node.fileSize + cant := hfs
      exact ih node' w' K' (offset - cant) hreaches (by omega) (by omega) (by rw [hfs']; exact hS)
        (by omega) hfollowed' hall'
    · -- the loop is at its end
      rw [if_neg hfull] at hfollowed hall ⊢
      have hle : offset - cant ≤ node.fileSize + cant := by omega
      obtain ⟨rounds, rfl⟩ : ∃ r, rounds = r + 1 := Nat.exists_eq_succ_of_ne_zero (by omega)
      rw [Slots.fill_of_le hle] at hfollowed hall
      rw [filledSize_of_le hle] at hS
      apply vwp_completarOffset_stop (Nat.succ_ne_zero _) hle (by dsimp only; omega)
      exact hQ _ _ K hstore hS (by omega) hfollowed hall

/-- INTERNAL: **the copy loop stays in the file** when the blocks that it looks up are there; the
induction is on the rounds. SRCLINE: sacio.c:204-242 -/
theorem vwp_escribirBuffer_reaches {Q : Node → View → Prop} {S : ℕ} (orig : ℤ)
    (hQ : ∀ node' w' K', Reaches n v (GoesThrough all) K' w' (inodeOfNode node') →
      node'.fileSize = S → Q node' w')
    (hE : ∀ e u, e.IsAlloc → .stop ∈ all → OnlyFile n v u → E e u) (rounds : ℕ) :
    ∀ (node : Node) (w : View) (K : ℕ → Prop) (escritos : ℕ),
      Reaches n v (GoesThrough all) K w (inodeOfNode node) →
      escritos ≤ buffer.length → buffer.length < escritos + rounds →
      node.fileSize / 4096 + 1 < 1024 * 1000 →
      offset + escritos + 4096 * freeCount w.used 34 3000 < 2 ^ 31 + 3000 * 4096 →
      (if escritos < buffer.length then newSize orig node.fileSize (offset + buffer.length)
        else node.fileSize) = S →
      Followed K (Slots.copy orig offset buffer.length rounds escritos
        (slotsOf w (inodeOfNode node))) →
      Slots.copy orig offset buffer.length rounds escritos (slotsOf w (inodeOfNode node)) ⊆ all →
      vwp (escribirBuffer .ilp32 buffer offset orig rounds node ((offset + escritos) / 4096)
        ((offset + escritos) % 4096) escritos 0) Q E w := by
  induction rounds with
  | zero => exact fun _ _ _ _ _ _ hrounds => absurd hrounds (by omega)
  | succ rounds ih =>
    intro node w K escritos h hescritos hrounds hsize hbound hS hfollowed hall
    by_cases hmore : escritos < buffer.length
    swap
    · rw [if_neg hmore] at hS
      rw [escribirBuffer_done (Nat.succ_ne_zero _) (not_lt.mp hmore)]
      exact vwp_pure (hQ node w K h hS)
    rw [if_pos hmore] at hS
    rw [Slots.copy, if_pos hmore] at hfollowed hall
    dsimp only at hfollowed hall
    obtain ⟨hk, hfollowed⟩ := hfollowed
    obtain ⟨hmem, hall⟩ := List.cons_subset.mp hall
    generalize hcant : min (buffer.length - escritos) (4096 - (offset + escritos) % 4096) = cant
      at hfollowed hall
    have hp := (h.ptr _ (h.behind _ hk) (h.pointer _ hk)).inData
    have hb := (h.data _ hk).inData
    apply vwp_escribirBuffer_lookup hmore (h.lt hk) hp.1 hp.2.1 rfl hb.1 hb.2.1 hcant.symm
    have hstore := h.store hk (memcpy (w.data (w.dataBlock (inodeOfNode node)
      ((offset + escritos) / 4096))) ((offset + escritos) % 4096)
      (fun i => buffer.getD (escritos + i) 0) cant)
    have hend : offset + (escritos + cant) < 2 ^ 32 := by omega
    have hnew : newSize orig node.fileSize (offset + (escritos + cant)) / 4096 + 1 <
        1024 * 1000 := by
      unfold newSize
      split <;> omega
    have hlast : (if escritos + cant < buffer.length then
          newSize orig (newSize orig node.fileSize (offset + (escritos + cant)))
            (offset + buffer.length)
        else newSize orig node.fileSize (offset + (escritos + cant))) = S := by
      split
      next => rw [newSize_newSize (by omega), hS]
      next hdone =>
        have hall : escritos + cant = buffer.length := by omega
        rw [hall, hS]
    by_cases hfull : (offset + escritos) % 4096 + cant = 4096
    · -- the block is full, and another one is taken
      rw [if_pos hfull] at hfollowed hall
      rw [if_pos ⟨by omega, by omega⟩]
      apply vwp_bind
      apply vwp_addDataBlockToNode_reaches _ hstore (by omega) hfollowed hall _ hE
      intro node' w' K' hfs hreaches hless hfollowed' hall'
      rw [View.setData_used] at hless
      rw [nuevoTamano_newSize orig node' hend, hfs]
      have hnext : (offset + (escritos + cant)) / 4096 = (offset + escritos) / 4096 + 1 ∧
          (offset + (escritos + cant)) % 4096 = 0 := by omega
      have hslots : (slotsOf w' (inodeOfNode node')).resize (newSize orig node.fileSize
          (offset + (escritos + cant))) = slotsOf w' (inodeOfNode
            { node' with
              fileSize := newSize orig node.fileSize (offset + (escritos + cant)) }) := rfl
      have hsame : (slotsOf w' (inodeOfNode node')).size = node.fileSize := hfs
      rw [hsame, hslots] at hfollowed' hall'
      have hround := ih
        { node' with fileSize := newSize orig node.fileSize (offset + (escritos + cant)) }
        w' K' (escritos + cant) (hreaches.resize (by dsimp only; omega)) (by omega) (by omega) hnew
        (by omega) hlast hfollowed' hall'
      rw [hnext.1, hnext.2] at hround
      exact hround
    · -- the buffer ends in the block
      have hall : escritos + cant = buffer.length := by omega
      rw [hall] at hend hnew
      rw [if_neg (by omega), hall, escribirBuffer_done (by omega) le_rfl,
        nuevoTamano_newSize orig node hend]
      apply vwp_pure
      exact hQ _ _ K (hstore.resize (by dsimp only; omega)) hS

/-- INTERNAL: the beginning of `sac_write`: what it does with the node that it has read.
SRCLINE: sacio.c:152-180 -/
theorem vwp_sacWrite_read {Q : ℕ → View → Prop} (hn : n < 32) (hname : (v.inode n).name.isSome)
    (hoffset : offset < 2 ^ 31)
    (hrest : ∀ node, inodeOfNode node = v.inode n →
      vwp (if node.indirectPointerBlock 0 = 0 then addDataBlockToNode node else pure node)
        (fun node₁ w => vwp (completarOffset .ilp32 (offset + 1) node₁ (offset : ℤ) >>= fun node' =>
          escribirBuffer .ilp32 buffer offset (i32 node'.fileSize) (buffer.length + 1) node'
            (offset / 4096) (offset % 4096) 0 0 >>= fun node'' =>
          unmapAndDestroyNode node'' (2 + n) >>= fun _ => pure buffer.length) Q E w) E v) :
    vwp (sacWrite .ilp32 n buffer (offset : ℤ)) Q E v := by
  obtain ⟨hdiv, hmod⟩ := offset_position hoffset
  unfold sacWrite
  apply vwp_bind
  apply vwp_readNode hn hname
  intro node hnode
  dsimp only
  rw [hdiv, hmod, i32_of_lt hoffset, u32_natCast_of_lt (n := offset) (by omega)]
  have hread := vwp_bind (hrest node hnode)
  split
  next hptr =>
    rw [if_pos hptr] at hread
    exact hread
  next hptr =>
    rw [if_neg hptr] at hread
    exact hread

/-- INTERNAL: the same for a file that has a block. SRCLINE: sacio.c:152-180 -/
theorem vwp_sacWrite_start {Q : ℕ → View → Prop} (hn : n < 32) (hname : (v.inode n).name.isSome)
    (hptr : (v.inode n).ptr 0 ≠ 0) (hoffset : offset < 2 ^ 31)
    (hrest : ∀ node, inodeOfNode node = v.inode n →
      vwp (completarOffset .ilp32 (offset + 1) node (offset : ℤ) >>= fun node' =>
        escribirBuffer .ilp32 buffer offset (i32 node'.fileSize) (buffer.length + 1) node'
          (offset / 4096) (offset % 4096) 0 0 >>= fun node'' =>
        unmapAndDestroyNode node'' (2 + n) >>= fun _ => pure buffer.length) Q E v) :
    vwp (sacWrite .ilp32 n buffer (offset : ℤ)) Q E v := by
  apply vwp_sacWrite_read hn hname hoffset
  intro node hnode
  have hptr' : node.indirectPointerBlock 0 ≠ 0 := by
    rw [← hnode] at hptr
    exact hptr
  rw [if_neg hptr']
  exact vwp_pure (hrest node hnode)

/-- INTERNAL: **both loops and the last store.** SRCLINE: sacio.c:180-246 -/
theorem vwp_sacWrite_loops (hn : n < 32) (h : Reaches n v (GoesThrough all) K w (inodeOfNode node))
    (hoffset : offset < 2 ^ 31) (hsize : node.fileSize / 4096 + 1 < 1024 * 1000)
    (hfollowed : Followed K ((slotsOf w (inodeOfNode node)).loops offset buffer.length))
    (hall : (slotsOf w (inodeOfNode node)).loops offset buffer.length ⊆ all) :
    vwp (completarOffset .ilp32 (offset + 1) node (offset : ℤ) >>= fun node' =>
      escribirBuffer .ilp32 buffer offset (i32 node'.fileSize) (buffer.length + 1) node'
        (offset / 4096) (offset % 4096) 0 0 >>= fun node'' =>
      unmapAndDestroyNode node'' (2 + n) >>= fun _ => pure buffer.length)
      (fun r u => r = buffer.length ∧
        Keeps n v (writtenSize node.fileSize offset buffer.length) u)
      (fun e u => e.IsAlloc ∧ .stop ∈ all ∧ OnlyFile n v u) w := by
  have hE : ∀ (e : Fault) (u : View), e.IsAlloc → KeyUse.stop ∈ all → OnlyFile n v u →
      e.IsAlloc ∧ KeyUse.stop ∈ all ∧ OnlyFile n v u := fun e u he hmem honly => ⟨he, hmem, honly⟩
  apply vwp_bind
  apply vwp_completarOffset_reaches _ _ hE (offset + 1) node w K offset h (Nat.lt_succ_self _)
    hoffset rfl hsize hfollowed hall
  intro node' w' K' hreaches hsize' hsmall hfollowed' hall'
  have hfree := freeCount_le w'.used 34 3000
  rw [← hsize'] at hsmall
  apply vwp_bind
  apply vwp_escribirBuffer_reaches (i32 node'.fileSize) _ hE (buffer.length + 1) node' w' K' 0
    hreaches (Nat.zero_le _) (by omega) hsmall (by omega) rfl hfollowed' hall'
  intro node'' w'' K'' hreaches' hwritten
  apply vwp_bind
  apply vwp_unmapAndDestroyNode hn hreaches'.fits
  apply vwp_pure
  refine ⟨rfl, ?_⟩
  have hS : writtenSize node.fileSize offset buffer.length = node''.fileSize := by
    rw [hwritten, writtenSize, ← hsize']
    split
    next hempty => rw [if_neg (by omega)]
    next hpos => rw [if_pos (by omega)]
  rw [hS]
  exact hreaches'.keeps

/-- INTERNAL: **`sac_write` stays in the file** when the blocks that it looks up are there.
SRCLINE: sacio.c:152-246 -/
theorem vwp_sacWrite_reaches (hn : n < 32) (hname : (v.inode n).name.isSome)
    (h : Reaches n v (GoesThrough ((slotsOf v (v.inode n)).write offset buffer.length)) K v
      (v.inode n)) (hoffset : offset < 2 ^ 31)
    (hsize : (v.inode n).fileSize / 4096 + 1 < 1024 * 1000)
    (hfollowed : Followed K ((slotsOf v (v.inode n)).write offset buffer.length)) :
    vwp (sacWrite .ilp32 n buffer (offset : ℤ))
      (fun r u => r = buffer.length ∧
        Keeps n v (writtenSize (v.inode n).fileSize offset buffer.length) u)
      (fun e u => e.IsAlloc ∧ .stop ∈ (slotsOf v (v.inode n)).write offset buffer.length ∧
        OnlyFile n v u) v := by
  apply vwp_sacWrite_read hn hname hoffset
  intro node hnode
  rw [← hnode] at h hsize hfollowed ⊢
  have hfs : (inodeOfNode node).fileSize = node.fileSize := rfl
  rw [hfs] at hsize ⊢
  generalize hwrite : (slotsOf v (inodeOfNode node)).write offset buffer.length = all at h ⊢
  have hall : (slotsOf v (inodeOfNode node)).write offset buffer.length ⊆ all := by
    rw [hwrite]
    exact List.Subset.refl all
  rw [Slots.write] at hfollowed hall
  by_cases hptr : node.indirectPointerBlock 0 = 0
  · have hunset : ¬ (slotsOf v (inodeOfNode node)).isSet 0 = true := by
      simp [slotsOf, inodeOfNode, hptr]
    rw [if_neg hunset] at hfollowed hall
    rw [if_pos hptr]
    apply vwp_addDataBlockToNode_reaches _ h (by omega) hfollowed hall _
      fun e u he hmem honly => ⟨he, hmem, honly⟩
    intro node' w' K' hfs' hreaches _ hfollowed' hall'
    rw [← hfs'] at hsize ⊢
    exact vwp_sacWrite_loops hn hreaches hoffset hsize hfollowed' hall'
  · have hset : (slotsOf v (inodeOfNode node)).isSet 0 = true := by
      simp [slotsOf, inodeOfNode, hptr]
    rw [if_pos hset] at hfollowed hall
    rw [if_neg hptr]
    exact vwp_pure (vwp_sacWrite_loops hn h hoffset hsize hfollowed hall)

/-- INTERNAL: the same for a file, of which only the blocks that the write uses have to be sound. -/
theorem SoundAt.vwp_sacWrite (hname : (v.inode n).name.isSome) (hfits : (v.inode n).Fits)
    (h : SoundAt v n ((slotsOf v (v.inode n)).write offset buffer.length))
    (hoffset : offset < 2 ^ 31)
    (hfollowed : Followed (fun k => v.held n (.data k))
      ((slotsOf v (v.inode n)).write offset buffer.length)) :
    vwp (sacWrite .ilp32 n buffer (offset : ℤ))
      (fun r u => r = buffer.length ∧
        Keeps n v (writtenSize (v.inode n).fileSize offset buffer.length) u)
      (fun e u => e.IsAlloc ∧ .stop ∈ (slotsOf v (v.inode n)).write offset buffer.length ∧
        OnlyFile n v u) v := by
  apply vwp_sacWrite_reaches h.live.1 hname (h.reaches hfits) hoffset h.size
  exact hfollowed.mono fun k hk hheld => ⟨hk, hheld.2⟩

end Loops

end LinuseFs.Analysis
