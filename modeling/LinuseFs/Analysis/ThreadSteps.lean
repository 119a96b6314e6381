import LinuseFs.Model.Threads
import LinuseFs.Analysis.Creation

/-!
# The steps of a creation

Requests that create in one directory meet at its node: each reads it, works on its own copy, and
writes the copy back.  Between the two only blocks of the directory, free blocks and a free slot
of the node table are written, so the other nodes stay as they are (`Kept`) after each step, and
what is read of them meanwhile is what was there before.
-/

set_option autoImplicit false

namespace LinuseFs.Analysis

open LinuseFs.Computation LinuseFs.Model LinuseFs.Interface

/-- In `w` the nodes of `v` other than `d` are in use, with the same fields and contents. -/
structure Kept (v : View) (d : ℕ) (w : View) : Prop where
  live : ∀ m, m ≠ d → v.live m → w.live m
  inode : ∀ m, m ≠ d → v.live m → w.inode m = v.inode m
  data : ∀ m r, m ≠ d → v.held m r → w.data (v.place m r) = v.data (v.place m r)

section Kept

variable {v u w : View} {d m : ℕ}

theorem Kept.refl (v : View) (d : ℕ) : Kept v d v :=
  ⟨fun _ _ hm => hm, fun _ _ _ => rfl, fun _ _ _ _ => rfl⟩

/-- INTERNAL: the other nodes hold their blocks at the same places. -/
theorem Kept.place (hk : Kept v d w) (h : Core v) (hm : m ≠ d) {r : Ref} (hr : v.held m r) :
    w.held m r ∧ w.place m r = v.place m r := by
  have hinode := hk.inode m hm hr.1
  refine ⟨⟨hk.live m hm hr.1, by rw [hinode]; exact hr.2⟩, ?_⟩
  cases r with
  | ptr i => simp only [View.place, hinode]
  | data k =>
    have hptr := (h.node m hr.1).refers_ptr hr.2
    simp only [View.place, hinode]
    exact dataBlock_congr (hk.data m (.ptr (k / 1024)) hm ⟨hr.1, hptr⟩)

theorem Kept.trans (hk : Kept v d u) (hk' : Kept u d w) (h : Core v) : Kept v d w where
  live m hm hl := hk'.live m hm (hk.live m hm hl)
  inode m hm hl := (hk'.inode m hm (hk.live m hm hl)).trans (hk.inode m hm hl)
  data m r hm hr := by
    obtain ⟨hr', hplace⟩ := hk.place h hm hr
    rw [← hk.data m r hm hr, ← hplace]
    exact hk'.data m r hm hr'

theorem Kept.setUsed (hk : Kept v d w) (b : ℕ) : Kept v d (w.setUsed b true) where
  live m hm hl := ⟨hl.1, View.used_setUsed_true (hk.live m hm hl).2⟩
  inode := hk.inode
  data := hk.data

theorem Kept.setInode (hk : Kept v d w) {n : ℕ} (hn : n = d ∨ ¬ v.live n) (nd : Inode) :
    Kept v d (w.setInode n nd) where
  live := hk.live
  inode m hm hl := by
    have hne : m ≠ n := by
      rintro rfl
      exact hn.elim hm fun hdead => hdead hl
    rw [View.setInode_ne _ hne]
    exact hk.inode m hm hl
  data := hk.data

/-- INTERNAL: the node of the directory does not matter. -/
theorem Kept.of_setInode {nd : Inode} (hk : Kept v d (w.setInode d nd)) : Kept v d w where
  live := hk.live
  inode m hm hl := by
    rw [← hk.inode m hm hl, View.setInode_ne _ hm]
  data := hk.data

/-- INTERNAL: a block that is free, or one of the directory. -/
theorem Kept.setData (hk : Kept v d w) (h : Core v) {b : ℕ}
    (hb : v.used b = false ∨ ∃ r, v.held d r ∧ v.place d r = b) (bytes : Bytes) :
    Kept v d (w.setData b bytes) where
  live := hk.live
  inode := hk.inode
  data m r hm hr := by
    have hne : v.place m r ≠ b := by
      rintro rfl
      rcases hb with hfree | ⟨q, hq, hplace⟩
      · exact not_inData hfree (h.inData hr)
      · exact hm (h.own.inj m r d q hr hq hplace.symm).1
    rw [View.setData_ne _ hne]
    exact hk.data m r hm hr

/-- INTERNAL: a directory other than `d` has the same records at the same place. -/
theorem Kept.records (hk : Kept v d w) (h : Core v) (hm : m ≠ d) (hl : v.live m)
    (hstate : (v.inode m).state = 2) :
    w.records (v.inode m) = v.records (v.inode m) ∧ DirBlocks w (v.inode m) := by
  have hdir := dirBlocks h hl hstate
  have hheld : (v.inode m).fileSize ≠ 0 → v.held m (.data 0) :=
    fun hsize => ⟨hl, (hdir.ok.refers_data hstate 0).mpr ⟨rfl, hsize⟩⟩
  have hptr : (v.inode m).fileSize ≠ 0 →
      w.data ((v.inode m).ptr 0) = v.data ((v.inode m).ptr 0) := fun hsize =>
    hk.data m (.ptr 0) hm ⟨hl, (h.node m hl).refers_ptr (hheld hsize).2⟩
  obtain ⟨hrecords, hok⟩ := records_congr hdir.ok hptr
    fun hsize => hk.data m (.data 0) hm (hheld hsize)
  refine ⟨hrecords, hok, hdir.ptr, fun hsize => ?_⟩
  rw [dataBlock_congr (hptr hsize)]
  exact hdir.data hsize

end Kept

/-! ## The directory where they meet -/

/-- The step reads the node `d`. -/
def readsNode (d : ℕ) : DiskStep → Bool
  | .readNode nodeNum => nodeNum == d
  | _ => false

/-- The step writes the node `d` back. -/
def writesNode (d : ℕ) : DiskStep → Bool
  | .nodeToBlock _ block => block == 2 + d
  | _ => false

/-- Requests on the disk `v` that meet at the node `d`. -/
def meetingAt (v : View) (d : ℕ) : Meeting Fault SacState View DiskStep.Answer where
  exec := DiskStep.exec
  view := viewOf
  enter := readsNode d
  leave := writesNode d
  calm := Kept v d

/-! ## Looking for it -/

section Search

variable {v w : View} {d m : ℕ} {name : List UInt8}

/-- INTERNAL: the entry for a piece in a directory other than `d`. SRCLINE: directory.c:26-33 -/
theorem Kept.vwp_getEntry {Q : DirEntry → View → Prop} {E : Fault → View → Prop} {node : Node}
    (hk : Kept v d w) (h : Core v) (hm : m ≠ d) (hl : v.live m) (hstate : (v.inode m).state = 2)
    (hnode : inodeOfNode node = v.inode m) (hname : name ≠ []) {n : ℕ}
    (hlookup : v.tree.lookup m name = some n)
    (hQ : ∀ e, e.nodeNum = n → isValidEntry e = true → Q e w) :
    vwp (getEntry node name) Q E w := by
  obtain ⟨hrecords, hdir⟩ := hk.records h hm hl hstate
  have hnode_state : node.state = 2 := by
    rw [← hstate, ← hnode]
    rfl
  rw [← hnode] at hdir hrecords
  apply LinuseFs.Analysis.vwp_getEntry hnode_state hdir hname
  intro e he
  cases he with
  | found l₁ l₂ k records first name_eq nodeNum _ _ =>
    rw [hrecords, hnode] at records
    have hfound := lookup_of_first hl hstate records first
    rw [hlookup] at hfound
    apply hQ e (by rw [nodeNum, Option.some.inj hfound])
    rw [isValidEntry_iff, name_eq]
    exact hname
  | missing none _ _ =>
    rw [hrecords, hnode] at none
    rw [lookup_of_none hl hstate none] at hlookup
    cases hlookup

/-- INTERNAL: a step outside of the section. -/
theorem quietly_step {l : DiskStep} {Q : l.Answer → Prop} (hl : (meetingAt v d).within l)
    (h : ∀ w, Kept v d w → vwp l.exec (fun b u => u = w ∧ Q b) (fun _ _ => True) w) :
    (meetingAt v d).Quietly (Steps.atomic l) Q :=
  Meeting.Quietly.atomic hl h

/-- INTERNAL: **the walk to the directory** reads and writes back only the nodes on the way, by
induction on the pieces. SRCLINE: directory.c:26-33 -/
theorem quietly_searchPieces (h : Inv v none)
    (hreach : Relation.ReflTransGen v.tree.Child 0 d) (ps : List (List UInt8)) {e : DirEntry}
    (hlive : v.live e.nodeNum) (hvalid : isValidEntry e = true) (hps : ∀ p ∈ ps, p ≠ [])
    (hwalk : v.tree.walk e.nodeNum ps = some d) :
    (meetingAt v d).Quietly (Threaded.searchPieces ps e)
      fun e' => e'.nodeNum = d ∧ isValidEntry e' = true := by
  induction ps generalizing e with
  | nil => exact ⟨Option.some.inj hwalk, hvalid⟩
  | cons p ps ih =>
    have hm : e.nodeNum ≠ d := by
      intro he
      rw [he] at hwalk hlive
      exact h.tree.walk_ne_self hreach hlive p ps hwalk
    obtain ⟨c, hc, hstate⟩ : ∃ c, v.tree.lookup e.nodeNum p = some c ∧
        (v.inode e.nodeNum).state = 2 := by
      cases hlookup : v.tree.lookup e.nodeNum p with
      | none =>
        simp only [Namespace.walk, hlookup] at hwalk
        cases hwalk
      | some c =>
        refine ⟨c, rfl, ?_⟩
        by_contra hstate
        have hmem := Namespace.lookup_eq_some hlookup
        rw [entries_of_state_ne hstate] at hmem
        cases hmem
    simp only [Namespace.walk, hc] at hwalk
    rw [Threaded.searchPieces, if_pos hvalid]
    -- the copy of a node on the way, the entry found in it, and the copy written back
    refine (quietly_step (l := .readNode e.nodeNum)
      (Q := fun x => inodeOfNode x.1 = v.inode e.nodeNum ∧ x.2 = 2 + e.nodeNum)
      ⟨beq_eq_false_iff_ne.mpr hm, rfl⟩ fun w hw => ?_).bind ?_
    · have hinode := hw.inode _ hm hlive
      apply vwp_readNode hlive.1 (by rw [hinode]; exact (h.node _ hlive).named)
      intro node hnode
      exact ⟨rfl, hnode.trans hinode, rfl⟩
    rintro ⟨node, nodeBlock⟩ ⟨hnode, rfl⟩
    refine (quietly_step (l := .getEntry node p)
      (Q := fun e' => e'.nodeNum = c ∧ isValidEntry e' = true) ⟨rfl, rfl⟩ fun w hw => ?_).bind ?_
    · exact hw.vwp_getEntry h.toCore hm hlive hstate hnode (hps p List.mem_cons_self) hc
        fun e' hnum hvalid' => ⟨rfl, hnum, hvalid'⟩
    rintro e' ⟨rfl, hvalid'⟩
    refine (quietly_step (l := .nodeToBlock node (2 + e.nodeNum)) (Q := fun _ => True)
      ⟨rfl, beq_eq_false_iff_ne.mpr (by omega)⟩ fun w hw => ?_).bind fun _ _ => ?_
    · refine vwp_nodeToBlock hlive.1 (by rw [hnode]; exact (h.node _ hlive).fits) ⟨?_, trivial⟩
      rw [hnode, ← hw.inode _ hm hlive, View.setInode_self]
    · exact ih (h.tree.target_live _ hlive _ (Namespace.mem_targets_of_lookup hc)) hvalid'
        (fun q hq => hps q (List.mem_cons_of_mem _ hq)) hwalk

end Search

/-! ## At the directory -/

section Inside

variable {v₀ v u : View} {d : ℕ} {name : List UInt8} {node : Node}

/-- INTERNAL: a step inside of the section. -/
theorem stepwise_step {l : DiskStep} {Q : l.Answer → View → Prop}
    (hl : (meetingAt v₀ d).within l)
    (h : vwp l.exec (fun b u => Kept v₀ d u ∧ Q b u) (fun _ _ => True) v) :
    (meetingAt v₀ d).Stepwise (Steps.atomic l) Q v :=
  Meeting.Stepwise.atomic hl h

theorem stepwise_pointerAt {Q : ℕ → View → Prop} {i : ℕ} (hi : i < 1000)
    (h : Q (node.indirectPointerBlock i) u) :
    (meetingAt v₀ d).Stepwise (Threaded.pointerAt node i) Q u := by
  unfold Threaded.pointerAt
  rw [if_pos hi]
  exact h

theorem stepwise_setPointer {Q : Node → View → Prop} {i x : ℕ} (hi : i < 1000)
    (h : Q { node with indirectPointerBlock := Function.update node.indirectPointerBlock i x } u) :
    (meetingAt v₀ d).Stepwise (Threaded.setPointer node i x) Q u := by
  unfold Threaded.setPointer
  rw [if_pos hi]
  exact h

/-- INTERNAL: the rounds of the scan, by induction on their number. SRCLINE: bitmap.c:31-33 -/
theorem stepwise_scanBitmap {Q : ℕ → View → Prop} (hu : Kept v₀ d u) (n i : ℕ)
    (hQ : ∀ b, i ≤ b → u.used b = false → Q b u) :
    (meetingAt v₀ d).Stepwise (Threaded.scanBitmap n i) Q u := by
  induction n generalizing i with
  | zero => trivial
  | succ n ih =>
    refine (stepwise_step (l := .blockIsFree i) (Q := fun (free : Bool) w =>
      (meetingAt v₀ d).Stepwise (if free then return i else Threaded.scanBitmap n (i + 1)) Q w)
      ⟨rfl, rfl⟩ ?_).bind
    rintro s rfl
    refine ⟨hu, ?_⟩
    by_cases hfree : s.used i = true
    · have htest : Model.blockIsFree s i = false := by rw [Model.blockIsFree, hfree]; rfl
      rw [if_neg (by rw [htest]; decide)]
      exact ih (i + 1) fun b hb => hQ b (by omega)
    · rw [Bool.not_eq_true] at hfree
      have htest : Model.blockIsFree s i = true := by rw [Model.blockIsFree, hfree]; rfl
      rw [if_pos htest]
      exact hQ i le_rfl hfree

/-- INTERNAL: **the allocator.** SRCLINE: bitmap.c:29-38 -/
theorem stepwise_getFreeBlock {Q : ℕ → View → Prop} {lo hi : ℕ} (hu : Kept v₀ d u)
    (hhi : hi ≤ 3000)
    (hQ : ∀ b, lo ≤ b → b < hi → u.used b = false → Q b (u.setUsed b true)) :
    (meetingAt v₀ d).Stepwise (Threaded.getFreeBlock lo hi) Q u := by
  refine Meeting.Stepwise.bind (stepwise_scanBitmap hu _ _ fun b hlo hfree => ?_)
  split
  · trivial
  · refine (stepwise_step (l := .bitarraySetBit b) (Q := fun _ w => Q b w) ⟨rfl, rfl⟩ ?_).bind
    rintro s rfl
    apply bitarraySetBit_wp (by omega)
    rw [viewOf_take]
    exact ⟨hu.setUsed b, hQ b hlo (by omega) hfree⟩

theorem stepwise_getFreeNodeBlock {Q : ℕ → View → Prop} (hu : Kept v₀ d u)
    (hQ : ∀ n, n < 32 → u.used (2 + n) = false → Q (2 + n) (u.setUsed (2 + n) true)) :
    (meetingAt v₀ d).Stepwise Threaded.getFreeNodeBlock Q u := by
  refine stepwise_getFreeBlock hu (by decide) fun b (hlo : 2 ≤ b) (hhi : b < 34) hfree => ?_
  have := hQ (b - 2) (by omega)
  rw [show 2 + (b - 2) = b by omega] at this
  exact this hfree

theorem stepwise_getFreeDataBlock {Q : ℕ → View → Prop} (hu : Kept v₀ d u)
    (hQ : ∀ b, 34 ≤ b → b < 3000 → u.used b = false → Q b (u.setUsed b true)) :
    (meetingAt v₀ d).Stepwise Threaded.getFreeDataBlock Q u :=
  stepwise_getFreeBlock hu le_rfl hQ

/-- INTERNAL: a store into a block that the others do not hold. -/
theorem stepwise_store {Q : View → Prop} {b pos len : ℕ} {src : Bytes} (hb : 34 ≤ b)
    (hb' : b < 3000) (hp : pos + len ≤ 4096)
    (hkept : Kept v₀ d (u.setData b (memcpy (u.data b) pos src len)))
    (hQ : Q (u.setData b (memcpy (u.data b) pos src len))) :
    (meetingAt v₀ d).Stepwise (Threaded.store b pos src len) (fun _ => Q) u :=
  stepwise_step (l := .store b pos src len) ⟨rfl, rfl⟩ (vwp_store hb hb' hp ⟨hkept, hQ⟩)

/-- INTERNAL: the data block for the next record: the one there is, or a new one in a new
pointer block. SRCLINE: directory.c:194-213 -/
theorem stepwise_readNextDataBlock {Q : ℕ × Node → View → Prop} (h : Core v)
    (hcalm : ∀ u, Kept v d u → Kept v₀ d u) (hd : v.live d) (hstate : (v.inode d).state = 2)
    (hnode : inodeOfNode node = v.inode d) (byteNum : ℕ)
    (hQ : ∀ b y node₁ w, NextBlock v w d b y node₁ → Kept v d w → Q (b, node₁) w) :
    (meetingAt v₀ d).Stepwise (Threaded.readNextDataBlock node ⟨0, 0, byteNum⟩) Q v := by
  have hok := (h.node d hd).dir hstate
  have hptr : node.indirectPointerBlock 0 = (v.inode d).ptr 0 := by rw [← hnode]; rfl
  have hv := Kept.refl v d
  unfold Threaded.readNextDataBlock
  dsimp only
  refine Meeting.Stepwise.bind (stepwise_pointerAt (by omega) ?_)
  by_cases hsize : (v.inode d).fileSize = 0
  · rw [if_pos (by rw [hptr]; exact hok.ptr_zero.mpr hsize)]
    refine Meeting.Stepwise.bind (Meeting.Stepwise.bind (stepwise_getFreeDataBlock (hcalm _ hv)
      fun y hy hy' hyfree => ?_))
    refine Meeting.Stepwise.bind (stepwise_setPointer (by omega) ?_)
    refine Meeting.Stepwise.bind (Meeting.Stepwise.bind (stepwise_getFreeDataBlock
      (hcalm _ (hv.setUsed y)) fun x hx hx' hxfree => ?_))
    have hxy : x ≠ y := by
      rintro rfl
      rw [View.setUsed_same] at hxfree
      cases hxfree
    rw [View.setUsed_ne _ hxy] at hxfree
    refine Meeting.Stepwise.bind (stepwise_pointerAt (by omega) ?_)
    have hptr' : Function.update node.indirectPointerBlock 0 y 0 = y := Function.update_self ..
    dsimp only
    rw [hptr', readBlock_of_lt hy']
    have hslot : Kept v d (setSlot ((v.setUsed y true).setUsed x true) y 0 x) :=
      ((hv.setUsed y).setUsed x).setData h (Or.inl hyfree) _
    refine Meeting.Stepwise.bind (stepwise_store hy hy' (by omega) (hcalm _ hslot) ?_)
    show Q (readBlock x, _) _
    rw [readBlock_of_lt hx']
    exact hQ x y _ _ (nextBlock_new hnode hsize hx hx' hy hy' hxy hxfree hyfree) hslot
  · have hdir := dirBlocks h hd hstate
    obtain ⟨h1, h2⟩ := hdir.ptr hsize
    have hne : node.indirectPointerBlock 0 ≠ 0 := by
      rw [hptr]
      exact fun e => hsize (hok.ptr_zero.mp e)
    rw [if_neg hne, hptr, readBlock_of_lt h2]
    refine Meeting.Stepwise.bind (stepwise_step (l := .bytesToInt32 ((v.inode d).ptr 0) (0 * 4))
      ⟨rfl, rfl⟩ (vwp_bytesToInt32 h1 h2 (by omega) ⟨hcalm _ hv, ?_⟩))
    have hslot : leNat (v.data ((v.inode d).ptr 0)) (0 * 4) 4 = v.dataBlock (v.inode d) 0 := rfl
    rw [hslot]
    show Q (readBlock _, _) _
    rw [readBlock_of_lt (hdir.data hsize).2]
    exact hQ _ _ _ _ (nextBlock_own h hd hstate hnode hsize) hv

/-- INTERNAL: **`add_directory_entry`** appends the record. SRCLINE: directory.c:40-56 -/
theorem stepwise_addDirectoryEntry {Q : Node → View → Prop} {n : ℕ} (h : Core v)
    (hcalm : ∀ u, Kept v d u → Kept v₀ d u) (hd : v.live d) (hstate : (v.inode d).state = 2)
    (hsize : (v.inode d).fileSize ≤ 3840) (hnode : inodeOfNode node = v.inode d) (hn : n < 2 ^ 32)
    (hname : name ≠ []) (hnul : (0 : UInt8) ∉ name) (hlen : name.length < 71)
    (hQ : ∀ node' w, w.inode = v.inode →
      Appended v (w.setInode d (inodeOfNode node')) d name n → Q node' w) :
    (meetingAt v₀ d).Stepwise (Threaded.addDirectoryEntry node name n) Q v := by
  refine Meeting.Stepwise.bind (stepwise_step (l := .malloc) ⟨rfl, rfl⟩
    (vwp_malloc fun stack => ⟨hcalm _ (Kept.refl v d), ?_⟩))
  rw [if_pos (by omega), getNextWritePosition_dir hnode (by omega)]
  refine Meeting.Stepwise.bind (stepwise_readNextDataBlock h hcalm hd hstate hnode _
    fun b y node₁ w hw hkept => ?_)
  have hb := hw.inData
  have hown : v.used b = false ∨ ∃ r, v.held d r ∧ v.place d r = b := by
    rcases hw.own with ⟨hne, -, rfl, -⟩ | ⟨-, -, hfree⟩
    · exact Or.inr ⟨.data 0, ⟨hd, (((h.node d hd).dir hstate).refers_data hstate 0).mpr ⟨rfl, hne⟩⟩,
        rfl⟩
    · exact Or.inl hfree
  have hkept₁ := hkept.setData h hown (memcpy (w.data b) (v.inode d).fileSize (leBytes n) 4)
  refine Meeting.Stepwise.bind (stepwise_store hb.1 hb.2.1
    (show (v.inode d).fileSize + 4 ≤ 4096 by omega) (hcalm _ hkept₁) ?_)
  have hkept₂ := hkept₁.setData h hown (memcpy
    ((w.setData b (memcpy (w.data b) (v.inode d).fileSize (leBytes n) 4)).data b)
    ((v.inode d).fileSize + 4) (entryName stack name) 124)
  refine Meeting.Stepwise.bind (stepwise_store hb.1 hb.2.1
    (show (v.inode d).fileSize + 4 + 124 ≤ 4096 by omega) (hcalm _ hkept₂) ?_)
  refine hQ _ _ hw.inode ?_
  rw [View.setData_same]
  exact hw.append h hd hstate hsize stack hn hname hnul hlen

/-- INTERNAL: a node written to a slot that is not another node's. SRCLINE: utils.c:146-161 -/
theorem stepwise_nodeToBlock {Q : View → Prop} {n : ℕ} (hn : n < 32) (hnd : n ≠ d)
    (hfits : (inodeOfNode node).Fits) (hkept : Kept v₀ d (u.setInode n (inodeOfNode node)))
    (hQ : Q (u.setInode n (inodeOfNode node))) :
    (meetingAt v₀ d).Stepwise (Threaded.nodeToBlock node (2 + n)) (fun _ => Q) u :=
  stepwise_step (l := .nodeToBlock node (2 + n)) ⟨rfl, beq_eq_false_iff_ne.mpr (by omega)⟩
    (vwp_nodeToBlock hn hfits ⟨hkept, hQ⟩)

/-- INTERNAL: the node that is built for an entry of `d`, if the name fits. SRCLINE:
directory.c:153-159, file.c:52-58 -/
theorem stepwise_newNode {Q : Node → View → Prop} {state : UInt8} (hu : Kept v₀ d u)
    (hnul : (0 : UInt8) ∉ name)
    (hQ : ∀ new date, name.length ≤ 70 → date < 2 ^ 64 →
      inodeOfNode new = newInode state name d date → Q new u) :
    (meetingAt v₀ d).Stepwise (do
      let date ← Threaded.time
      Threaded.createNode state name (getBlockNumFromNodeNum d) 0 date date fun _ => 0) Q u := by
  refine Meeting.Stepwise.bind (stepwise_step (l := .time) ⟨rfl, rfl⟩
    (vwp_time fun date hdate => ⟨hu, ?_⟩))
  refine Meeting.Stepwise.bind (stepwise_step (l := .malloc) ⟨rfl, rfl⟩
    (vwp_malloc fun fresh => ⟨hu, ?_⟩))
  split
  next hlen =>
    apply hQ _ date (Nat.le_of_lt_succ hlen) hdate
    simp only [inodeOfNode, newInode, getBlockNumFromNodeNum, nodeTableInitialBlock_eq,
      Inode.mk.injEq, and_self, and_true, true_and]
    exact cstr_memcpy_ofList fresh 0 71 _ hnul hlen (by omega)
  next => trivial

/-- INTERNAL: the record of the new node. SRCLINE: directory.c:178, file.c:38 -/
theorem stepwise_addNewEntry {Q : Node → View → Prop} {n date : ℕ} {state : UInt8}
    (h : Inv v none) (hcalm : ∀ u, Kept v d u → Kept v₀ d u) (hd : v.live d)
    (hstate : (v.inode d).state = 2) (hnode : inodeOfNode node = v.inode d) (hname : name ≠ [])
    (hnul : (0 : UInt8) ∉ name) (hlen : name.length ≤ 70) (hn : n < 32)
    (hfree : v.used (2 + n) = false) (hdate : date < 2 ^ 64) (hkind : state = 1 ∨ state = 2)
    (hQ : ∀ node' w, (inodeOfNode node').Fits → w.inode n = newInode state name d date →
      Created v (w.setInode d (inodeOfNode node')) d name n (newInode state name d date) →
      Q node' w) :
    (meetingAt v₀ d).Stepwise (Threaded.addDirectoryEntry node name n) Q
      (withNode v n (newInode state name d date)) := by
  obtain ⟨hcore, hd', hinode, hsize⟩ := dir_withNode name h hd hstate hn hfree hdate hkind
  have hdead : ¬ v.live n := fun hl => by
    rw [hl.2] at hfree
    cases hfree
  have hkept : Kept v d (withNode v n (newInode state name d date)) :=
    ((Kept.refl v d).setUsed (2 + n)).setInode (Or.inr hdead) _
  refine stepwise_addDirectoryEntry hcore (fun u hu => hcalm u (hkept.trans hu h.toCore)) hd'
    (by rw [hinode, hstate]) (by rw [hinode]; exact hsize) (hnode.trans hinode.symm) (by omega) hname
    hnul (by omega) fun node' w hw ha => ?_
  refine hQ node' w (ha.fits hd') ?_ (created h hn hfree hd hstate hdate hkind ha)
  rw [hw]
  exact View.setInode_same ..

/-- INTERNAL: **`create_dir_node_and_add_entry`**, up to the write-back of the directory.
SRCLINE: directory.c:168-179 -/
theorem stepwise_createDirNodeAndAddEntry {Q : Node → View → Prop} (h : Inv v none)
    (hcalm : ∀ u, Kept v d u → Kept v₀ d u) (hd : v.live d) (hstate : (v.inode d).state = 2)
    (hnode : inodeOfNode node = v.inode d) (hname : name ≠ []) (hnul : (0 : UInt8) ∉ name)
    (hQ : ∀ node' w n date, (inodeOfNode node').Fits →
      Created v (w.setInode d (inodeOfNode node')) d name n (newInode 2 name d date) → Q node' w) :
    (meetingAt v₀ d).Stepwise (Threaded.createDirNodeAndAddEntry node d name) Q v := by
  have hv := Kept.refl v d
  refine Meeting.Stepwise.bind (stepwise_getFreeNodeBlock (hcalm _ hv) fun n hn hfree => ?_)
  have hdead : ¬ v.live n := fun hl => by
    rw [hl.2] at hfree
    cases hfree
  have hnd : n ≠ d := fun e => hdead (e ▸ hd)
  have hslot : 2 + n - nodeTableInitialBlock = n := Nat.add_sub_cancel_left 2 n
  have hused := hv.setUsed (2 + n)
  dsimp only
  rw [hslot]
  refine Meeting.Stepwise.bind (Meeting.Stepwise.bind (stepwise_newNode (hcalm _ hused) hnul
    fun new date hlen hdate hnew => ?_))
  have hfits : (inodeOfNode new).Fits := by
    rw [hnew]
    exact newInode_fits name 2 hd.1 hdate
  rw [readBlock_of_lt (show 2 + n < 3000 by omega)]
  have hkept := hused.setInode (Or.inr hdead) (inodeOfNode new)
  refine Meeting.Stepwise.bind (stepwise_nodeToBlock hn hnd hfits (hcalm _ hkept) ?_)
  apply stepwise_nodeToBlock hn hnd hfits (hcalm _ (hkept.setInode (Or.inr hdead) _))
  rw [View.setInode_setInode, hnew]
  exact stepwise_addNewEntry h hcalm hd hstate hnode hname hnul hlen hn hfree hdate (Or.inr rfl)
    fun node' w hfits' _ hcreated => hQ node' w n date hfits' hcreated

/-- INTERNAL: `exists_entry` for a name that the directory does not list.
SRCLINE: directory.c:108-111 -/
theorem stepwise_existsEntry {Q : Bool → View → Prop} (h : Core v) (hcalm : Kept v₀ d v)
    (hd : v.live d) (hstate : (v.inode d).state = 2) (hnode : inodeOfNode node = v.inode d)
    (hname : name ≠ []) (hmissing : v.tree.lookup d name = none) (hQ : Q false v) :
    (meetingAt v₀ d).Stepwise (Threaded.existsEntry node name) Q v := by
  refine Meeting.Stepwise.bind (stepwise_step (l := .getEntry node name) ⟨rfl, rfl⟩ ?_)
  refine vwp_getEntry_walk h hd hnode (Or.inl hstate) hname (fun e hfound _ _ => ?_)
    fun e _ hinvalid _ => ⟨hcalm, ?_⟩
  · rw [hmissing] at hfound
    cases hfound
  · show Q (isValidEntry e) v
    rw [hinvalid]
    exact hQ

/-- INTERNAL: the step that writes the node of the directory back. -/
theorem inside_writeBack {α : Type} {P : View → Prop} (a : α) (hd : d < 32)
    (hfits : (inodeOfNode node).Fits) (hP : P (u.setInode d (inodeOfNode node))) :
    (meetingAt v₀ d).Inside P (do
      Threaded.unmapAndDestroyNode node (2 + d)
      return a) u := by
  have hleft : vwp (nodeToBlock node (2 + d)) (fun _ => P) (fun _ _ => True) u :=
    vwp_nodeToBlock hd hfits hP
  exact Meeting.inside_leave (l := DiskStep.nodeToBlock node (2 + d)) (beq_self_eq_true (2 + d)) rfl
    hleft

end Inside

end LinuseFs.Analysis
