import LinuseFs.Analysis.ReservationOrder
import LinuseFs.Analysis.SearchRuns

/-!
# Which blocks an operation takes

The state before an operation says how many slots of the node table and how many data blocks it
takes; it takes the lowest free ones.
-/

set_option autoImplicit false

namespace LinuseFs.Analysis

open LinuseFs.Computation LinuseFs.Model LinuseFs.Interface

/-! ## How many blocks -/

/-- The directory into which the path enters a new name. -/
def newEntryIn (v : View) (path : CString) : Option ℕ :=
  if v.tree.walk 0 (stringSplit path.val) = none then
    v.tree.walk 0 (stringSplit path.val).dropLast
  else none

/-- A record needs a pointer block and a data block in a directory that has no other one. -/
def blocksForRecord (fileSize : ℕ) : ℕ := if fileSize = 0 then 2 else 0

/-- The last pointer that a write from `a` up to `b` may set. -/
def lastSet (nd : Inode) (a b : ℕ) : ℕ :=
  if a / 4096 < b / 4096 then lastPointer nd.fileSize b else 0

/-- A write from `a` up to `b` needs a data block for each one that it fills, the first data block
of a file that has none, and pointer blocks for these. -/
def blocksForWrite (nd : Inode) (a b : ℕ) : ℕ :=
  (if nd.ptr 0 = 0 then 1 else 0) + (b / 4096 - a / 4096) +
    ((Finset.range (lastSet nd a b + 1)).filter fun i => nd.ptr i = 0).card

/-- The slots of the node table that an operation takes. -/
def nodesTaken (v : View) : Operation → ℕ
  | .mkdir path | .open path => if (newEntryIn v path).isSome then 1 else 0
  | _ => 0

/-- The data blocks and pointer blocks that an operation takes. -/
def blocksTaken (v : View) : Operation → ℕ
  | .mkdir path | .open path =>
    match newEntryIn v path with
    | some d => blocksForRecord (v.inode d).fileSize
    | none => 0
  | .rmdir _ | .remove _ => 0
  | .rename oldPath newPath =>
    match v.tree.walk 0 (stringSplit oldPath.val).dropLast,
      v.tree.walk 0 (stringSplit newPath.val).dropLast with
    | some d, some d' =>
      blocksForRecord (if d' = d then (v.inode d).fileSize - 128 else (v.inode d').fileSize)
    | _, _ => 0
  | .write fd buffer offset =>
    blocksForWrite (v.inode fd) (min offset (v.inode fd).fileSize) (offset + buffer.length)
  | .truncate path lenght =>
    match v.tree.walk 0 (stringSplit path.val) with
    | some n =>
      if (v.inode n).state = 1 ∧ (v.inode n).fileSize < lenght then
        blocksForWrite (v.inode n) (v.inode n).fileSize lenght
      else 0
    | none => 0

/-- The block is among the lowest free slots of the node table, so many as `nodes`, or among the
lowest free data blocks, so many as `blocks`. -/
def AmongLowest (used : ℕ → Bool) (nodes blocks c : ℕ) : Prop :=
  2 ≤ c ∧ c < 34 ∧ freeCount used 2 c < nodes ∨ 34 ≤ c ∧ freeCount used 34 c < blocks

/-- From `v` to `w` only the lowest free blocks were taken, so many of each region, and the blocks
in front of the node table are the same. -/
structure TakesLowest (v w : View) (nodes blocks : ℕ) : Prop where
  metadata : w.metadata = v.metadata
  lowest : ∀ c, v.used c = false → w.used c = true → AmongLowest v.used nodes blocks c

/-! ## The lowest free blocks are taken -/

section Taken

variable {v w : View} {d d' n a b c : ℕ} {name : List UInt8} {nd : Inode} {src : ℕ → UInt8}
  {F : Set ℕ}

/-- INTERNAL: what takes no block. -/
theorem TakesLowest.of_used (hmetadata : w.metadata = v.metadata)
    (hused : ∀ c, w.used c = true → v.used c = true) (nodes blocks : ℕ) :
    TakesLowest v w nodes blocks := by
  refine ⟨hmetadata, fun c hfree hc => ?_⟩
  rw [hused c hc] at hfree
  cases hfree

theorem TakesLowest.refl (v : View) (nodes blocks : ℕ) : TakesLowest v v nodes blocks :=
  TakesLowest.of_used rfl (fun _ hc => hc) nodes blocks

/-- INTERNAL: **a directory takes no more than two blocks**, for the pointers and the records. -/
theorem freeCount_lt_two (hcore : Core w) (hd : w.live d) (hstate : (w.inode d).state = 2)
    (horder : TakenInOrder firstOfRegion v.used w.used)
    (hgained : ∀ y, 34 ≤ y → v.used y = false → w.used y = true → ∃ r, w.held d r ∧ w.place d r = y)
    (hc : 34 ≤ c) (hfree : v.used c = false) (hused : w.used c = true) :
    freeCount v.used 34 c < 2 := by
  have hdir := (hcore.node d hd).dir hstate
  have hlt := horder.freeCount_lt (T := {w.place d (.ptr 0), w.place d (.data 0)})
    Finset.card_le_two (by rw [firstOfRegion_data hc]; exact hc) hfree hused ?_
  · rwa [firstOfRegion_data hc] at hlt
  · intro y hy _ hyfree hyused
    rw [firstOfRegion_data hc] at hy
    obtain ⟨r, hr, rfl⟩ := hgained y hy hyfree hyused
    rw [Finset.mem_insert, Finset.mem_singleton]
    cases r with
    | ptr i =>
      obtain rfl : i = 0 := by
        by_contra hne
        exact hr.2 (hdir.ptr i hne)
      exact Or.inl rfl
    | data k => exact Or.inr (by rw [((hdir.refers_data hstate k).mp hr.2).1])

/-- INTERNAL: **a creation takes the lowest free slot**, and blocks only for a directory that was
empty. -/
theorem Created.takesLowest (hc : Created v w d name n nd) (h : Inv v none) (hd : v.live d)
    (hstate : (v.inode d).state = 2) (horder : TakenInOrder firstOfRegion v.used w.used) :
    TakesLowest v w 1 (blocksForRecord (v.inode d).fileSize) := by
  have hslot := hc.slot
  have hcore := hc.inv.toCore
  obtain ⟨t, hborn, hlinked⟩ := hc.tree
  have hwd : w.live d := (hlinked.live d).mpr ((hborn.live d).mpr (Or.inl hd))
  have hgained : ∀ y, v.used y = false → w.used y = true →
      y = 2 + n ∨ ∃ r, w.held d r ∧ w.place d r = y := by
    intro y hy hy'
    apply (hc.gained y hy').resolve_left
    intro hused
    rw [hused] at hy
    cases hy
  refine ⟨hc.metadata, fun c hfree hused => ?_⟩
  rcases hgained c hfree hused with rfl | ⟨r, hr, rfl⟩
  · left
    have hlt := horder.freeCount_lt (T := {2 + n}) (Finset.card_singleton _).le
      (by rw [firstOfRegion_node (by omega)]; omega) hfree hused ?_
    · rw [firstOfRegion_node (by omega)] at hlt
      exact ⟨by omega, by omega, hlt⟩
    · intro y _ hle hyfree hyused
      rw [Finset.mem_singleton]
      apply (hgained y hyfree hyused).resolve_right
      rintro ⟨q, hq, rfl⟩
      have := (hcore.inData hq).1
      omega
  · right
    have hge := (hcore.inData hr).1
    have hempty : (v.inode d).fileSize = 0 := by
      by_contra hsize
      have hdir := (h.node d hd).dir hstate
      have hwdir := (hcore.node d hwd).dir hc.dir
      have hheld : v.held d r := by
        cases r with
        | ptr i =>
          obtain rfl : i = 0 := by
            by_contra hne
            exact hr.2 (hwdir.ptr i hne)
          exact ⟨hd, fun e => hsize (hdir.ptr_zero.mp e)⟩
        | data k =>
          exact ⟨hd, (hdir.refers_data hstate k).mpr
            ⟨((hwdir.refers_data hc.dir k).mp hr.2).1, hsize⟩⟩
      rw [(hc.own r hheld).2, (h.toCore.inData hheld).2.2] at hfree
      cases hfree
    refine ⟨hge, ?_⟩
    rw [blocksForRecord, if_pos hempty]
    refine freeCount_lt_two hcore hwd hc.dir horder (fun y hy hyfree hyused => ?_) hge hfree hused
    exact (hgained y hyfree hyused).resolve_left (by omega)

theorem Deleted.takesLowest (hk : Deleted v w d n F) (nodes blocks : ℕ) :
    TakesLowest v w nodes blocks :=
  TakesLowest.of_used hk.metadata (fun c hc => ((hk.used c).mp hc).1) nodes blocks

/-- INTERNAL: **a rename takes blocks** only for a directory that has no other record. -/
theorem Renamed.takesLowest {name' : List UInt8} (hr : Renamed v w d d' name' n)
    (hd' : v.live d') (hstate' : (v.inode d').state = 2)
    (horder : TakenInOrder firstOfRegion v.used w.used) :
    TakesLowest v w 0 (blocksForRecord
      (if d' = d then (v.inode d).fileSize - 128 else (v.inode d').fileSize)) := by
  refine ⟨hr.metadata, fun c hfree hused => ?_⟩
  have hcore := hr.inv.toCore
  obtain ⟨t, hunlinked, hlinked⟩ := hr.tree
  have hwd' : w.live d' := (hlinked.live d').mpr ((hunlinked.live d').mpr hd')
  have hgained : ∀ y, v.used y = false → w.used y = true → ∃ r, w.held d' r ∧ w.place d' r = y := by
    intro y hy hy'
    apply (hr.gained y hy').resolve_left
    intro hused
    rw [hused] at hy
    cases hy
  obtain ⟨r, hheld, rfl⟩ := hgained c hfree hused
  have hge := (hcore.inData hheld).1
  have hempty : (if d' = d then (v.inode d).fileSize - 128 else (v.inode d').fileSize) = 0 := by
    by_contra hsize
    rw [hr.used hsize, hfree] at hused
    cases hused
  refine Or.inr ⟨hge, ?_⟩
  rw [blocksForRecord, if_pos hempty]
  exact freeCount_lt_two hcore hwd' (by rw [hr.state, hstate']) horder
    (fun y _ hyfree hyused => hgained y hyfree hyused) hge hfree hused

/-- INTERNAL: what a file grows by are data blocks. -/
theorem Grown.data_of_taken (hg : Grown n v w) (hfree : v.used c = false)
    (hused : w.used c = true) : 34 ≤ c := by
  by_contra hlt
  rw [hg.low c (by omega), hfree] at hused
  cases hused

/-- INTERNAL: **a write takes the lowest free blocks**, for the blocks that it fills and for their
pointers. -/
theorem Written.takesLowest (hw : Written v w n a b src) (h : Core v) (nodes : ℕ) :
    TakesLowest v w nodes (blocksForWrite (v.inode n) a b) := by
  have horder : TakenInOrder firstOfRegion v.used w.used := by
    refine ⟨hw.grown.used, fun c hfree hused y hy hlt => ?_⟩
    rw [firstOfRegion_data (hw.grown.data_of_taken hfree hused)] at hy
    exact hw.lowest c hfree hused y hy hlt
  obtain ⟨T, hT, hnew⟩ := hw.taken.blocks
  let set := (Finset.range (lastSet (v.inode n) a b + 1)).filter fun i => (v.inode n).ptr i = 0
  have hcard : (T ∪ set.image (w.inode n).ptr).card ≤ blocksForWrite (v.inode n) a b := by
    have hunion := Finset.card_union_le T (set.image (w.inode n).ptr)
    have himage := Finset.card_image_le (s := set) (f := (w.inode n).ptr)
    have hfirst : firstBlocks (v.inode n) = 2 * (if (v.inode n).ptr 0 = 0 then 1 else 0) := by
      unfold firstBlocks
      split <;> rfl
    change _ ≤ (if (v.inode n).ptr 0 = 0 then 1 else 0) + (b / 4096 - a / 4096) + set.card
    omega
  refine ⟨hw.grown.metadata, fun c hfree hused => Or.inr ?_⟩
  have hge := hw.grown.data_of_taken hfree hused
  have hlt := horder.freeCount_lt hcard (by rw [firstOfRegion_data hge]; exact hge) hfree hused ?_
  · rw [firstOfRegion_data hge] at hlt
    exact ⟨hge, hlt⟩
  · intro y _ _ hyfree hyused
    rw [Finset.mem_union]
    apply (hnew y hyfree hyused).imp_right
    rintro ⟨i, hi, rfl⟩
    have hne : (w.inode n).ptr i ≠ 0 := by
      intro e
      rw [e, h.metadata 0 (by omega)] at hyfree
      cases hyfree
    refine Finset.mem_image_of_mem _ (Finset.mem_filter.mpr ⟨Finset.mem_range.mpr ?_, hi⟩)
    rcases hw.taken.pointers i hi hne with rfl | ⟨hfills, hle⟩
    · exact Nat.succ_pos _
    · rw [lastSet, if_pos hfills]
      exact Nat.lt_succ_of_le hle

end Taken

/-! ## The operations -/

section Operations

variable {v : View} {path : CString} {d n : ℕ}

/-- INTERNAL: what a computation does to views, and that it reserves in order. -/
theorem vwp_inOrder {α : Type} {x : Sac α} {Q : α → View → Prop} {E : Fault → View → Prop}
    (h : vwp x Q E v) (horder : InOrder x) :
    vwp x (fun a w => Q a w ∧ TakenInOrder firstOfRegion v.used w.used) E v := by
  rintro s rfl
  exact wp_mono (wp_and (h s rfl) (horder s)) (fun _ _ hQ => hQ) fun _ _ hE => hE.1

/-- INTERNAL: a name that is not there is entered into the directory of its path. -/
theorem newEntryIn_eq (ht : v.tree.walk 0 (stringSplit path.val).dropLast = some d)
    (hnone : v.tree.walk 0 (stringSplit path.val) = none) : newEntryIn v path = some d := by
  rw [newEntryIn, if_pos hnone, ht]

/-- INTERNAL: **the step lemma**: a harmless operation takes the lowest free blocks. -/
theorem vwp_perform_takes (op : Operation) (h : Inv v none) (hop : Harmless v op) :
    vwp op.perform (fun _ w => TakesLowest v w (nodesTaken v op) (blocksTaken v op))
      (fun _ _ => True) v := by
  have hcreates : ∀ {d : ℕ} {name : List UInt8} {w : View} {n : ℕ} {nd : Inode} {path : CString},
      Target v path d name → v.tree.lookup d name = none → Created v w d name n nd →
      TakenInOrder firstOfRegion v.used w.used →
      TakesLowest v w (nodesTaken v (.mkdir path)) (blocksTaken v (.mkdir path)) := by
    intro d name w n nd path ht hnone hc horder
    have hentry := newEntryIn_eq ht.split.1 (by rw [ht.walk, hnone])
    simp only [nodesTaken, blocksTaken, hentry, Option.isSome_some, if_true]
    exact hc.takesLowest h (ht.live h) ht.state horder
  cases op with
  | mkdir path =>
    rcases Placed.cases hop.toPlaced with ⟨hnone, -⟩ | haddressed
    · exact vwp_sacMkdir_missing h hop.valid hop.ne_root hop.passable hnone
        (TakesLowest.refl _ _ _)
    · obtain ⟨d, ht, -⟩ := haddressed.target
      have hcreated := vwp_sacMkdir (E := fun _ _ => True) (Q := fun _ w => w = v ∨
          v.tree.lookup d ((stringSplit path.val).getLastD []) = none ∧ ∃ n nd,
          Created v w d ((stringSplit path.val).getLastD []) n nd) h ht
        (fun _ => haddressed.length_last) (fun _ => Or.inl rfl)
        (fun hnone w n date hc => Or.inr ⟨hnone, n, _, hc⟩) fun _ _ _ _ => trivial
      refine vwp_mono (vwp_inOrder hcreated (inOrder_sacMkdir path)) ?_ fun _ _ he => he
      rintro _ w ⟨rfl | ⟨hnone, n, nd, hc⟩, horder⟩
      · exact TakesLowest.refl _ _ _
      · exact hcreates ht hnone hc horder
  | «open» path =>
    rcases Placed.cases hop.toPlaced with ⟨hnone, -⟩ | haddressed
    · exact vwp_sacOpen_missing h hop.valid hop.ne_root hop.passable hnone
        (TakesLowest.refl _ _ _)
    · obtain ⟨d, ht, -⟩ := haddressed.target
      have hcreated := vwp_sacOpen (E := fun _ _ => True) (Q := fun _ w => w = v ∨
          v.tree.lookup d ((stringSplit path.val).getLastD []) = none ∧ ∃ n nd,
          Created v w d ((stringSplit path.val).getLastD []) n nd) h ht
        (fun _ => haddressed.length_last) (fun _ _ _ => Or.inl rfl)
        (fun hnone w n date hc => Or.inr ⟨hnone, n, _, hc⟩) fun _ _ _ _ => trivial
      refine vwp_mono (vwp_inOrder hcreated (inOrder_sacOpen path)) ?_ fun _ _ he => he
      rintro _ w ⟨rfl | ⟨hnone, n, nd, hc⟩, horder⟩
      · exact TakesLowest.refl _ _ _
      · exact hcreates ht hnone hc horder
  | rmdir path =>
    rcases Placed.cases hop.toPlaced with ⟨-, hnone⟩ | haddressed
    · exact vwp_sacRmdir_missing h hop.valid hop.ne_root hop.passable hnone
        (TakesLowest.refl _ _ _)
    · obtain ⟨d, ht, -⟩ := haddressed.target
      exact vwp_sacRmdir h ht (fun _ => TakesLowest.refl _ _ _)
        (fun _ _ _ _ => TakesLowest.refl _ _ _) fun _ _ _ _ _ hk => hk.takesLowest _ _
  | remove path =>
    rcases Placed.cases hop.toPlaced with ⟨-, hnone⟩ | haddressed
    · exact vwp_sacRemove_missing h hop.valid hop.passable hnone (TakesLowest.refl _ _ _)
    · obtain ⟨d, ht, -⟩ := haddressed.target
      exact vwp_sacRemove h ht (fun _ => TakesLowest.refl _ _ _)
        fun _ _ _ _ hk => hk.takesLowest _ _
  | rename oldPath newPath =>
    obtain ⟨hold, hnew, hsome⟩ := hop
    obtain ⟨d, ht, hwalk⟩ := hold.target
    obtain ⟨d', ht', -⟩ := hnew.target
    rw [hwalk, Option.isSome_iff_exists] at hsome
    obtain ⟨n, hlookup⟩ := hsome
    have hrenamed := vwp_sacRename (E := fun _ _ => True) (Q := fun _ w => Renamed v w d d'
      ((stringSplit newPath.val).getLastD []) n) h ht ht' hlookup hnew.length_last
      (fun _ hr => hr) fun _ _ _ _ _ => trivial
    refine vwp_mono (vwp_inOrder hrenamed (inOrder_sacRename oldPath newPath)) ?_ fun _ _ he => he
    rintro _ w ⟨hr, horder⟩
    simp only [nodesTaken, blocksTaken, ht.split.1, ht'.split.1]
    exact hr.takesLowest (ht'.live h) ht'.state horder
  | write fd buffer offset =>
    obtain ⟨hn, hstate, hoffset, hstray⟩ := hop
    exact vwp_bind (vwp_sacWrite_noStray h hn hstate hoffset hstray
      (fun w hw => vwp_pure (hw.takesLowest h.toCore _)) fun _ _ _ _ => trivial)
  | truncate path lenght =>
    obtain ⟨hpath, hlt, hstray⟩ := hop
    rcases Placed.cases hpath.toPlaced with ⟨-, hnone⟩ | haddressed
    · exact vwp_sacTruncate_missing h hpath.valid hpath.passable hnone (TakesLowest.refl _ _ _)
    · obtain ⟨d, ht, hwalk⟩ := haddressed.target
      rw [hwalk] at hstray
      refine vwp_sacTruncate h ht (by omega) (fun _ => TakesLowest.refl _ _ _)
        (fun n hn hstate hsize => ?_) (fun n w count hlookup hstate hcount hpos hw => ?_)
        (fun n w _ _ _ hs _ => TakesLowest.of_used hs.metadata hs.used _ _)
        fun _ _ _ _ _ _ => trivial
      · apply (hstray n hn hstate (by omega)).imp_right
        intro hfits
        omega
      · obtain rfl : (v.inode n).fileSize + count = lenght := by omega
        simp only [blocksTaken, hwalk, hlookup]
        rw [if_pos ⟨hstate, by omega⟩]
        exact hw.takesLowest h.toCore _

end Operations

end LinuseFs.Analysis
