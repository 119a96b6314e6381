import LinuseFs.Analysis.DirectoryRecords
import LinuseFs.Analysis.LookupFrame
import LinuseFs.Analysis.Operations

/-!
# When an iteration visits each record once

The end position of `iterate_pointers_blocks` is computed from the size with `byte_num - 1`.  When
the last data block is full that wraps around, and every data block is read past its end.  The loop
over the pointers does not look at the position at all: it ends at a pointer that is zero, and
there is none behind the thousandth.
-/

set_option autoImplicit false

namespace LinuseFs.Analysis

open LinuseFs.Computation LinuseFs.Model LinuseFs.Interface

/-- The two disks have the same bytes in the records of the directory and in the slots of its
pointer blocks that lead to them. -/
structure SameRecords (v w : View) (nd : Inode) (n : ℕ) : Prop where
  slot : ∀ k, 32 * k < n → ∀ t < 4,
    w.data (nd.ptr (k / 1024)) (k % 1024 * 4 + t) = v.data (nd.ptr (k / 1024)) (k % 1024 * 4 + t)
  record : ∀ i < n, ∀ t < 128, w.data (v.dataBlock nd (i / 32)) (i % 32 * 128 + t) =
    v.data (v.dataBlock nd (i / 32)) (i % 32 * 128 + t)

/-- `iterate_pointers_blocks` hands the `n` records to the function in order until it returns a
valid entry, and returns that one with the place of the record.  Nothing else on the disk matters,
and nothing is written. -/
def IteratesOnce (s : SacState) (node : Node) (n : ℕ) : Prop :=
  ∀ s', SameRecords (viewOf s) (viewOf s') (inodeOfNode node) n →
    ∀ (τ : Type) (process : ProcessEntry τ) (acc : τ), ∃ r,
      iteratePointersBlocks process node acc s' = .ok r s' ∧
      Meets (AtPlace (viewOf s) (inodeOfNode node))
        (scan process (recordsFrom (viewOf s) (inodeOfNode node) 0 n) 0 acc) r

section SameRecords

variable {v w : View} {nd : Inode} {n : ℕ}

theorem SameRecords.refl (v : View) (nd : Inode) (n : ℕ) : SameRecords v v nd n :=
  ⟨fun _ _ _ _ => rfl, fun _ _ _ _ => rfl⟩

theorem SameRecords.dataBlock (h : SameRecords v w nd n) {k : ℕ} (hk : 32 * k < n) :
    w.dataBlock nd k = v.dataBlock nd k :=
  leNat_congr fun t ht => h.slot k hk t ht

theorem SameRecords.recordAt (h : SameRecords v w nd n) {i : ℕ} (hi : i < n) :
    recordAt w nd i = recordAt v nd i := by
  apply recordAt_congr
  intro t ht
  rw [h.dataBlock (by omega)]
  exact h.record i hi t ht

theorem SameRecords.recordsFrom (h : SameRecords v w nd n) :
    recordsFrom w nd 0 n = recordsFrom v nd 0 n := by
  refine List.map_congr_left fun i hi => h.recordAt ?_
  rw [Nat.sub_zero, List.mem_range'_1] at hi
  omega

theorem SameRecords.directory (h : SameRecords v w nd n) (hd : Directory v nd n) :
    Directory w nd n := by
  refine ⟨⟨hd.size, hd.room, hd.ptr, fun k hk => ?_⟩, hd.state, fun i hi => ?_⟩
  · rw [h.dataBlock hk]
    exact hd.block k hk
  · obtain ⟨name, hne, hname⟩ := hd.name i hi
    refine ⟨name, hne, ?_⟩
    rw [h.dataBlock (by omega), ← hname]
    exact cstr_congr fun t ht => by rw [Nat.add_assoc]; exact h.record i hi (4 + t) (by omega)

end SameRecords

/-! ## When it does -/

section Iterates

variable {τ : Type} {process : ProcessEntry τ} {v : View} {node : Node} {n : ℕ}
  {E : Fault → View → Prop}

variable (process) in
/-- INTERNAL: **an iteration that ends behind the records** scans them. SRCLINE:
directory.c:218-237 -/
theorem vwp_iteration {Q : DirEntry × τ → View → Prop} (hd : Directory v (inodeOfNode node) n)
    (hend : n = 0 ∧ node.indirectPointerBlock 0 = 0 ∨
      n % 32 ≠ 0 ∧ ShortNames v (inodeOfNode node) n ∧ n / 32768 + 1 < 1000 ∧
        node.indirectPointerBlock (n / 32768 + 1) = 0)
    (acc : τ)
    (hQ : ∀ r, Meets (AtPlace v (inodeOfNode node))
      (scan process (recordsFrom v (inodeOfNode node) 0 n) 0 acc) r → Q r v) :
    vwp (iteratePointersBlocks process node acc) Q E v := by
  rw [iteratePointersBlocks, getNextWritePosition_eq hd.size]
  rcases hend with ⟨rfl, hptr⟩ | ⟨hn, hshort, hlast, hptr⟩
  · apply vwp_bind
    rw [iteratePointers, if_neg (by decide)]
    refine vwp_bind (vwp_pointerAt (by omega) ?_)
    rw [if_neg (by simp [hptr])]
    refine vwp_pure (vwp_pure (hQ _ ⟨rfl, fun _ => rfl, ?_⟩))
    rintro g e he
    cases he
  · have hmeets : ∀ {e : DirEntry} {acc' : τ}, Meets (AtPlace v (inodeOfNode node))
        (scan process (recordsFrom v (inodeOfNode node) 0 n) 0 acc) (e, acc') →
        Q ({ e with data := { e.data with pointerBlockNum := 2 ^ 32 - 1 } }, acc') v :=
      fun hm => hQ _ hm
    have hloop := vwp_allPointers process (E := E)
      (Q := fun r u => vwp (pure ({ r.1 with data := { r.1.data with
        pointerBlockNum := 2 ^ 32 - 1 } }, r.2) : Sac (DirEntry × τ)) Q E u)
      hd hshort hn (1001 - (n / 32768 + 1)) (by omega) acc ?_ ?_
    · rw [show n / 32768 + 1 + (1001 - (n / 32768 + 1)) = 1001 by omega] at hloop
      exact vwp_bind hloop
    · intro e hname hnone
      obtain ⟨rest, hrest⟩ : ∃ rest, 1001 - (n / 32768 + 1) = rest + 1 :=
        ⟨1001 - (n / 32768 + 1) - 1, by omega⟩
      rw [hrest, iteratePointers, if_neg (by simp [isValidEntry, hname])]
      refine vwp_bind (vwp_pointerAt hlast ?_)
      rw [if_neg (by simp [hptr])]
      refine vwp_pure (vwp_pure (hmeets ⟨rfl, fun _ => hname, ?_⟩))
      rintro g e' he
      rw [hnone] at he
      cases he
    · rintro ⟨e, acc'⟩ hm _
      exact vwp_pure (hmeets hm)

end Iterates

/-! ## When it does not -/

section Overruns

variable {v : View} {node : Node} {n : ℕ}

theorem scan_addChild (rs : List Record) (i : ℕ) (l : List DirEntry) :
    scan addChild rs i l = (none, l ++ rs.map entryOf) := by
  rw [scan_all (fun _ _ => rfl)]
  induction rs generalizing l with
  | nil => simp
  | cons r rs ih =>
    rw [List.foldl_cons, List.map_cons]
    have hrs := ih (l ++ [entryOf r])
    rw [List.append_assoc, List.singleton_append] at hrs
    exact hrs

/-- INTERNAL: with a full last data block no data block has an end: the 33rd record would lie
behind the page. SRCLINE: directory.c:283 -/
theorem vwp_iterateBytesInBlock_endless (dataBlock : ℕ) (isLast : Bool) (hn : n % 32 = 0)
    (count k : ℕ) (hk : k + 128 * count < 2 ^ 32) (l : List DirEntry) :
    vwp (iterateBytesInBlock addChild dataBlock isLast (endPosition n) count k invalidEntry l)
      (fun _ _ => False) (fun _ _ => True) v := by
  induction count generalizing k l v with
  | zero => exact vwp_throw trivial
  | succ count ih =>
    rw [iterateBytesInBlock, nextByte_endless hn isLast (by omega), if_pos (by rfl)]
    exact vwp_bind_of (vwp_anything _) (fun _ _ h => h) fun entry u _ => ih _ (by omega) _

theorem vwp_iterateBlocks_endless (p : ℕ) (isLast : Bool) (hn : n % 32 = 0) :
    vwp (iterateBlocks addChild p isLast (endPosition n) 1025 0 0 invalidEntry [])
      (fun _ _ => False) (fun _ _ => True) v := by
  have hnext : nextByte 0 (endPosition n).blockNum 1024 isLast = true := by simp [nextByte]
  rw [iterateBlocks, hnext, if_pos (by rfl)]
  apply vwp_bind_of (vwp_anything _) (fun _ _ h => h)
  intro number u _
  exact vwp_bind_of (vwp_iterateBytesInBlock_endless _ _ hn 34 0 (by omega) [])
    (fun _ _ h => h) fun _ _ hf => hf.elim

/-- INTERNAL: **a directory whose last data block is full cannot be iterated.** SRCLINE:
directory.c:218-237 -/
theorem vwp_iteration_endless (hd : Directory v (inodeOfNode node) n) (hn : n % 32 = 0)
    (hpos : 0 < n) :
    vwp (iteratePointersBlocks addChild node []) (fun _ _ => False) (fun _ _ => True) v := by
  have hptr := hd.ptr 0 (by omega)
  rw [show 0 / 1024 = 0 by rfl] at hptr
  have hstate : node.state = 2 := hd.state
  have hptr' : node.indirectPointerBlock 0 ≠ 0 := fun e => by
    rw [show (inodeOfNode node).ptr 0 = 0 from e] at hptr
    omega
  rw [iteratePointersBlocks, getNextWritePosition_eq hd.size]
  apply vwp_bind
  rw [iteratePointers, if_neg (by decide)]
  refine vwp_bind (vwp_pointerAt (by omega) ?_)
  rw [if_pos ⟨hptr', by rw [hstate]; decide⟩]
  exact vwp_bind_of (vwp_iterateBlocks_endless _ _ hn) (fun _ _ h => h)
    fun _ _ hf => hf.elim

/-- INTERNAL: **the loop over the pointers goes on behind the last one**: it collects more than the
records, unless the next pointer is there and is zero. SRCLINE: directory.c:223 -/
theorem vwp_iteration_beyond (hd : Directory v (inodeOfNode node) n)
    (hshort : ShortNames v (inodeOfNode node) n) (hn : n % 32 ≠ 0) :
    vwp (iteratePointersBlocks addChild node [])
      (fun r _ => (n / 32768 + 1 < 1000 ∧ node.indirectPointerBlock (n / 32768 + 1) = 0) ∨
        n < r.2.length) (fun _ _ => True) v := by
  have hstate : node.state = 2 := hd.state
  have hroom := hd.room
  have hstep : ∀ (e : DirEntry) (acc : List DirEntry), e.name.length ≤ 70 → n < acc.length →
      n < (addChild e acc).2.length := by
    intro e acc _ hacc
    simp only [addChild, List.length_append]
    omega
  rw [iteratePointersBlocks, getNextWritePosition_eq hd.size]
  refine vwp_bind_of (R := fun r _ =>
    (n / 32768 + 1 < 1000 ∧ node.indirectPointerBlock (n / 32768 + 1) = 0) ∨ n < r.2.length) ?_
    (fun _ _ h => h) fun r u hr => vwp_pure hr
  obtain ⟨rest, hrest⟩ : ∃ rest, 1001 = n / 32768 + 1 + (rest + 1) :=
    ⟨1001 - (n / 32768 + 1) - 1, by omega⟩
  rw [hrest]
  refine vwp_allPointers addChild hd hshort hn (rest + 1) (by omega) [] (fun e hname _ => ?_)
    fun r _ hsome => absurd (by rw [scan_addChild]) hsome
  rw [scan_addChild, iteratePointers, if_neg (by simp [isValidEntry, hname])]
  -- all records are collected; what happens at the next pointer
  by_cases hlast : n / 32768 + 1 < 1000
  swap
  · unfold Node.pointerAt
    rw [if_neg (by simpa [pointersPerNode] using hlast)]
    exact vwp_bind (vwp_throw trivial)
  refine vwp_bind (vwp_pointerAt hlast ?_)
  by_cases hptr : node.indirectPointerBlock (n / 32768 + 1) = 0
  · rw [if_neg (by simp [hptr])]
    exact vwp_pure (Or.inl ⟨hlast, hptr⟩)
  · rw [if_pos ⟨hptr, by rw [hstate]; decide⟩]
    refine vwp_bind_of (R := fun r _ => n < r.2.length) ?_ (fun _ _ h => h) fun r u hr => ?_
    · have hnext : ∀ isLast, nextByte 0 (endPosition n).blockNum 1024 isLast = true := by
        simp [nextByte]
      have hnext' : ∀ limit isLast, nextByte 0 limit blockSize isLast = true := by
        simp [nextByte]
      rw [iterateBlocks, hnext, if_pos (by rfl)]
      apply vwp_bind_of (vwp_anything _) (fun _ _ h => h)
      intro number u _
      refine vwp_bind_of (R := fun r _ => n < r.2.length) ?_ (fun _ _ h => h) fun r u hr =>
        kept_iterateBlocks (fun _ (l : List DirEntry) => n < l.length) hstep _ _ _ _ _ _ _ _ hr
      rw [iterateBytesInBlock, hnext', if_pos (by rfl)]
      apply vwp_bind_of (vwp_anything _) (fun _ _ h => h)
      intro entry u _
      refine kept_iterateBytesInBlock (fun _ (l : List DirEntry) => n < l.length) hstep
        _ _ _ _ _ _ _ ?_
      simp
    · exact vwp_mono
        (kept_iteratePointers (fun _ (l : List DirEntry) => n < l.length) hstep _ _ _ _ _ _ hr)
        (fun _ _ h => Or.inr h) fun _ _ h => h

end Overruns

/-! ## Exactly when -/

section Exact

variable {s : SacState} {node : Node} {n : ℕ}

/-- INTERNAL: what a right iteration collects. -/
theorem IteratesOnce.collects (h : IteratesOnce s node n) : ∃ e,
    iteratePointersBlocks addChild node [] s =
      .ok (e, (recordsFrom (viewOf s) (inodeOfNode node) 0 n).map entryOf) s := by
  obtain ⟨⟨e, l⟩, hok, hacc, -⟩ := h s (SameRecords.refl _ _ _) _ addChild []
  rw [scan_addChild, List.nil_append] at hacc
  dsimp only at hacc
  rw [hacc] at hok
  exact ⟨e, hok⟩

/-- **The iteration visits each of the `n` records once if and only if** there are none, or the
last data block is not full, the names have at most 70 bytes, and the pointer behind the last
pointer block is there and is zero. SRCLINE: directory.c:113-124, directory.c:215-313 -/
theorem iterates_once_iff (hd : Directory (viewOf s) (inodeOfNode node) n)
    (hempty : n = 0 → node.indirectPointerBlock 0 = 0) :
    IteratesOnce s node n ↔ n = 0 ∨ (n % 32 ≠ 0 ∧ ShortNames (viewOf s) (inodeOfNode node) n ∧
      n / 32768 + 1 < 1000 ∧ node.indirectPointerBlock (n / 32768 + 1) = 0) := by
  constructor
  · intro h
    obtain ⟨e, hok⟩ := h.collects
    by_cases hpos : n = 0
    · exact Or.inl hpos
    apply Or.inr
    have hn : n % 32 ≠ 0 := fun hn => wp_of_ok (Q := fun _ _ => False)
      (vwp_iteration_endless hd hn (by omega) s rfl) hok
    have hshort : ShortNames (viewOf s) (inodeOfNode node) n := by
      have hkept : vwp (iteratePointersBlocks addChild node [])
          (fun r _ => ∀ e ∈ r.2, e.name.length ≤ 70) (fun _ _ => True) (viewOf s) := by
        refine kept_iteratePointersBlocks
          (fun _ (l : List DirEntry) => ∀ e ∈ l, e.name.length ≤ 70) ?_ node [] (by simp)
        intro e l hlen hl x hx
        rcases List.mem_append.mp hx with hx | hx
        · exact hl x hx
        · rwa [List.mem_singleton.mp hx]
      intro i hi
      refine wp_of_ok (Q := fun r _ => ∀ e ∈ r.2, e.name.length ≤ 70) (hkept s rfl) hok
        (entryOf (recordAt (viewOf s) (inodeOfNode node) i)) (List.mem_map_of_mem ?_)
      exact List.mem_map_of_mem (List.mem_range'_1.mpr ⟨Nat.zero_le i, by omega⟩)
    refine ⟨hn, hshort, ?_⟩
    have hend := wp_of_ok (Q := fun r _ => (n / 32768 + 1 < 1000 ∧
        node.indirectPointerBlock (n / 32768 + 1) = 0) ∨ n < r.2.length)
      (vwp_iteration_beyond hd hshort hn s rfl) hok
    rw [List.length_map, length_recordsFrom] at hend
    exact hend.resolve_right (by omega)
  · intro hcond s' hsame τ process acc
    have hend : n = 0 ∧ node.indirectPointerBlock 0 = 0 ∨
        n % 32 ≠ 0 ∧ ShortNames (viewOf s') (inodeOfNode node) n ∧ n / 32768 + 1 < 1000 ∧
          node.indirectPointerBlock (n / 32768 + 1) = 0 := by
      apply hcond.imp (fun hn => ⟨hn, hempty hn⟩)
      rintro ⟨hn, hshort, hlast⟩
      refine ⟨hn, fun i hi => ?_, hlast⟩
      rw [hsame.recordAt hi]
      exact hshort i hi
    have hrun := vwp_iteration process (E := fun _ _ => False) (hsame.directory hd) hend acc
      (Q := fun r _ => Meets (AtPlace (viewOf s') (inodeOfNode node))
        (scan process (recordsFrom (viewOf s') (inodeOfNode node) 0 n) 0 acc) r) fun _ hr => hr
    obtain ⟨r, s'', hok, hmeets, rfl⟩ := exists_ok_of_wp
      (wp_and (hrun s' rfl) (readOnly_iteratePointersBlocks node acc s')) fun _ _ hf => hf.1
    refine ⟨r, hok, ?_⟩
    rw [hsame.recordsFrom] at hmeets
    obtain ⟨hacc, hnone, hsome⟩ := hmeets
    refine ⟨hacc, hnone, fun g e he => ?_⟩
    obtain ⟨hname, hnum, hne, hblock, hbyte⟩ := hsome g e he
    have hg := scan_index he
    rw [length_recordsFrom] at hg
    exact ⟨hname, hnum, hne, by rw [hblock, hsame.dataBlock (by omega)], hbyte⟩

/-- A disk with a directory in the blocks 40 and 41; every record there has the name `a`. -/
def directoryDisk : SacState :=
  (((newDisk.setBlock 40 (leBytes 41)).setBlock 41
    fun i => if i % 128 = 4 then 97 else 0).take 40).take 41

/-- The node of that directory with `n` records. -/
def directoryNode (n : ℕ) : Node where
  state := 2
  fileName := fun _ => 0
  parentBlock := 2
  fileSize := 128 * n
  creationDate := 0
  modificationDate := 0
  indirectPointerBlock := fun i => if i = 0 then 40 else 0

theorem directoryDisk_block (n : ℕ) :
    (viewOf directoryDisk).dataBlock (inodeOfNode (directoryNode n)) 0 = 41 := by
  have hslots : (viewOf directoryDisk).data 40 = leBytes 41 := by
    rw [viewOf_data (by omega) (by omega), directoryDisk, take_disk, take_disk,
      setBlock_ne _ _ (by omega), setBlock_same]
  show leNat ((viewOf directoryDisk).data 40) 0 4 = 41
  rw [hslots]
  exact (leNat_leBytes 41 4).trans (Nat.mod_eq_of_lt (by decide))

theorem directoryDisk_directory (hn : n ≤ 32) :
    Directory (viewOf directoryDisk) (inodeOfNode (directoryNode n)) n := by
  have hptr : (inodeOfNode (directoryNode n)).ptr 0 = 40 := rfl
  have hblock := directoryDisk_block n
  have hrecords : (viewOf directoryDisk).data 41 = fun i => if i % 128 = 4 then 97 else 0 := by
    rw [viewOf_data (by omega) (by omega), directoryDisk, take_disk, take_disk, setBlock_same]
  refine ⟨⟨rfl, by omega, fun k hk => ?_, fun k hk => ?_⟩, rfl, fun i hi => ⟨[97], by decide, ?_⟩⟩
  · rw [show k / 1024 = 0 by omega, hptr]
    omega
  · rw [show k = 0 by omega, hblock]
    omega
  · rw [show i / 32 = 0 by omega, hblock, hrecords, cstr_eq_some_iff]
    refine ⟨by decide, fun t ht => ?_, ?_, by decide⟩
    · have ht0 : t = 0 := by simpa using ht
      rw [if_pos (by omega)]
      simp [ht0]
    · rw [if_neg (by simp; omega)]

/-- A disk with a directory in the blocks 40, 41 and 42; the names there are the bytes from 1 on. -/
def twoBlockDisk : SacState :=
  ((newDisk.setBlock 40 fun t => if t = 0 then 41 else if t = 4 then 42 else 0).setBlock 41
    fun t => if t % 128 = 4 then UInt8.ofNat (t / 128 + 1) else 0).setBlock 42
    fun t => if t % 128 = 4 then UInt8.ofNat (t / 128 + 33) else 0

theorem twoBlockDisk_dataBlock {k : ℕ} (hk : 32 * k < 33) :
    (viewOf twoBlockDisk).dataBlock (inodeOfNode (directoryNode 33)) k = 41 + k := by
  have hslots : (viewOf twoBlockDisk).data 40 =
      fun t => if t = 0 then 41 else if t = 4 then 42 else 0 := by
    rw [viewOf_data (by omega) (by omega), twoBlockDisk, setBlock_ne _ _ (by omega),
      setBlock_ne _ _ (by omega), setBlock_same]
  simp only [View.dataBlock, View.slot, show k / 1024 = 0 by omega]
  show leNat ((viewOf twoBlockDisk).data 40) (k % 1024 * 4) 4 = 41 + k
  rw [hslots]
  obtain rfl | rfl : k = 0 ∨ k = 1 := by omega
  · rfl
  · rfl

theorem twoBlockDisk_name {i : ℕ} (hi : i < 33) :
    cstr ((viewOf twoBlockDisk).data ((viewOf twoBlockDisk).dataBlock
      (inodeOfNode (directoryNode 33)) (i / 32))) (i % 32 * 128 + 4) 124 =
      some [UInt8.ofNat (i + 1)] := by
  have hne : (0 : UInt8) ≠ UInt8.ofNat (i + 1) := by
    intro he
    have := congrArg UInt8.toNat he
    rw [UInt8.toNat_ofNat', UInt8.toNat_zero] at this
    omega
  rw [twoBlockDisk_dataBlock (by omega), cstr_eq_some_iff, viewOf_data (by omega) (by omega)]
  have hbyte : ∀ t < 124, twoBlockDisk.disk (41 + i / 32) (i % 32 * 128 + 4 + t) =
      if t = 0 then UInt8.ofNat (i + 1) else 0 := by
    intro t ht
    obtain hblock | hblock : i / 32 = 0 ∨ i / 32 = 1 := by omega
    · rw [hblock, twoBlockDisk, setBlock_ne _ _ (by omega), setBlock_same,
        show (i % 32 * 128 + 4 + t) / 128 + 1 = i + 1 by omega]
      split <;> split <;> first | rfl | omega
    · rw [hblock, twoBlockDisk, setBlock_same,
        show (i % 32 * 128 + 4 + t) / 128 + 33 = i + 1 by omega]
      split <;> split <;> first | rfl | omega
  refine ⟨by simp, fun t ht => ?_, ?_, by simpa using hne⟩
  · have ht0 : t = 0 := by simpa using ht
    rw [hbyte t (by omega), if_pos ht0, ht0]
    rfl
  · rw [List.length_singleton, hbyte 1 (by omega), if_neg (by omega)]

theorem twoBlockDisk_recordAt {i : ℕ} (hi : i < 33) :
    (recordAt (viewOf twoBlockDisk) (inodeOfNode (directoryNode 33)) i).1 = [UInt8.ofNat (i + 1)] := by
  simp only [recordAt, twoBlockDisk_name hi, Option.getD_some]

theorem twoBlockDisk_directory :
    Directory (viewOf twoBlockDisk) (inodeOfNode (directoryNode 33)) 33 := by
  have hptr : (inodeOfNode (directoryNode 33)).ptr 0 = 40 := rfl
  refine ⟨⟨rfl, by omega, fun k hk => ?_, fun k hk => ?_⟩, rfl, fun i hi =>
    ⟨_, List.cons_ne_nil _ _, twoBlockDisk_name hi⟩⟩
  · rw [show k / 1024 = 0 by omega, hptr]
    omega
  · rw [twoBlockDisk_dataBlock hk]
    omega

/-- The 33 records of a directory with two data blocks are visited. -/
theorem iterates_once_two_blocks : IteratesOnce twoBlockDisk (directoryNode 33) 33 := by
  refine (iterates_once_iff twoBlockDisk_directory fun h => absurd h (by decide)).mpr
    (Or.inr ⟨by decide, fun i hi => ?_, by decide, rfl⟩)
  rw [twoBlockDisk_recordAt hi, List.length_singleton]
  omega

/-- A directory whose 32 records fill its data block is read past the end of the block. SRCLINE:
directory.c:283 -/
theorem full_block_overruns : Directory (viewOf directoryDisk) (inodeOfNode (directoryNode 32)) 32 ∧
    ¬ IteratesOnce directoryDisk (directoryNode 32) 32 := by
  have hd := directoryDisk_directory (n := 32) le_rfl
  refine ⟨hd, fun h => ?_⟩
  obtain ⟨e, hok⟩ := h.collects
  exact wp_of_ok (Q := fun _ _ => False) (vwp_iteration_endless hd rfl (by omega) _ rfl) hok

end Exact

end LinuseFs.Analysis
