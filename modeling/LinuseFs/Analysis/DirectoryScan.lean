import LinuseFs.Model.Directory
import LinuseFs.Analysis.NodeBlocks

/-!
# Scanning a directory

The three nested loops of `iterate_pointers_blocks` over a well-formed directory hand its
records to the function in order, until it returns a valid entry: they compute `visit`.
From this follow the lookup of a name (`getEntry_spec`) and the functions that collect
all records.  No loop changes anything on the disk.
-/

set_option autoImplicit false

namespace LinuseFs.Analysis

open LinuseFs.Computation LinuseFs.Model LinuseFs.Interface

/-- The entry that `_read_directory_entry` builds from a record. -/
def entryOf (r : Record) : DirEntry := { name := r.1, nodeNum := r.2, data := default }

section Visit

variable {τ : Type} (process : ProcessEntry τ)

/-- What the loop of `iterate_bytes_in_block` makes of the records from byte `k` on. -/
def visit : List Record → ℕ → DirEntry → τ → DirEntry × τ
  | [], k, result, acc =>
    ({ result with data := { result.data with byteNum := k - 128 } }, acc)
  | r :: rs, k, result, acc =>
    if isValidEntry result then
      ({ result with data := { result.data with byteNum := k - 128 } }, acc)
    else
      visit rs (k + 128) (process (entryOf r) acc).1 (process (entryOf r) acc).2

variable {process}

theorem visit_of_valid {rs : List Record} {k : ℕ} {result : DirEntry} {acc : τ}
    (h : isValidEntry result = true) :
    visit process rs k result acc =
      ({ result with data := { result.data with byteNum := k - 128 } }, acc) := by
  cases rs with
  | nil => rfl
  | cons r rs => rw [visit, if_pos h]

/-- INTERNAL: a function that never returns a valid entry is applied to all records. -/
theorem visit_all (hprocess : ∀ e acc, isValidEntry (process e acc).1 = false)
    (rs : List Record) (k : ℕ) {result : DirEntry} (acc : τ)
    (hresult : isValidEntry result = false) :
    isValidEntry (visit process rs k result acc).1 = false ∧
      (visit process rs k result acc).2 =
        rs.foldl (fun acc r => (process (entryOf r) acc).2) acc := by
  induction rs generalizing k result acc with
  | nil =>
    simp only [visit, List.foldl_nil, and_true]
    simpa only [isValidEntry] using hresult
  | cons r rs ih =>
    rw [visit, if_neg (by rw [hresult]; decide), List.foldl_cons]
    exact ih (k + 128) _ (hprocess _ _)

end Visit

/-! ## Looking up a name -/

/-- INTERNAL: **the scan for a name** stops at the first record that has it, with its
node number and offset. SRCLINE: directory.c:60-67, directory.c:101-104 -/
theorem visit_findEntry {name : List UInt8} (hname : name ≠ []) (rs : List Record) (k : ℕ) :
    (∃ l₁ m l₂, rs = l₁ ++ (name, m) :: l₂ ∧ (∀ r ∈ l₁, r.1 ≠ name) ∧
      (visit (findEntry name) rs k invalidEntry ()).1 =
        { name := name, nodeNum := m
          data := { (default : DataPosition) with byteNum := k + 128 * l₁.length } }) ∨
    ((∀ r ∈ rs, r.1 ≠ name) ∧
      isValidEntry (visit (findEntry name) rs k invalidEntry ()).1 = false ∧
      (visit (findEntry name) rs k invalidEntry ()).1.nodeNum = 0) := by
  induction rs generalizing k with
  | nil => exact Or.inr ⟨by simp, rfl, rfl⟩
  | cons r rs ih =>
    have hstep : visit (findEntry name) (r :: rs) k invalidEntry () =
        visit (findEntry name) rs (k + 128) (findEntry name (entryOf r) ()).1 () := rfl
    by_cases hr : r.1 = name
    · left
      have hfind : (findEntry name (entryOf r) ()).1 = entryOf r := if_pos hr
      have hvalid : isValidEntry (entryOf r) = true := by
        simp only [isValidEntry, entryOf, hr, ne_eq, hname, not_false_eq_true, decide_true]
      refine ⟨[], r.2, rs, by rw [← hr]; rfl, by simp, ?_⟩
      rw [hstep, hfind, visit_of_valid hvalid]
      simp [entryOf, hr]
    · have hfind : (findEntry name (entryOf r) ()).1 = invalidEntry := if_neg hr
      rw [hstep, hfind]
      rcases ih (k + 128) with ⟨l₁, m, l₂, rfl, hl₁, he⟩ | ⟨hrs, he⟩
      · left
        refine ⟨r :: l₁, m, l₂, rfl, ?_, ?_⟩
        · intro x hx
          rcases List.mem_cons.mp hx with rfl | hx
          · exact hr
          · exact hl₁ x hx
        · rw [he, List.length_cons, show k + 128 + 128 * l₁.length = k + 128 * (l₁.length + 1) by
            omega]
      · right
        refine ⟨?_, he⟩
        intro x hx
        rcases List.mem_cons.mp hx with rfl | hx
        · exact hr
        · exact hrs x hx

/-! ## The loops -/

section Loops

variable {τ : Type} {process : ProcessEntry τ} {v : View} {E : Fault → View → Prop}

/-- INTERNAL: reading one record. SRCLINE: directory.c:291-296 -/
theorem vwp_readDirectoryEntry {Q : DirEntry → View → Prop} {b k : ℕ} {name : List UInt8}
    (hb : 34 ≤ b) (hb' : b < 3000) (hk : k < 32)
    (hname : cstr (v.data b) (k * 128 + 4) 71 = some name)
    (h : Q (entryOf (v.record b k)) v) : vwp (readDirectoryEntry b (k * 128)) Q E v := by
  refine vwp_bind (vwp_bytesToInt32 hb hb' (by omega) ?_)
  refine vwp_bind (vwp_load hb hb' (by simp only [blockSize]; omega) ?_)
  have hlimit : min fileNameSize (blockSize - (k * 128 + 4)) = 71 := by
    simp only [fileNameSize, blockSize]
    omega
  have hcstr : cstr (fun i => v.data b (k * 128 + 4 + i)) 0 71 = some name := by
    rw [← hname]
    exact cstr_congr fun i _ => by rw [Nat.zero_add]
  rw [hlimit, hcstr]
  apply vwp_pure
  simpa only [View.record, entryOf, hname, Option.getD_some] using h

/-- INTERNAL: **the loop over a data block** computes `visit` on the records from the
`i`-th on, when its end condition holds behind the first `c`; the induction is on the rounds
that are left. SRCLINE: directory.c:279-289 -/
theorem vwp_iterateBytesInBlock {Q : DirEntry × τ → View → Prop} {b c : ℕ} {isLast : Bool}
    {position : DataPosition} (hb : 34 ≤ b) (hb' : b < 3000) (hc : c ≤ 32)
    (hnext : ∀ i ≤ c, nextByte (i * 128) (u32 ((position.byteNum : ℤ) - 1)) blockSize isLast =
      decide (i < c))
    (hname : ∀ k < c, ∃ name, name ≠ [] ∧ cstr (v.data b) (k * 128 + 4) 71 = some name)
    (n i : ℕ) (result : DirEntry) (acc : τ) (hi : i ≤ c) (hn : c - i < n)
    (h : Q (visit process ((List.range' i (c - i)).map (v.record b)) (i * 128) result acc) v) :
    vwp (iterateBytesInBlock process b isLast position n (i * 128) result acc) Q E v := by
  induction n generalizing i result acc with
  | zero => omega
  | succ n ih =>
    rw [iterateBytesInBlock, hnext i hi]
    by_cases hvalid : isValidEntry result = true
    · rw [if_neg (by simp [hvalid])]
      rw [visit_of_valid hvalid] at h
      exact vwp_pure h
    · by_cases hic : i < c
      · rw [if_pos (by simp [hvalid, hic])]
        obtain ⟨name, -, hcstr⟩ := hname i hic
        refine vwp_bind (vwp_readDirectoryEntry hb hb' (by omega) hcstr ?_)
        have hrange : List.range' i (c - i) = i :: List.range' (i + 1) (c - (i + 1)) := by
          rw [show c - i = c - (i + 1) + 1 by omega, List.range'_succ]
        rw [hrange, List.map_cons, visit, if_neg hvalid] at h
        rw [show i * 128 + 128 = (i + 1) * 128 by omega] at h ⊢
        exact ih (i + 1) _ _ hic (by omega) h
      · rw [if_neg (by simp [hic])]
        have hic' : i = c := by omega
        subst hic'
        rw [Nat.sub_self] at h
        exact vwp_pure h

/-- INTERNAL: the end condition in the last data block. SRCLINE: directory.c:283 -/
theorem nextByte_last {c i : ℕ} (hc : c ≤ 31) (hc0 : 0 < c) :
    nextByte (i * 128) (u32 (((128 * c : ℕ) : ℤ) - 1)) blockSize true = decide (i < c) := by
  have hlimit : u32 (((128 * c : ℕ) : ℤ) - 1) = 128 * c - 1 := by
    rw [show ((128 * c : ℕ) : ℤ) - 1 = ((128 * c - 1 : ℕ) : ℤ) by omega,
      u32_natCast_of_lt (by omega)]
  simp only [nextByte, hlimit, Bool.not_true, Bool.and_false, Bool.or_false, decide_eq_decide]
  omega

/-- The blocks of a directory are where the code expects them. -/
structure DirBlocks (v : View) (nd : Inode) : Prop where
  ok : DirOk v nd
  ptr : nd.fileSize ≠ 0 → 34 ≤ nd.ptr 0 ∧ nd.ptr 0 < 3000
  data : nd.fileSize ≠ 0 → 34 ≤ v.dataBlock nd 0 ∧ v.dataBlock nd 0 < 3000

/-- INTERNAL: the loop over the slots of the pointer block of a directory stops after the
first one. SRCLINE: directory.c:262-277 -/
theorem vwp_iterateBlocks {Q : DirEntry × τ → View → Prop} {nd : Inode}
    (hd : DirBlocks v nd) (hsize : nd.fileSize ≠ 0) (acc : τ)
    (h : ∀ e, e.name = (visit process (v.records nd) 0 invalidEntry acc).1.name →
      e.nodeNum = (visit process (v.records nd) 0 invalidEntry acc).1.nodeNum →
      e.data.byteNum = (visit process (v.records nd) 0 invalidEntry acc).1.data.byteNum →
      e.data.blockNum = v.dataBlock nd 0 →
      Q (e, (visit process (v.records nd) 0 invalidEntry acc).2) v) :
    vwp (iterateBlocks process (nd.ptr 0) true ⟨0, 0, nd.fileSize⟩ 1025 0 0 invalidEntry acc)
      Q E v := by
  obtain ⟨hptr, hptr'⟩ := hd.ptr hsize
  obtain ⟨hdata, hdata'⟩ := hd.data hsize
  have hsize' := hd.ok.size
  have hle := hd.ok.size_le
  rw [iterateBlocks, if_pos (by rfl)]
  refine vwp_bind (vwp_bytesToInt32 hptr hptr' (by omega) ?_)
  have hslot : leNat (v.data (nd.ptr 0)) (0 * 4) 4 = v.dataBlock nd 0 := rfl
  rw [hslot, readBlock_of_lt hdata']
  have hnext : ∀ i ≤ nd.fileSize / 128, nextByte (i * 128) (u32 ((nd.fileSize : ℤ) - 1)) blockSize
      true = decide (i < nd.fileSize / 128) := by
    intro i _
    have hlast := nextByte_last (c := nd.fileSize / 128) (i := i) (by omega) (by omega)
    rwa [show 128 * (nd.fileSize / 128) = nd.fileSize by omega] at hlast
  refine vwp_bind (vwp_iterateBytesInBlock (c := nd.fileSize / 128) hdata hdata' (by omega)
    hnext hd.ok.name 34 0 _ _ (by omega) (by omega) ?_)
  rw [Nat.sub_zero, Nat.zero_mul, ← List.range_eq_range']
  -- the second round of the loop only sets the block number
  have hstop : (!isValidEntry (visit process (v.records nd) 0 invalidEntry acc).1 &&
      nextByte (0 + 1) 0 1024 true) = false := Bool.and_false _
  unfold iterateBlocks
  dsimp only
  refine Eq.mpr (congrArg (fun x => vwp x Q E v) (if_neg ?_)) (vwp_pure (h _ rfl rfl rfl rfl))
  exact (Bool.eq_false_iff).mp hstop

/-- INTERNAL: **the iteration over a directory** computes `visit` on its records.
SRCLINE: directory.c:218-289 -/
theorem vwp_iteratePointersBlocks {Q : DirEntry × τ → View → Prop} {node : Node}
    (hstate : node.state = 2) (hd : DirBlocks v (inodeOfNode node)) (acc : τ)
    (h : ∀ e,
      e.name = (visit process (v.records (inodeOfNode node)) 0 invalidEntry acc).1.name →
      e.nodeNum = (visit process (v.records (inodeOfNode node)) 0 invalidEntry acc).1.nodeNum →
      e.data.byteNum =
        (visit process (v.records (inodeOfNode node)) 0 invalidEntry acc).1.data.byteNum →
      (isValidEntry e = true → e.data.blockNum = v.dataBlock (inodeOfNode node) 0) →
      Q (e, (visit process (v.records (inodeOfNode node)) 0 invalidEntry acc).2) v) :
    vwp (iteratePointersBlocks process node acc) Q E v := by
  have hle := hd.ok.size_le
  have hposition : getNextWritePosition node = ⟨0, 0, (inodeOfNode node).fileSize⟩ := by
    simp only [getNextWritePosition, blockSize, DataPosition.mk.injEq]
    simp only [inodeOfNode] at hle ⊢
    omega
  rw [iteratePointersBlocks, hposition]
  unfold iteratePointers
  rw [if_neg (by decide)]
  by_cases hsize : (inodeOfNode node).fileSize = 0
  · have hptr : node.indirectPointerBlock 0 = 0 := hd.ok.ptr_zero.mpr hsize
    have hrecords : v.records (inodeOfNode node) = [] := by simp [View.records, hsize]
    rw [hrecords] at h
    refine vwp_bind (vwp_bind (vwp_pointerAt (by omega) ?_))
    rw [if_neg (by rw [hptr]; simp)]
    refine vwp_pure (vwp_pure (h _ rfl rfl rfl ?_))
    intro hvalid
    exact absurd hvalid (by decide)
  · have hptr : node.indirectPointerBlock 0 ≠ 0 := fun e => hsize (hd.ok.ptr_zero.mp e)
    refine vwp_bind (vwp_bind (vwp_pointerAt (by omega) ?_))
    rw [if_pos ⟨hptr, by rw [hstate]; decide⟩]
    have hblock : readBlock (node.indirectPointerBlock 0) = (inodeOfNode node).ptr 0 :=
      readBlock_of_lt (hd.ptr hsize).2
    rw [hblock]
    refine vwp_bind (vwp_iterateBlocks hd hsize acc fun e h1 h2 h3 h4 => ?_)
    unfold iteratePointers
    dsimp only
    by_cases hvalid : isValidEntry e = true
    · rw [if_pos hvalid]
      exact vwp_pure (vwp_pure (h _ h1 h2 h3 fun _ => h4))
    · rw [if_neg hvalid]
      refine vwp_bind (vwp_pointerAt (by omega) ?_)
      rw [if_neg (by
        have : node.indirectPointerBlock 1 = 0 := hd.ok.ptr 1 (by decide)
        rw [this]
        simp)]
      refine vwp_pure (vwp_pure (h _ h1 h2 h3 ?_))
      intro hvalid'
      exact absurd hvalid' hvalid

end Loops

/-! ## What every iteration keeps -/

section Kept

variable {τ : Type} {process : ProcessEntry τ} (kept : List UInt8 → τ → Prop) {v : View}

/-- INTERNAL: a record that was read has a name that fits. SRCLINE: directory.c:291-296 -/
theorem vwp_readDirectoryEntry_any (block pos : ℕ) :
    vwp (readDirectoryEntry block pos) (fun e _ => e.name.length ≤ 70) (fun _ _ => True) v := by
  apply vwp_bind_of (vwp_anything _) (fun _ _ h => h)
  intro nodeNum u _
  apply vwp_bind_of (vwp_anything _) (fun _ _ h => h)
  intro bytes u' _
  split
  next => exact vwp_throw trivial
  next name hname =>
    have hlen := (cstr_eq_some_iff.mp hname).1
    simp only [fileNameSize] at hlen
    exact vwp_pure (show name.length ≤ 70 by omega)

/-- INTERNAL: **what a record keeps, an iteration keeps**, over the name of the result and what the
function collects, by induction on the rounds. SRCLINE: directory.c:279-289 -/
theorem kept_iterateBytesInBlock
    (hstep : ∀ e acc, e.name.length ≤ 70 → kept [] acc →
      kept (process e acc).1.name (process e acc).2)
    (dataBlock : ℕ) (isLast : Bool) (position : DataPosition) (count k : ℕ) (result : DirEntry)
    (acc : τ) (h : kept result.name acc) :
    vwp (iterateBytesInBlock process dataBlock isLast position count k result acc)
      (fun r _ => kept r.1.name r.2) (fun _ _ => True) v := by
  induction count generalizing k result acc v with
  | zero => exact vwp_throw trivial
  | succ count ih =>
    unfold iterateBytesInBlock
    split
    next hnext =>
      have hnil : result.name = [] := by simpa [isValidEntry] using (Bool.and_eq_true_iff.mp hnext).1
      rw [hnil] at h
      exact vwp_bind_of (vwp_readDirectoryEntry_any _ _) (fun _ _ h => h) fun entry u hentry =>
        ih _ _ _ (hstep entry acc hentry h)
    next => exact vwp_pure h

theorem kept_iterateBlocks
    (hstep : ∀ e acc, e.name.length ≤ 70 → kept [] acc →
      kept (process e acc).1.name (process e acc).2)
    (pointersBlock : ℕ) (isLast : Bool) (position : DataPosition) (count j nroBloque : ℕ)
    (result : DirEntry) (acc : τ) (h : kept result.name acc) :
    vwp (iterateBlocks process pointersBlock isLast position count j nroBloque result acc)
      (fun r _ => kept r.1.name r.2) (fun _ _ => True) v := by
  induction count generalizing j nroBloque result acc v with
  | zero => exact vwp_throw trivial
  | succ count ih =>
    unfold iterateBlocks
    split
    next hnext =>
      have hnil : result.name = [] := by simpa [isValidEntry] using (Bool.and_eq_true_iff.mp hnext).1
      rw [hnil] at h
      apply vwp_bind_of (vwp_anything _) (fun _ _ h => h)
      intro number u _
      exact vwp_bind_of (kept_iterateBytesInBlock kept hstep _ _ _ _ _ invalidEntry _ h) (fun _ _ h => h)
        fun r u hr => ih _ _ _ _ hr
    next => exact vwp_pure h

theorem kept_iteratePointers
    (hstep : ∀ e acc, e.name.length ≤ 70 → kept [] acc →
      kept (process e acc).1.name (process e acc).2)
    (node : Node) (position : DataPosition) (count i : ℕ) (result : DirEntry) (acc : τ)
    (h : kept result.name acc) :
    vwp (iteratePointers process node position count i result acc)
      (fun r _ => kept r.1.name r.2) (fun _ _ => True) v := by
  induction count generalizing i result acc v with
  | zero => exact vwp_throw trivial
  | succ count ih =>
    unfold iteratePointers
    split
    next => exact vwp_pure h
    next hinvalid =>
      have hnil : result.name = [] := by simpa [isValidEntry] using hinvalid
      apply vwp_bind_of (vwp_anything _) (fun _ _ h => h)
      intro pointer u _
      split
      · have h' := h
        rw [hnil] at h'
        exact vwp_bind_of (kept_iterateBlocks kept hstep _ _ _ _ _ _ invalidEntry _ h')
          (fun _ _ h => h) fun r u hr => ih _ _ _ hr
      · exact vwp_pure h

/-- INTERNAL: the same of the whole iteration. SRCLINE: directory.c:218-237 -/
theorem kept_iteratePointersBlocks
    (hstep : ∀ e acc, e.name.length ≤ 70 → kept [] acc →
      kept (process e acc).1.name (process e acc).2)
    (node : Node) (acc : τ) (h : kept [] acc) :
    vwp (iteratePointersBlocks process node acc) (fun r _ => kept r.1.name r.2)
      (fun _ _ => True) v :=
  vwp_bind_of (kept_iteratePointers kept hstep _ _ _ _ invalidEntry _ h) (fun _ _ h => h)
    fun _ _ hr => vwp_pure hr

end Kept

/-! ## The functions built on the iteration -/

section Lookup

variable {v : View} {nd : Inode} {d n : ℕ} {name : List UInt8} {e : DirEntry}
  {orphan : Option ℕ} {E : Fault → View → Prop}

/-- The entry that the search for a name in a directory returns: the first record with the
name and where it lies, or an invalid entry. -/
inductive Lookup (v : View) (nd : Inode) (name : List UInt8) (e : DirEntry) : Prop
  | found (l₁ l₂ : List Record) (m : ℕ) (records : v.records nd = l₁ ++ (name, m) :: l₂)
      (first : ∀ r ∈ l₁, r.1 ≠ name) (name_eq : e.name = name) (nodeNum : e.nodeNum = m)
      (blockNum : e.data.blockNum = v.dataBlock nd 0)
      (byteNum : e.data.byteNum = 128 * l₁.length)
  | missing (none : ∀ r ∈ v.records nd, r.1 ≠ name) (invalid : isValidEntry e = false)
      (nodeNum : e.nodeNum = 0)

theorem isValidEntry_iff : isValidEntry e = true ↔ e.name ≠ [] := by simp [isValidEntry]

/-- INTERNAL: **the search for a name.** SRCLINE: directory.c:60-67, directory.c:100-106 -/
theorem vwp_findEntry {Q : DirEntry × Unit → View → Prop} {node : Node}
    (hstate : node.state = 2) (hd : DirBlocks v (inodeOfNode node)) (hname : name ≠ [])
    (h : ∀ e, Lookup v (inodeOfNode node) name e → Q (e, ()) v) :
    vwp (iteratePointersBlocks (findEntry name) node ()) Q E v := by
  refine vwp_iteratePointersBlocks hstate hd () fun e h1 h2 h3 h4 => h e ?_
  rcases visit_findEntry hname (v.records (inodeOfNode node)) 0 with
    ⟨l₁, m, l₂, hrecords, hl₁, he⟩ | ⟨hnone, hinvalid, hzero⟩
  · rw [he] at h1 h2 h3
    have hvalid : isValidEntry e = true := by
      rw [isValidEntry_iff, h1]
      exact hname
    apply Lookup.found l₁ l₂ m hrecords hl₁ h1 h2 (h4 hvalid)
    simpa only [Nat.zero_add] using h3
  · refine Lookup.missing hnone ?_ (by rw [h2, hzero])
    simpa only [isValidEntry, h1] using hinvalid

theorem vwp_getEntry {Q : DirEntry → View → Prop} {node : Node} (hstate : node.state = 2)
    (hd : DirBlocks v (inodeOfNode node)) (hname : name ≠ [])
    (h : ∀ e, Lookup v (inodeOfNode node) name e → Q e v) :
    vwp (getEntry node name) Q E v :=
  vwp_bind (vwp_findEntry hstate hd hname fun e he => vwp_pure (h e he))

theorem vwp_existsEntry {Q : Bool → View → Prop} {node : Node} (hstate : node.state = 2)
    (hd : DirBlocks v (inodeOfNode node)) (hname : name ≠ [])
    (h : ∀ e, Lookup v (inodeOfNode node) name e → Q (isValidEntry e) v) :
    vwp (existsEntry node name) Q E v :=
  vwp_bind (vwp_getEntry hstate hd hname fun e he => vwp_pure (h e he))

/-- INTERNAL: the blocks of a directory in use are where the code expects them. -/
theorem dirBlocks (h : Core v) (hd : v.live d) (hstate : (v.inode d).state = 2) :
    DirBlocks v (v.inode d) := by
  have hok := (h.node d hd).dir hstate
  have hdata : (v.inode d).fileSize ≠ 0 → (v.inode d).refers (.data 0) :=
    fun hsize => (hok.refers_data hstate 0).mpr ⟨rfl, hsize⟩
  refine ⟨hok, fun hsize => ?_, fun hsize => ?_⟩
  · obtain ⟨h1, h2, -⟩ := h.inData_ptr hd ((h.node d hd).refers_ptr (hdata hsize))
    exact ⟨h1, h2⟩
  · obtain ⟨h1, h2, -⟩ := h.inData_data hd (hdata hsize)
    exact ⟨h1, h2⟩

/-- INTERNAL: the first record with a name is the one that the name leads to. -/
theorem lookup_of_first {l₁ l₂ : List Record} (hd : v.live d) (hstate : (v.inode d).state = 2)
    (hrecords : v.records (v.inode d) = l₁ ++ (name, n) :: l₂) (hfirst : ∀ r ∈ l₁, r.1 ≠ name) :
    v.tree.lookup d name = some n := by
  have hfind : l₁.find? (fun r => decide (r.1 = name)) = none := by
    simpa [List.find?_eq_none] using hfirst
  simp [Namespace.lookup, entries_dir hd hstate, hrecords, List.find?_append, hfind]

theorem lookup_of_none (hd : v.live d) (hstate : (v.inode d).state = 2)
    (hnone : ∀ r ∈ v.records (v.inode d), r.1 ≠ name) : v.tree.lookup d name = none := by
  rw [Namespace.lookup_eq_none_iff, entries_dir hd hstate]
  exact hnone

/-- INTERNAL: what the search returns, in terms of the namespace. -/
theorem Lookup.tree (h : Lookup v (v.inode d) name e) (hd : v.live d)
    (hstate : (v.inode d).state = 2) (hname : name ≠ []) :
    (v.tree.lookup d name = some e.nodeNum ∧ isValidEntry e = true ∧ e.name = name) ∨
      (v.tree.lookup d name = none ∧ isValidEntry e = false ∧ e.nodeNum = 0) := by
  cases h with
  | found l₁ l₂ m records first name_eq nodeNum blockNum byteNum =>
    left
    refine ⟨?_, by rw [isValidEntry_iff, name_eq]; exact hname, name_eq⟩
    rw [nodeNum]
    exact lookup_of_first hd hstate records first
  | missing none invalid nodeNum =>
    exact Or.inr ⟨lookup_of_none hd hstate none, invalid, nodeNum⟩

/-- The entry that `search_path` returns for the pieces `ps` looked up from `d`. -/
def Resolved (v : View) (d : ℕ) (ps : List (List UInt8)) (self : List UInt8) (e : DirEntry) :
    Prop :=
  (v.tree.walk d ps = some e.nodeNum ∧ isValidEntry e = true ∧ e.name = ps.getLastD self) ∨
    (v.tree.walk d ps = none ∧ isValidEntry e = false ∧ e.nodeNum = 0)

theorem vwp_searchPieces_invalid {Q : DirEntry → View → Prop} (ps : List (List UInt8))
    (he : isValidEntry e = false) (h : Q e v) : vwp (searchPieces ps e) Q E v := by
  cases ps with
  | nil => exact vwp_pure h
  | cons p ps =>
    rw [searchPieces, if_neg (by rw [he]; decide)]
    exact vwp_pure h

/-- The nodes on the way along the pieces `ps` from `d`, but for the last one, are directories
or have no blocks that could be read as records. -/
def Passable (v : View) (d : ℕ) (ps : List (List UInt8)) : Prop :=
  ∀ qs m, qs <+: ps → qs ≠ ps → v.tree.walk d qs = some m →
    (v.inode m).state = 2 ∨ (v.inode m).ptr 0 = 0

/-- INTERNAL: a walk passes through directories, so where it arrives at one it can be made. -/
theorem passable_of_dropLast {ps : List (List UInt8)}
    (hparent : ps ≠ [] → ∃ m, v.tree.walk d ps.dropLast = some m ∧ (v.inode m).state = 2) :
    Passable v d ps := by
  rintro qs m ⟨rs, rfl⟩ hne hwalk
  have hrs : rs ≠ [] := fun e => hne (by rw [e, List.append_nil])
  obtain ⟨c, hc, hstate⟩ := hparent (by simp [hrs])
  rw [List.dropLast_append_of_ne_nil hrs, Namespace.walk_append, hwalk, Option.bind_some] at hc
  left
  cases hdrop : rs.dropLast with
  | nil =>
    rw [hdrop] at hc
    cases hc
    exact hstate
  | cons r rs' =>
    rw [hdrop] at hc
    by_contra hdir
    have hnone : v.tree.lookup m r = none := by
      rw [Namespace.lookup_eq_none_iff, entries_of_state_ne hdir]
      simp
    rw [Namespace.walk, hnone] at hc
    cases hc

theorem Passable.tail {p : List UInt8} {ps : List (List UInt8)} {m : ℕ}
    (h : Passable v d (p :: ps)) (hlookup : v.tree.lookup d p = some m) : Passable v m ps := by
  intro qs c hqs hne hwalk
  apply h (p :: qs) c (List.cons_prefix_cons.mpr ⟨rfl, hqs⟩) (by simpa using hne)
  rw [Namespace.walk, hlookup]
  exact hwalk

/-- INTERNAL: in a node without blocks there is no entry. SRCLINE: directory.c:218-237 -/
theorem vwp_getEntry_noPointer {Q : DirEntry → View → Prop} {node : Node}
    (hptr : node.indirectPointerBlock 0 = 0)
    (h : ∀ e, isValidEntry e = false → e.nodeNum = 0 → Q e v) : vwp (getEntry node name) Q E v := by
  refine vwp_bind (vwp_bind ?_)
  unfold iteratePointers
  rw [if_neg (by decide)]
  refine vwp_bind (vwp_pointerAt (by omega) ?_)
  rw [if_neg (by simp [hptr])]
  exact vwp_pure (vwp_pure (vwp_pure (h _ rfl rfl)))

/-- INTERNAL: **one step of the walk**: the entry for a piece in the node, whatever it is.
SRCLINE: directory.c:26-33 -/
theorem vwp_getEntry_walk {Q : DirEntry → View → Prop} {node : Node} (h : Core v) (hd : v.live d)
    (hnode : inodeOfNode node = v.inode d)
    (hpass : (v.inode d).state = 2 ∨ (v.inode d).ptr 0 = 0) (hname : name ≠ [])
    (hfound : ∀ e, v.tree.lookup d name = some e.nodeNum → isValidEntry e = true →
      e.name = name → Q e v)
    (hmissing : ∀ e, v.tree.lookup d name = none → isValidEntry e = false → e.nodeNum = 0 → Q e v) :
    vwp (getEntry node name) Q E v := by
  by_cases hstate : (v.inode d).state = 2
  · have hdir : DirBlocks v (inodeOfNode node) := by
      rw [hnode]
      exact dirBlocks h hd hstate
    have hnode_state : node.state = 2 := by
      rw [← hstate, ← hnode]
      rfl
    apply vwp_getEntry hnode_state hdir hname
    intro e he
    rw [hnode] at he
    rcases he.tree hd hstate hname with ⟨hlookup, hvalid, hself⟩ | ⟨hnone, hinvalid, hzero⟩
    · exact hfound e hlookup hvalid hself
    · exact hmissing e hnone hinvalid hzero
  · have hptr : node.indirectPointerBlock 0 = 0 := by
      have := hpass.resolve_left hstate
      rw [← hnode] at this
      exact this
    refine vwp_getEntry_noPointer hptr fun e hinvalid hzero => hmissing e ?_ hinvalid hzero
    rw [Namespace.lookup_eq_none_iff, entries_of_state_ne hstate]
    simp

/-- INTERNAL: **the walk along a path**, by induction on the pieces: each node on the way
is written back as it was read. SRCLINE: directory.c:17-37 -/
theorem vwp_searchPieces {Q : DirEntry → View → Prop} (h : Inv v orphan)
    (ps : List (List UInt8)) {self : List UInt8} (hlive : v.live e.nodeNum)
    (hvalid : isValidEntry e = true) (hself : e.name = self) (hps : ∀ p ∈ ps, p ≠ [])
    (hpass : Passable v e.nodeNum ps)
    (hQ : ∀ e', Resolved v e.nodeNum ps self e' → Q e' v) :
    vwp (searchPieces ps e) Q E v := by
  induction ps generalizing e self with
  | nil => exact vwp_pure (hQ e (Or.inl ⟨rfl, hvalid, hself⟩))
  | cons p ps ih =>
    have hp : p ≠ [] := hps p List.mem_cons_self
    have hhere := hpass [] e.nodeNum List.nil_prefix (List.cons_ne_nil p ps).symm rfl
    rw [searchPieces, if_pos hvalid]
    refine vwp_bind (vwp_readNode hlive.1 (h.node _ hlive).named fun node hnode => ?_)
    refine vwp_bind (vwp_getEntry_walk h.toCore hlive hnode hhere hp
      (fun e' hfound hvalid' hname => ?_) fun e' hnone hinvalid hzero => ?_)
    · refine vwp_bind (vwp_unmapAndDestroyNode hlive.1 (hnode ▸ (h.node _ hlive).fits) ?_)
      rw [hnode, View.setInode_self]
      have hmem := Namespace.mem_targets_of_lookup hfound
      refine ih (h.tree.target_live _ hlive _ hmem) hvalid' hname
        (fun q hq => hps q (List.mem_cons_of_mem _ hq)) (hpass.tail hfound) ?_
      intro e'' hresolved
      apply hQ
      have hwalk : v.tree.walk e.nodeNum (p :: ps) = v.tree.walk e'.nodeNum ps := by
        simp only [Namespace.walk, hfound]
      have hlast : (p :: ps).getLastD self = ps.getLastD p := List.getLastD_cons ..
      simpa only [Resolved, hwalk, hlast] using hresolved
    · refine vwp_bind (vwp_unmapAndDestroyNode hlive.1 (hnode ▸ (h.node _ hlive).fits) ?_)
      rw [hnode, View.setInode_self]
      refine vwp_searchPieces_invalid ps hinvalid (hQ e' (Or.inr ⟨?_, hinvalid, hzero⟩))
      simp only [Namespace.walk, hnone]

/-- INTERNAL: **`search_path`** finds what the namespace says, and leaves the disk as it
was, when the path can be passed. SRCLINE: directory.c:17-37 -/
theorem vwp_searchPath_passable {Q : DirEntry → View → Prop} (h : Inv v orphan)
    {path : List UInt8} (hpass : Passable v 0 (stringSplit path))
    (hQ : ∀ e, Resolved v 0 (stringSplit path) [slash] e → Q e v) :
    vwp (searchPath path) Q E v := by
  refine vwp_searchPieces h _ h.live_root (by decide) rfl ?_ hpass hQ
  intro p hp
  have := (List.mem_filter.mp hp).2
  simpa using this

/-- INTERNAL: the same when the directory that should hold the last piece is one.
SRCLINE: directory.c:17-37 -/
theorem vwp_searchPath {Q : DirEntry → View → Prop} (h : Inv v orphan) {path : List UInt8}
    (hparent : stringSplit path ≠ [] →
      ∃ d, v.tree.walk 0 (stringSplit path).dropLast = some d ∧ (v.inode d).state = 2)
    (hQ : ∀ e, Resolved v 0 (stringSplit path) [slash] e → Q e v) :
    vwp (searchPath path) Q E v :=
  vwp_searchPath_passable h (passable_of_dropLast hparent) hQ

end Lookup

end LinuseFs.Analysis
