import LinuseFs.Analysis.StraySearch
import LinuseFs.Analysis.DirectoryUpdate

/-!
# When deleting an entry removes one record

`delete_directory_entry` moves the rest of one data block down and shortens the directory by a
record at its end.  The two ends are the same only in the last data block; anywhere else the last
record of the directory is lost and the last one of the block stays.  A search that comes behind
the last record goes on at the next pointer.
-/

set_option autoImplicit false

namespace LinuseFs.Analysis

open LinuseFs.Computation LinuseFs.Model LinuseFs.Interface

/-- A directory whose records have pairwise distinct names, in data blocks that are its own. -/
structure DistinctRecords (v : View) (nd : Inode) (n : ℕ) : Prop extends Directory v nd n where
  inj : ∀ j k, 32 * j < n → 32 * k < n → v.dataBlock nd j = v.dataBlock nd k → j = k
  ptr_ne : ∀ j k, 32 * j < n → 32 * k < n → nd.ptr (j / 1024) ≠ v.dataBlock nd k
  names : ∀ i < n, ∀ j < n, (recordAt v nd i).1 = (recordAt v nd j).1 → i = j

/-- `delete_directory_entry` returns; without a record of that name nothing changed, and else the
others are left, in some order. -/
def DeletesRecord (s : SacState) (node : Node) (name : List UInt8) (n : ℕ) : Prop :=
  ∃ node' s', deleteDirectoryEntry node name s = .ok node' s' ∧
    ((∀ i < n, (recordAt (viewOf s) (inodeOfNode node) i).1 ≠ name) → node' = node ∧ s' = s) ∧
    ∀ i < n, (recordAt (viewOf s) (inodeOfNode node) i).1 = name →
      node'.fileSize = 128 * (n - 1) ∧
      (recordsFrom (viewOf s') (inodeOfNode node') 0 (n - 1)).Perm
        ((recordsFrom (viewOf s) (inodeOfNode node) 0 n).eraseIdx i)

/-- The record `i` has the name, and the iteration comes to it: it is in the first data block or
the last one is not full, and no name up to it is too long. -/
def Finds (v : View) (nd : Inode) (name : List UInt8) (n i : ℕ) : Prop :=
  i < n ∧ (recordAt v nd i).1 = name ∧ (n % 32 ≠ 0 ∨ i < 32) ∧ ShortNames v nd (i + 1)

/-- No record has the name, and the iteration comes to the end of the records. -/
def Passes (v : View) (nd : Inode) (name : List UInt8) (n : ℕ) : Prop :=
  (∀ i < n, (recordAt v nd i).1 ≠ name) ∧ (n = 0 ∨ n % 32 ≠ 0 ∧ ShortNames v nd n)

/-- No record has the name, and the iteration ends without it: the pointer behind the last pointer
block is zero, or what it leads to does not have the name either. -/
def Misses (s : SacState) (node : Node) (name : List UInt8) (n : ℕ) : Prop :=
  Passes (viewOf s) (inodeOfNode node) name n ∧
    if n = 0 then node.indirectPointerBlock 0 = 0 else PointersLack s node name (n / 32768 + 1)

/-! ## The search -/

section Search

variable {v : View} {node : Node} {nd : Inode} {name : List UInt8} {n : ℕ}
  {E : Fault → View → Prop}

theorem scan_findEntry {rs : List Record} (i : ℕ) (h : ∀ r ∈ rs, r.1 ≠ name) :
    scan (findEntry name) rs i () = (none, ()) := by
  induction rs generalizing i with
  | nil => rfl
  | cons r rs ih =>
    have hfind : findEntry name (entryOf r) () = (invalidEntry, ()) := by
      rw [findEntry, if_neg (show (entryOf r).name ≠ name from h r List.mem_cons_self)]
    rw [scan, hfind, if_neg (by decide)]
    exact ih _ fun r hr => h r (List.mem_cons_of_mem _ hr)

theorem mem_recordsFrom {r : Record} {hi : ℕ} (h : r ∈ recordsFrom v nd 0 hi) :
    ∃ i < hi, recordAt v nd i = r := by
  obtain ⟨i, hi', rfl⟩ := List.mem_map.mp h
  rw [List.mem_range'_1] at hi'
  exact ⟨i, by omega, rfl⟩

/-- INTERNAL: a name that does not fit a `t_dir_entry` is not read. SRCLINE: directory.c:294 -/
theorem vwp_readDirectoryEntry_long {Q : DirEntry → View → Prop} (hd : Directory v nd n) {i : ℕ}
    (hi : i < n) (hlong : 70 < (recordAt v nd i).1.length) (hE : ∀ e, E e v) :
    vwp (readDirectoryEntry (v.dataBlock nd (i / 32)) (i % 32 * 128)) Q E v := by
  obtain ⟨hb, hb'⟩ := hd.block (i / 32) (by omega)
  obtain ⟨long, -, hname⟩ := hd.name i hi
  simp only [recordAt, hname, Option.getD_some] at hlong
  refine vwp_bind (vwp_bytesToInt32 hb hb' (by omega) ?_)
  refine vwp_bind (vwp_load hb hb' (by simp only [blockSize]; omega) ?_)
  have hlimit : min fileNameSize (blockSize - (i % 32 * 128 + 4)) = 71 := by
    simp only [fileNameSize, blockSize]
    omega
  rw [hlimit]
  cases hcut : cstr (fun t => v.data (v.dataBlock nd (i / 32)) (i % 32 * 128 + 4 + t)) 0 71 with
  | none => exact vwp_throw (hE _)
  | some cut =>
    exfalso
    obtain ⟨-, hbytes, -, hnul⟩ := cstr_eq_some_iff.mp hname
    obtain ⟨hlen, -, hend, -⟩ := cstr_eq_some_iff.mp hcut
    rw [Nat.zero_add, hbytes _ (by omega), List.getD_eq_getElem _ _ (by omega)] at hend
    exact hnul (hend ▸ List.getElem_mem _)

/-- INTERNAL: a record behind the page is not read. SRCLINE: directory.c:283-284 -/
theorem vwp_readDirectoryEntry_past {Q : DirEntry → View → Prop} {b : ℕ} (hE : ∀ e, E e v) :
    vwp (readDirectoryEntry b (32 * 128)) Q E v := by
  rintro s rfl
  rw [readDirectoryEntry, wp_bind, bytesToInt32, wp_bind]
  exact load_fault_wp (fun h => by have := h.2; omega) (hE _)

/-- INTERNAL: the search comes to the record `i`, and ends there if it has the name. SRCLINE:
directory.c:218-289 -/
theorem vwp_comes {Q : DirEntry × Unit → View → Prop} (hd : Directory v (inodeOfNode node) n)
    {K c : ℕ} (hc : c < recordsIn n K ∨ c ≤ 32 ∧ n % 32 = 0) (hK : 32 * K < n)
    (hn : K = 0 ∨ n % 32 ≠ 0)
    (hbefore : ∀ j < 32 * K + c, (recordAt v (inodeOfNode node) j).1 ≠ name ∧
      (recordAt v (inodeOfNode node) j).1.length ≤ 70)
    (hread : vwp (readDirectoryEntry (v.dataBlock (inodeOfNode node) K) (c * 128))
      (fun entry w => entry.name = name ∧ name ≠ [] ∧
        ∀ data : DataPosition, data.blockNum = v.dataBlock (inodeOfNode node) K →
          data.byteNum = 128 * c → Q ({ entry with data := data }, ()) w) E v) :
    vwp (iteratePointersBlocks (findEntry name) node ()) Q E v := by
  rw [iteratePointersBlocks, getNextWritePosition_eq hd.size]
  have hscan : scan (findEntry name) (recordsFrom v (inodeOfNode node) 0 (32 * K + c)) 0 () =
      (none, ()) := by
    apply scan_findEntry _
    intro r hr
    obtain ⟨j, hj, rfl⟩ := mem_recordsFrom hr
    exact (hbefore j hj).1
  refine vwp_bind (vwp_reach hd (fun h => hn.resolve_left h) hK hc (fun j hj => (hbefore j hj).2)
    hscan (vwp_mono hread (fun entry w hw => ?_) fun _ _ h => h))
  obtain ⟨hname, hne, hQ⟩ := hw
  have hfind : findEntry name entry () = (entry, ()) := by
    rw [findEntry, if_pos hname]
  rw [hfind]
  exact ⟨hname ▸ hne, vwp_pure (hQ _ rfl (Nat.mul_comm _ _))⟩

variable (name) in
/-- INTERNAL: **the search** returns the place of the record with the name, or finds that there is
none, whenever the iteration comes there, and faults otherwise. SRCLINE: directory.c:60-69 -/
theorem vwp_findRecord (hd : Directory v (inodeOfNode node) n)
    (hlast : node.indirectPointerBlock ((n + 32767) / 32768) = 0) (hroom : n / 32768 + 1 < 1000) :
    vwp (iteratePointersBlocks (findEntry name) node ())
      (fun r w => w = v ∧ ((∃ i, Finds v (inodeOfNode node) name n i ∧ r.1.name ≠ [] ∧
          r.1.data.blockNum = v.dataBlock (inodeOfNode node) (i / 32) ∧
          r.1.data.byteNum = 128 * (i % 32)) ∨
        Passes v (inodeOfNode node) name n ∧ r.1.name = []))
      (fun _ _ => (∀ i, ¬ Finds v (inodeOfNode node) name n i) ∧
        ¬ Passes v (inodeOfNode node) name n) v := by
  classical
  have hpast : n % 32 = 0 → 0 < n →
      (∀ j < 32, (recordAt v (inodeOfNode node) j).1 ≠ name ∧
        (recordAt v (inodeOfNode node) j).1.length ≤ 70) →
      vwp (iteratePointersBlocks (findEntry name) node ())
        (fun _ _ => False) (fun _ _ => (∀ i, ¬ Finds v (inodeOfNode node) name n i) ∧
          ¬ Passes v (inodeOfNode node) name n) v := by
    intro hn hpos hbefore
    refine vwp_comes hd (K := 0) (c := 32) (Or.inr ⟨le_rfl, hn⟩) (by omega) (Or.inl rfl)
      (fun j hj => hbefore j (by omega)) (vwp_readDirectoryEntry_past fun _ => ⟨?_, ?_⟩)
    · rintro i ⟨hi, hname, hreach, -⟩
      exact (hbefore i (by omega)).1 hname
    · rintro ⟨-, h0 | ⟨hn', -⟩⟩
      · omega
      · exact hn' hn
  by_cases hquiet : ∀ i < n, (recordAt v (inodeOfNode node) i).1 ≠ name ∧
      (recordAt v (inodeOfNode node) i).1.length ≤ 70
  · have hmiss : ∀ i < n, (recordAt v (inodeOfNode node) i).1 ≠ name := fun i hi => (hquiet i hi).1
    have hshort : ShortNames v (inodeOfNode node) n := fun i hi => (hquiet i hi).2
    by_cases hfull : n % 32 = 0 ∧ 0 < n
    · exact vwp_mono (hpast hfull.1 hfull.2 fun j hj => hquiet j (by omega)) (fun _ _ h => h.elim)
        fun _ _ h => h
    · have hscan : scan (findEntry name) (recordsFrom v (inodeOfNode node) 0 n) 0 () =
          (none, ()) := by
        apply scan_findEntry _
        intro r hr
        obtain ⟨j, hj, rfl⟩ := mem_recordsFrom hr
        exact hmiss j hj
      refine vwp_iteration _ hd ?_ () fun r hr => ⟨rfl, Or.inr ⟨⟨hmiss, ?_⟩, ?_⟩⟩
      · by_cases hzero : n = 0
        · subst hzero
          exact Or.inl ⟨rfl, hlast⟩
        · refine Or.inr ⟨by omega, hshort, hroom, ?_⟩
          rw [show n / 32768 + 1 = (n + 32767) / 32768 by omega]
          exact hlast
      · by_cases hzero : n = 0
        · exact Or.inl hzero
        · exact Or.inr ⟨by omega, hshort⟩
      · exact hr.2.1 (by rw [hscan])
  -- the first record that has the name or does not fit
  have hex : ∃ i, i < n ∧ ((recordAt v (inodeOfNode node) i).1 = name ∨
      70 < (recordAt v (inodeOfNode node) i).1.length) := by
    by_contra hno
    refine hquiet fun i hi => ⟨fun h => hno ⟨i, hi, Or.inl h⟩, ?_⟩
    by_contra hlong
    exact hno ⟨i, hi, Or.inr (by omega)⟩
  obtain ⟨i, ⟨hi, hstops⟩, hfirst⟩ : ∃ i, (i < n ∧ ((recordAt v (inodeOfNode node) i).1 = name ∨
      70 < (recordAt v (inodeOfNode node) i).1.length)) ∧
      ∀ j < i, (recordAt v (inodeOfNode node) j).1 ≠ name ∧
        (recordAt v (inodeOfNode node) j).1.length ≤ 70 := by
    refine ⟨Nat.find hex, Nat.find_spec hex, fun j hj => ?_⟩
    have hmin := Nat.find_min hex hj
    have hlt := (Nat.find_spec hex).1
    refine ⟨fun h => hmin ⟨by omega, Or.inl h⟩, ?_⟩
    by_contra hlong
    exact hmin ⟨by omega, Or.inr (by omega)⟩
  by_cases hreach : i / 32 = 0 ∨ n % 32 ≠ 0
  swap
  · rw [not_or, not_not] at hreach
    exact vwp_mono (hpast hreach.2 (by omega) fun j hj => hfirst j (by omega))
      (fun _ _ h => h.elim) fun _ _ h => h
  have hin : i % 32 < recordsIn n (i / 32) ∨ i % 32 ≤ 32 ∧ n % 32 = 0 := by
    unfold recordsIn
    split <;> omega
  apply vwp_comes hd hin (by omega) hreach (fun j hj => hfirst j (by omega))
  by_cases hlong : (recordAt v (inodeOfNode node) i).1.length ≤ 70
  · obtain ⟨⟨cut, hcut⟩, hrecord⟩ := record_eq hd hi hlong
    have hname := hstops.resolve_right (by omega)
    obtain ⟨hb, hb'⟩ := hd.block (i / 32) (by omega)
    apply vwp_readDirectoryEntry hb hb' (Nat.mod_lt _ (by decide)) hcut
    rw [hrecord]
    have hne : name ≠ [] := by
      obtain ⟨name', hne', hname'⟩ := hd.name i hi
      rw [← hname, recordAt, hname']
      exact hne'
    refine ⟨hname, hne, fun data hblock hbyte => ⟨rfl, Or.inl ⟨i, ⟨hi, hname, ?_, ?_⟩, ?_, hblock,
      hbyte⟩⟩⟩
    · exact hreach.symm.imp id (by omega)
    · intro j hj
      by_cases hji : j = i
      · rwa [hji]
      · exact (hfirst j (by omega)).2
    · show (recordAt v (inodeOfNode node) i).1 ≠ []
      rwa [hname]
  · refine vwp_readDirectoryEntry_long hd hi (by omega) fun _ => ⟨?_, ?_⟩
    · rintro j ⟨hj, hname, -, hshort⟩
      by_cases hji : j < i
      · exact (hfirst j hji).1 hname
      · exact hlong (hshort i (by omega))
    · rintro ⟨-, h0 | ⟨-, hshort⟩⟩
      · omega
      · exact hlong (hshort i hi)

/-- INTERNAL: the node without the pointers behind its last pointer block is the same directory. -/
theorem cutAt_directory (hd : Directory v (inodeOfNode node) n) :
    Directory v (inodeOfNode (cutAt node ((n + 32767) / 32768))) n ∧
      (∀ k, 32 * k < n → v.dataBlock (inodeOfNode (cutAt node ((n + 32767) / 32768))) k =
        v.dataBlock (inodeOfNode node) k) ∧
      ∀ i < n, recordAt v (inodeOfNode (cutAt node ((n + 32767) / 32768))) i =
        recordAt v (inodeOfNode node) i := by
  have hptr : ∀ k, 32 * k < n → (inodeOfNode (cutAt node ((n + 32767) / 32768))).ptr (k / 1024) =
      (inodeOfNode node).ptr (k / 1024) := fun k hk => if_pos (by omega)
  have hblock : ∀ k, 32 * k < n → v.dataBlock (inodeOfNode (cutAt node ((n + 32767) / 32768))) k =
      v.dataBlock (inodeOfNode node) k := by
    intro k hk
    simp only [View.dataBlock, View.slot, hptr k hk]
  refine ⟨⟨⟨hd.size, hd.room, fun k hk => ?_, fun k hk => ?_⟩, hd.state, fun i hi => ?_⟩, hblock,
    fun i hi => ?_⟩
  · rw [hptr k hk]
    exact hd.ptr k hk
  · rw [hblock k hk]
    exact hd.block k hk
  · rw [hblock _ (by omega)]
    exact hd.name i hi
  · simp only [recordAt, hblock (i / 32) (by omega)]

variable (name) in
/-- INTERNAL: so the search up to there is the same as well. -/
theorem cutAt_finds (hd : Directory v (inodeOfNode node) n) :
    (∀ i, Finds v (inodeOfNode (cutAt node ((n + 32767) / 32768))) name n i ↔
      Finds v (inodeOfNode node) name n i) ∧
    (Passes v (inodeOfNode (cutAt node ((n + 32767) / 32768))) name n ↔
      Passes v (inodeOfNode node) name n) := by
  obtain ⟨-, -, hrecord⟩ := cutAt_directory hd
  have hshort : ∀ m ≤ n, (ShortNames v (inodeOfNode (cutAt node ((n + 32767) / 32768))) m ↔
      ShortNames v (inodeOfNode node) m) := fun m hm =>
    forall₂_congr fun i hi => by rw [hrecord i (by omega)]
  constructor
  · intro i
    unfold Finds
    apply and_congr_right
    intro hi
    rw [hrecord i hi, hshort (i + 1) hi]
  · unfold Passes
    rw [hshort n le_rfl]
    refine and_congr_left fun _ => forall₂_congr fun i hi => ?_
    rw [hrecord i hi]

variable (name) in
/-- INTERNAL: **the search, also behind the last pointer block**: it returns the place of the record
with the name, or finds nothing, or what it finds behind the records is not the directory's. SRCLINE:
directory.c:60-69, directory.c:218-237 -/
theorem findRecord_wp {s : SacState} (hd : Directory (viewOf s) (inodeOfNode node) n)
    (hroom : n / 32768 + 1 < 1000) :
    wp (iteratePointersBlocks (findEntry name) node ())
      (fun r s' => s' = s ∧ ((∃ i, Finds (viewOf s) (inodeOfNode node) name n i ∧ r.1.name ≠ [] ∧
          r.1.data.blockNum = (viewOf s).dataBlock (inodeOfNode node) (i / 32) ∧
          r.1.data.byteNum = 128 * (i % 32)) ∨
        Misses s node name n ∧ r.1.name = [] ∨
        Passes (viewOf s) (inodeOfNode node) name n ∧ ¬ Misses s node name n ∧ r.1.name ≠ []))
      (fun _ _ => (∀ i, ¬ Finds (viewOf s) (inodeOfNode node) name n i) ∧ ¬ Misses s node name n)
      s := by
  have hstate : node.state = 2 := hd.state
  have hstate' : node.state ≠ 0 := by rw [hstate]; decide
  have hcut := cutAt_directory hd
  have hfinds := cutAt_finds name hd
  -- the search of the node up to its last pointer block
  have hsearch := wp_and (vwp_findRecord name hcut.1 (if_neg (by omega)) hroom s rfl)
    (readOnly_iteratePointersBlocks (cutAt node ((n + 32767) / 32768)) () s)
  rcases Nat.eq_zero_or_pos n with rfl | hpos
  · by_cases hptr : node.indirectPointerBlock 0 = 0
    · have hsame := wp_and (vwp_findRecord name hd hptr hroom s rfl)
        (readOnly_iteratePointersBlocks node () s)
      refine wp_mono hsame ?_ fun _ _ he => ⟨he.1.1, fun hmisses => he.1.2 hmisses.1⟩
      rintro r s' ⟨⟨-, hfound | ⟨hpasses, hnil⟩⟩, rfl⟩
      · exact ⟨rfl, Or.inl hfound⟩
      · exact ⟨rfl, Or.inr (Or.inl ⟨⟨hpasses, by rw [if_pos rfl, hptr]⟩, hnil⟩)⟩
    · have hmiss : ¬ Misses s node name 0 := fun h => hptr (by simpa using h.2)
      have hnone : ∀ i, ¬ Finds (viewOf s) (inodeOfNode node) name 0 i :=
        fun i hi => Nat.not_lt_zero _ hi.1
      refine wp_mono (wp_and (vwp_search_empty name hd.size hstate' hptr s rfl)
        (readOnly_iteratePointersBlocks node () s)) ?_ fun _ _ _ => ⟨hnone, hmiss⟩
      rintro r s' ⟨hne, rfl⟩
      exact ⟨rfl, Or.inr (Or.inr ⟨⟨fun i hi => absurd hi (Nat.not_lt_zero i), Or.inl rfl⟩, hmiss,
        hne⟩)⟩
  refine iteratePointersBlocks_cut hstate' (k := (n + 32767) / 32768) (by omega) (fun j hj => ?_)
    (wp_mono hsearch ?_ fun _ _ he => ⟨fun i hi => he.1.1 i ((hfinds.1 i).mpr hi),
      fun hmisses => he.1.2 (hfinds.2.mpr hmisses.1)⟩)
  · have hptr := (hd.ptr (1024 * j) (by omega)).1
    rw [show 1024 * j / 1024 = j by omega] at hptr
    exact fun hzero => absurd (show (inodeOfNode node).ptr j = 0 from hzero) (by omega)
  rintro r s' ⟨⟨-, ⟨i, hi, hne, hblock, hbyte⟩ | ⟨hpasses, hnil⟩⟩, rfl⟩
  · rw [if_neg hne]
    refine ⟨rfl, Or.inl ⟨i, (hfinds.1 i).mp hi, hne, ?_, hbyte⟩⟩
    rw [← hcut.2.1 _ (by have := hi.1; omega)]
    exact hblock
  · rw [if_pos hnil]
    intro e he
    have hpasses := hfinds.2.mp hpasses
    have hn : n % 32 ≠ 0 := (hpasses.2.resolve_left (by omega)).1
    have hmisses : Misses s' node name n ↔ PointersLack s' node name (n / 32768 + 1) := by
      rw [Misses, if_neg (by omega), and_iff_right hpasses]
    have hposition : u32 (((endPosition n).byteNum : ℤ) - 1) < 4096 := by
      show u32 (((128 * (n % 32) : ℕ) : ℤ) - 1) < 4096
      rw [show ((128 * (n % 32) : ℕ) : ℤ) - 1 = ((128 * (n % 32) - 1 : ℕ) : ℤ) by omega,
        u32_natCast_of_lt (by omega)]
      omega
    rw [getNextWritePosition_eq hd.size, show (n + 32767) / 32768 = n / 32768 + 1 by omega]
    have hrest := searchPointers_wp (s := s') name hstate' hposition
      (show (endPosition n).blockNum < 1024 from Nat.mod_lt _ (by decide)) (999 - n / 32768)
      (n / 32768 + 1) (by omega) (Nat.lt_succ_self _) he
    rw [show 999 - n / 32768 + 1 = 1001 - (n / 32768 + 1) by omega, ← hmisses] at hrest
    refine wp_mono hrest ?_ fun _ _ hno => ⟨fun i hi => hpasses.1 i hi.1 hi.2.1, hno⟩
    rintro ⟨e', acc⟩ s'' ⟨rfl, hfound⟩
    by_cases hnil' : e'.name = []
    · exact ⟨rfl, Or.inr (Or.inl ⟨hfound.mp hnil', hnil'⟩)⟩
    · exact ⟨rfl, Or.inr (Or.inr ⟨hpasses, fun hm => hnil' (hfound.mpr hm), hnil'⟩)⟩

end Search

/-! ## What is left -/

section Left

variable {v : View} {nd nd' : Inode} {n i : ℕ}

/-- INTERNAL: the last record of a data block stays. SRCLINE: directory.c:75 -/
theorem byte_moveDown_last {b k t : ℕ} (hk : k < 32) :
    (moveDown v b k).data b (31 * 128 + t) = v.data b (31 * 128 + t) := by
  rw [moveDown, View.setData_same, memcpy_outside (by omega)]

/-- INTERNAL: the blocks of the records that are left are where they were. -/
theorem dataBlock_moved (h : DistinctRecords v nd n) (hi : i < n)
    (hptr : ∀ k, 32 * k < n - 1 → nd'.ptr (k / 1024) = nd.ptr (k / 1024)) {k : ℕ}
    (hk : 32 * k < n - 1) :
    (moveDown v (v.dataBlock nd (i / 32)) (i % 32)).dataBlock nd' k = v.dataBlock nd k := by
  simp only [View.dataBlock, View.slot, hptr k hk]
  rw [moveDown, View.setData_ne]
  exact h.ptr_ne k (i / 32) (by omega) (by omega)

/-- Which record the record `j` was before. -/
def before (i j : ℕ) : ℕ := if j / 32 = i / 32 ∧ j % 32 < 31 ∧ i ≤ j then j + 1 else j

/-- INTERNAL: **only the data block of the record changed**, and its last record stays. -/
theorem recordAt_moved (h : DistinctRecords v nd n) (hi : i < n)
    (hptr : ∀ k, 32 * k < n - 1 → nd'.ptr (k / 1024) = nd.ptr (k / 1024)) {j : ℕ}
    (hj : j < n - 1) :
    recordAt (moveDown v (v.dataBlock nd (i / 32)) (i % 32)) nd' j =
      recordAt v nd (before i j) := by
  have hbyte : ∀ t < 128, (moveDown v (v.dataBlock nd (i / 32)) (i % 32)).data
      (v.dataBlock nd (j / 32)) (j % 32 * 128 + t) =
      v.data (v.dataBlock nd (before i j / 32)) (before i j % 32 * 128 + t) := by
    intro t ht
    by_cases hblock : j / 32 = i / 32
    · by_cases hlast : j % 32 < 31
      · by_cases hle : i ≤ j
        · rw [before, if_pos ⟨hblock, hlast, hle⟩, hblock, byte_moveDown hlast ht, if_neg (by omega),
            show (j + 1) / 32 = i / 32 by omega, show (j + 1) % 32 = j % 32 + 1 by omega]
        · rw [before, if_neg (by omega), hblock, byte_moveDown hlast ht, if_pos (by omega)]
      · rw [before, if_neg (by omega), show j % 32 = 31 by omega, hblock,
          byte_moveDown_last (Nat.mod_lt _ (by decide))]
    · rw [before, if_neg (by omega), moveDown, View.setData_ne]
      intro he
      exact hblock (h.inj _ _ (by omega) (by omega) he)
  apply recordAt_congr
  intro t ht
  rw [dataBlock_moved h hi hptr (by omega)]
  exact hbyte t ht

/-- INTERNAL: **in the last data block the other records are left, in their order.** -/
theorem recordsFrom_moved (h : DistinctRecords v nd n) (hi : i < n) (hlast : i / 32 = (n - 1) / 32)
    (hptr : ∀ k, 32 * k < n - 1 → nd'.ptr (k / 1024) = nd.ptr (k / 1024)) :
    recordsFrom (moveDown v (v.dataBlock nd (i / 32)) (i % 32)) nd' 0 (n - 1) =
      (recordsFrom v nd 0 n).eraseIdx i := by
  refine List.ext_getElem? fun j => ?_
  rw [List.getElem?_eraseIdx]
  by_cases hj : j < n - 1
  · rw [getElem?_recordsFrom hj, recordAt_moved h hi hptr hj]
    by_cases hji : j < i
    · rw [show before i j = j from if_neg (by omega), if_pos hji, getElem?_recordsFrom (by omega)]
    · rw [show before i j = j + 1 from if_pos (by omega), if_neg hji,
        getElem?_recordsFrom (by omega)]
  · rw [if_neg (by omega), List.getElem?_eq_none (by rw [length_recordsFrom]; omega),
      List.getElem?_eq_none (by rw [length_recordsFrom]; omega)]

/-- INTERNAL: **in another data block the last record of the directory is lost.** -/
theorem recordsFrom_lost (h : DistinctRecords v nd n) (hi : i < n) (hlast : i / 32 ≠ (n - 1) / 32)
    (hptr : ∀ k, 32 * k < n - 1 → nd'.ptr (k / 1024) = nd.ptr (k / 1024)) :
    ¬ (recordsFrom (moveDown v (v.dataBlock nd (i / 32)) (i % 32)) nd' 0 (n - 1)).Perm
      ((recordsFrom v nd 0 n).eraseIdx i) := by
  intro hperm
  have hmem : recordAt v nd (n - 1) ∈ (recordsFrom v nd 0 n).eraseIdx i := by
    rw [List.mem_eraseIdx_iff_getElem?]
    exact ⟨n - 1, by omega, getElem?_recordsFrom (by omega)⟩
  obtain ⟨j, hj, hsame⟩ := mem_recordsFrom (hperm.mem_iff.mpr hmem)
  rw [recordAt_moved h hi hptr hj] at hsame
  have hbefore : before i j < n - 1 := by
    unfold before
    split <;> omega
  have := h.names _ (by omega) _ (by omega) (congrArg Prod.fst hsame)
  omega

end Left

/-! ## When one record is removed -/

section Deletes

variable {s : SacState} {node : Node} {name : List UInt8} {n : ℕ}

/-- INTERNAL: **whatever entry the search returns**, if it is a valid one the directory gets
shorter. SRCLINE: directory.c:70-81 -/
theorem deleteDirectoryEntry_shortens {E : Fault → SacState → Prop}
    (hsize : node.fileSize = 128 * n) (hn : n ≤ 1000 * 1024 * 32) (hE : ∀ e s', E e s')
    (hfound : wp (iteratePointersBlocks (findEntry name) node ()) (fun r _ => r.1.name ≠ []) E s) :
    wp (deleteDirectoryEntry node name) (fun node' _ => node' ≠ node) E s := by
  have hany : ∀ {α : Type} (x : Sac α) (s : SacState),
      wp x (fun _ _ => True) (fun _ _ => True) s := fun x s => vwp_anything x s rfl
  have hshorter : ∀ node' : Node, node'.fileSize = u32 ((node.fileSize : ℤ) - dirEntrySize) →
      node' ≠ node := by
    rintro node' hsize' rfl
    rw [hsize, u32, dirEntrySize] at hsize'
    omega
  rw [deleteDirectoryEntry]
  refine wp_bind_of hfound (fun r s' hne => ?_) fun _ _ he => he
  dsimp only
  rw [if_pos (by simpa [isValidEntry] using hne)]
  refine wp_bind_of (hany _ _) (fun _ s₁ _ => ?_) fun _ _ _ => hE _ _
  refine wp_bind_of (hany _ _) (fun rest s₂ _ => ?_) fun _ _ _ => hE _ _
  refine wp_bind_of (hany _ _) (fun _ s₃ _ => ?_) fun _ _ _ => hE _ _
  split
  · rw [Node.setPointer, if_pos (by decide)]
    exact hshorter _ rfl
  · exact hshorter _ rfl

variable (name) in
/-- INTERNAL: **`delete_directory_entry`** moves the records behind the one it found down, in the
data block of that one; when no record has the name it changes nothing, if the search finds nothing
behind the records either. SRCLINE: directory.c:58-83 -/
theorem deleteDirectoryEntry_wp (h : DistinctRecords (viewOf s) (inodeOfNode node) n) :
    wp (deleteDirectoryEntry node name)
      (fun node' s' => (∃ i, Finds (viewOf s) (inodeOfNode node) name n i ∧
          viewOf s' = moveDown (viewOf s) ((viewOf s).dataBlock (inodeOfNode node) (i / 32)) (i % 32) ∧
          node'.fileSize = 128 * (n - 1) ∧
          ∀ k, 32 * k < n - 1 →
            (inodeOfNode node').ptr (k / 1024) = (inodeOfNode node).ptr (k / 1024)) ∨
        Misses s node name n ∧ node' = node ∧ s' = s ∨
        Passes (viewOf s) (inodeOfNode node) name n ∧ ¬ Misses s node name n ∧ node' ≠ node)
      (fun _ _ => (∀ i, ¬ Finds (viewOf s) (inodeOfNode node) name n i) ∧ ¬ Misses s node name n)
      s := by
  have hle := h.toRecordBlocks.records_le h.inj
  have hsearch := findRecord_wp name h.toDirectory (by omega)
  by_cases hstray : Passes (viewOf s) (inodeOfNode node) name n ∧ ¬ Misses s node name n
  · have hnone : ∀ i, ¬ Finds (viewOf s) (inodeOfNode node) name n i :=
      fun i hi => hstray.1.1 i hi.1 hi.2.1
    refine wp_mono (deleteDirectoryEntry_shortens h.size h.room (fun _ _ => ⟨hnone, hstray.2⟩)
      (wp_mono hsearch ?_ fun _ _ he => he)) (fun node' s' hne => ?_) fun _ _ he => he
    · rintro r s' ⟨-, ⟨i, hi, -⟩ | ⟨hmisses, -⟩ | ⟨-, -, hne⟩⟩
      · exact absurd hi (hnone i)
      · exact absurd hmisses hstray.2
      · exact hne
    · exact Or.inr (Or.inr ⟨hstray.1, hstray.2, hne⟩)
  rw [deleteDirectoryEntry]
  refine wp_bind_of hsearch (fun r s' hr => ?_) fun _ _ he => he
  obtain ⟨rfl, hfound⟩ := hr
  rcases hfound with ⟨i, hfinds, hne, hblock, hbyte⟩ | ⟨hmisses, hname⟩ | ⟨hpasses, hmisses, -⟩
  · have hi := hfinds.1
    obtain ⟨hb, hb'⟩ := h.block (i / 32) (by omega)
    have hsize : u32 ((node.fileSize : ℤ) - dirEntrySize) = 128 * (n - 1) := by
      have hcast : (node.fileSize : ℤ) - dirEntrySize = (128 * (n - 1) : ℕ) := by
        rw [show node.fileSize = 128 * n from h.size]
        simp only [dirEntrySize]
        omega
      rw [hcast, u32_natCast_of_lt (by omega)]
    dsimp only
    rw [if_pos (by simpa [isValidEntry] using hne), hblock, hbyte, readBlock_of_lt hb', hsize,
      wp_bind]
    apply load_wp hb' (by omega)
    rw [wp_bind]
    apply load_wp hb' (by simp only [dirEntrySize, blockSize]; omega)
    rw [wp_bind]
    apply store_wp hb' (by simp only [dirEntrySize, blockSize]; omega)
    have hview := viewOf_setBlock_data s' (memcpy
      (s'.disk ((viewOf s').dataBlock (inodeOfNode node) (i / 32))) (128 * (i % 32))
      (fun t => s'.disk ((viewOf s').dataBlock (inodeOfNode node) (i / 32))
        (128 * (i % 32) + dirEntrySize + t))
      (blockSize - (128 * (i % 32) + dirEntrySize))) hb hb'
    rw [← viewOf_data hb hb'] at hview ⊢
    by_cases hn : n = 1
    · rw [if_pos (show 128 * (n - 1) = 0 by omega), Node.setPointer, if_pos (by decide)]
      exact Or.inl ⟨i, hfinds, hview, rfl, fun k hk => by omega⟩
    · rw [if_neg (show 128 * (n - 1) ≠ 0 by omega)]
      exact Or.inl ⟨i, hfinds, hview, rfl, fun _ _ => rfl⟩
  · dsimp only
    rw [if_neg (by simp [isValidEntry, hname])]
    exact Or.inr (Or.inl ⟨hmisses, rfl, rfl⟩)
  · exact absurd ⟨hpasses, hmisses⟩ hstray

/-- INTERNAL: deleting outside the last data block, or where the iteration does not come, does not
remove one record, and a search that goes astray does not leave the directory as it is. -/
theorem DeletesRecord.cond (h : DistinctRecords (viewOf s) (inodeOfNode node) n)
    (hdeletes : DeletesRecord s node name n) :
    (∃ i, Finds (viewOf s) (inodeOfNode node) name n i ∧ i / 32 = (n - 1) / 32) ∨
      Misses s node name n := by
  obtain ⟨node', s', hok, hmissing, hfound⟩ := hdeletes
  rcases wp_of_ok (deleteDirectoryEntry_wp name h) hok with
    ⟨i, hfinds, hview, -, hptr⟩ | ⟨hmisses, -⟩ | ⟨hpasses, -, hne⟩
  · by_contra hno
    rw [not_or] at hno
    have hlast : i / 32 ≠ (n - 1) / 32 := fun he => hno.1 ⟨i, hfinds, he⟩
    obtain ⟨-, hperm⟩ := hfound i hfinds.1 hfinds.2.1
    rw [hview] at hperm
    exact recordsFrom_lost h hfinds.1 hlast hptr hperm
  · exact Or.inr hmisses
  · exact absurd (hmissing hpasses.1).1 hne

/-- **`delete_directory_entry` removes one record if and only if** the record with the name is in
the last data block and the iteration comes there: the last data block is not full, or it is the
first and has the record, and no name that is read has more than 70 bytes; or there is none, and the
iteration comes to the end of the records and does not find the name behind them, which it does not
if the pointer behind the last pointer block is zero. SRCLINE: directory.c:58-83,
directory.c:218-296 -/
theorem deletes_record_iff (h : DistinctRecords (viewOf s) (inodeOfNode node) n) :
    DeletesRecord s node name n ↔
      (∃ i, Finds (viewOf s) (inodeOfNode node) name n i ∧ i / 32 = (n - 1) / 32) ∨
        Misses s node name n := by
  refine ⟨fun hdeletes => hdeletes.cond h, fun hcond => ?_⟩
  have hreturns : ¬ ((∀ i, ¬ Finds (viewOf s) (inodeOfNode node) name n i) ∧
      ¬ Misses s node name n) := by
    rintro ⟨hfinds, hmisses⟩
    rcases hcond with ⟨i, hi, -⟩ | hm
    · exact hfinds i hi
    · exact hmisses hm
  obtain ⟨node', s', hok, hleft⟩ := exists_ok_of_wp (deleteDirectoryEntry_wp name h)
    fun _ _ hf => hreturns hf
  have hstray : ¬ (Passes (viewOf s) (inodeOfNode node) name n ∧ ¬ Misses s node name n) := by
    rintro ⟨hpasses, hmisses⟩
    exact hreturns ⟨fun i hi => hpasses.1 i hi.1 hi.2.1, hmisses⟩
  refine ⟨node', s', hok, fun hmiss => ?_, fun i hi hname => ?_⟩
  · rcases hleft with ⟨i, hfinds, -⟩ | ⟨-, hsame⟩ | ⟨hpasses, hmisses, -⟩
    · exact absurd hfinds.2.1 (hmiss i hfinds.1)
    · exact hsame
    · exact absurd ⟨hpasses, hmisses⟩ hstray
  · rcases hleft with ⟨j, hfinds, hview, hsize, hptr⟩ | ⟨hmisses, -⟩ | ⟨hpasses, hmisses, -⟩
    · have hji : j = i := h.names _ hfinds.1 _ hi (hfinds.2.1.trans hname.symm)
      subst hji
      have hlast : j / 32 = (n - 1) / 32 := by
        rcases hcond with ⟨k, hk, hlast⟩ | hmisses
        · rwa [h.names _ hk.1 _ hi (hk.2.1.trans hname.symm)] at hlast
        · exact absurd hname (hmisses.1.1 j hi)
      refine ⟨hsize, ?_⟩
      rw [hview, recordsFrom_moved h hi hlast hptr]
    · exact absurd hname (hmisses.1.1 i hi)
    · exact absurd ⟨hpasses, hmisses⟩ hstray

theorem twoBlockDisk_distinct :
    DistinctRecords (viewOf twoBlockDisk) (inodeOfNode (directoryNode 33)) 33 := by
  have hptr : (inodeOfNode (directoryNode 33)).ptr 0 = 40 := rfl
  refine ⟨twoBlockDisk_directory, fun j k hj hk he => ?_, fun j k hj hk => ?_,
    fun i hi j hj he => ?_⟩
  · rw [twoBlockDisk_dataBlock hj, twoBlockDisk_dataBlock hk] at he
    omega
  · rw [show j / 1024 = 0 by omega, hptr, twoBlockDisk_dataBlock hk]
    omega
  · simp only [twoBlockDisk_recordAt hi, twoBlockDisk_recordAt hj, List.cons.injEq, and_true] at he
    have := congrArg UInt8.toNat he
    rw [UInt8.toNat_ofNat', UInt8.toNat_ofNat'] at this
    omega

/-- Of 33 records in two data blocks the last one is removed, and the other 32 are left. -/
theorem deletes_record_last : DeletesRecord twoBlockDisk (directoryNode 33) [33] 33 := by
  refine (deletes_record_iff twoBlockDisk_distinct).mpr (Or.inl ⟨32, ⟨by omega, ?_, Or.inl (by decide),
    fun i hi => ?_⟩, rfl⟩)
  · rw [twoBlockDisk_recordAt (by omega)]
    rfl
  · rw [twoBlockDisk_recordAt hi, List.length_singleton]
    omega

/-- Deleting the first of 33 records loses the 33rd, which lies in another data block. SRCLINE:
directory.c:75 -/
theorem deleting_loses_last :
    DistinctRecords (viewOf twoBlockDisk) (inodeOfNode (directoryNode 33)) 33 ∧
      ¬ DeletesRecord twoBlockDisk (directoryNode 33) [1] 33 := by
  refine ⟨twoBlockDisk_distinct, fun h => ?_⟩
  rcases h.cond twoBlockDisk_distinct with ⟨i, ⟨hi, hfirst, -⟩, hlast⟩ | ⟨hmiss, -⟩
  · rw [show i = 32 by omega, twoBlockDisk_recordAt (by omega)] at hfirst
    exact absurd hfirst (by decide)
  · exact hmiss.1 0 (by omega) (twoBlockDisk_recordAt (by omega))

end Deletes

end LinuseFs.Analysis
