import LinuseFs.Analysis.DirectoryScan

/-!
# Directories of any size

A directory of `n` records has them in consecutive data blocks of 32, which its pointer blocks
list 1024 at a time.  Nothing is assumed of the rest of the disk.  Where the three loops of
`iterate_pointers_blocks` stay inside, they compute `scan` on the records; they do so unless the
last data block is full, a name is too long for a `t_dir_entry`, or a pointer follows the last one.
-/

set_option autoImplicit false

namespace LinuseFs.Analysis

open LinuseFs.Computation LinuseFs.Model LinuseFs.Interface

/-- The `i`-th record of a directory; its name field has 124 bytes. SRCLINE: directory.c:41-53 -/
def recordAt (v : View) (nd : Inode) (i : ℕ) : Record :=
  ((cstr (v.data (v.dataBlock nd (i / 32))) (i % 32 * 128 + 4) 124).getD [],
    leNat (v.data (v.dataBlock nd (i / 32))) (i % 32 * 128) 4)

/-- The records from the `lo`-th on, up to the `hi`-th. -/
def recordsFrom (v : View) (nd : Inode) (lo hi : ℕ) : List Record :=
  (List.range' lo (hi - lo)).map (recordAt v nd)

/-- A node whose size is that of `n` records, with a data block for each 32 of them. -/
structure RecordBlocks (v : View) (nd : Inode) (n : ℕ) : Prop where
  size : nd.fileSize = 128 * n
  room : n ≤ 1000 * 1024 * 32
  ptr : ∀ k, 32 * k < n → 34 ≤ nd.ptr (k / 1024) ∧ nd.ptr (k / 1024) < 3000
  block : ∀ k, 32 * k < n → 34 ≤ v.dataBlock nd k ∧ v.dataBlock nd k < 3000

/-- A directory with `n` records, none of them nameless. -/
structure Directory (v : View) (nd : Inode) (n : ℕ) : Prop extends RecordBlocks v nd n where
  state : nd.state = 2
  name : ∀ i < n, ∃ name, name ≠ [] ∧
    cstr (v.data (v.dataBlock nd (i / 32))) (i % 32 * 128 + 4) 124 = some name

/-- The names fit the `name` of a `t_dir_entry`. SRCLINE: directory.h:13-17 -/
def ShortNames (v : View) (nd : Inode) (n : ℕ) : Prop := ∀ i < n, (recordAt v nd i).1.length ≤ 70

/-! ## The function that the loops compute -/

section Scan

variable {τ : Type} (process : ProcessEntry τ)

/-- The records handed to the function in order, until it returns a valid entry: which one that
was, counted from `i`, and what it returned. -/
def scan : List Record → ℕ → τ → Option (ℕ × DirEntry) × τ
  | [], _, acc => (none, acc)
  | r :: rs, i, acc =>
    if isValidEntry (process (entryOf r) acc).1 then
      (some (i, (process (entryOf r) acc).1), (process (entryOf r) acc).2)
    else scan rs (i + 1) (process (entryOf r) acc).2

variable {process}

theorem scan_append (rs rs' : List Record) (i : ℕ) (acc : τ) :
    scan process (rs ++ rs') i acc =
      if (scan process rs i acc).1 = none then
        scan process rs' (i + rs.length) (scan process rs i acc).2
      else scan process rs i acc := by
  induction rs generalizing i acc with
  | nil => rfl
  | cons r rs ih =>
    rw [List.cons_append, scan, scan, List.length_cons]
    split
    · rfl
    · rw [ih, show i + 1 + rs.length = i + (rs.length + 1) by omega]

/-- INTERNAL: a function that never returns a valid entry gets all records. -/
theorem scan_all (hprocess : ∀ e acc, isValidEntry (process e acc).1 = false) (rs : List Record)
    (i : ℕ) (acc : τ) : scan process rs i acc =
      (none, rs.foldl (fun acc r => (process (entryOf r) acc).2) acc) := by
  induction rs generalizing i acc with
  | nil => rfl
  | cons r rs ih =>
    rw [scan, if_neg (by simp [hprocess]), ih, List.foldl_cons]

/-- INTERNAL: the number of the record that stopped the scan. -/
theorem scan_index {rs : List Record} {i g : ℕ} {acc : τ} {e : DirEntry}
    (h : (scan process rs i acc).1 = some (g, e)) : i ≤ g ∧ g < i + rs.length := by
  induction rs generalizing i acc with
  | nil => cases h
  | cons r rs ih =>
    rw [scan] at h
    rw [List.length_cons]
    split at h
    · cases h
      omega
    · have := ih h
      omega

/-- A loop returned what the scan says: no valid entry, or the one of the function at a place
where the record lies. -/
def Meets (place : ℕ → DataPosition → Prop) (out : Option (ℕ × DirEntry) × τ)
    (r : DirEntry × τ) : Prop :=
  r.2 = out.2 ∧ (out.1 = none → r.1.name = []) ∧
    ∀ g e, out.1 = some (g, e) → r.1.name = e.name ∧ r.1.nodeNum = e.nodeNum ∧ e.name ≠ [] ∧
      place g r.1.data

/-- The offset in the data block of the `g`-th record. -/
def AtByte (g : ℕ) (data : DataPosition) : Prop := data.byteNum = 128 * (g % 32)

end Scan

/-! ## The records -/

section Records

variable {v : View} {nd : Inode} {n lo mid hi : ℕ}

/-- INTERNAL: a record is its 128 bytes. -/
theorem recordAt_congr {w : View} {nd' : Inode} {i j : ℕ}
    (h : ∀ t < 128, w.data (w.dataBlock nd' (j / 32)) (j % 32 * 128 + t) =
      v.data (v.dataBlock nd (i / 32)) (i % 32 * 128 + t)) : recordAt w nd' j = recordAt v nd i := by
  have hname : cstr (w.data (w.dataBlock nd' (j / 32))) (j % 32 * 128 + 4) 124 =
      cstr (v.data (v.dataBlock nd (i / 32))) (i % 32 * 128 + 4) 124 :=
    cstr_congr fun t ht => by rw [Nat.add_assoc, Nat.add_assoc, h (4 + t) (by omega)]
  exact Prod.ext (congrArg (fun o => o.getD []) hname) (leNat_congr fun t ht => h t (by omega))

theorem recordsFrom_append (h : lo ≤ mid) (h' : mid ≤ hi) :
    recordsFrom v nd lo hi = recordsFrom v nd lo mid ++ recordsFrom v nd mid hi := by
  unfold recordsFrom
  rw [← List.map_append]
  congr 1
  have := @List.range'_append lo (mid - lo) (hi - mid) 1
  rw [show lo + 1 * (mid - lo) = mid by omega,
    show mid - lo + (hi - mid) = hi - lo by omega] at this
  exact this.symm

@[simp] theorem length_recordsFrom : (recordsFrom v nd lo hi).length = hi - lo := by
  simp [recordsFrom]

theorem getElem?_recordsFrom {i : ℕ} (h : i < hi) :
    (recordsFrom v nd 0 hi)[i]? = some (recordAt v nd i) := by
  rw [recordsFrom, List.getElem?_map, List.getElem?_range' (by omega), Option.map_some,
    Nat.zero_add, Nat.one_mul]

theorem recordsFrom_self : recordsFrom v nd lo lo = [] := by simp [recordsFrom]

theorem recordsFrom_cons (h : lo < hi) :
    recordsFrom v nd lo hi = recordAt v nd lo :: recordsFrom v nd (lo + 1) hi := by
  unfold recordsFrom
  rw [show hi - lo = hi - (lo + 1) + 1 by omega, List.range'_succ, List.map_cons]

/-- INTERNAL: a name that fits is read whole. -/
theorem record_eq (hd : Directory v nd n) {i : ℕ} (hi : i < n)
    (hshort : (recordAt v nd i).1.length ≤ 70) :
    (∃ name, cstr (v.data (v.dataBlock nd (i / 32))) (i % 32 * 128 + 4) 71 = some name) ∧
      v.record (v.dataBlock nd (i / 32)) (i % 32) = recordAt v nd i := by
  obtain ⟨name, -, hname⟩ := hd.name i hi
  simp only [recordAt, hname, Option.getD_some] at hshort
  have hcut : cstr (v.data (v.dataBlock nd (i / 32))) (i % 32 * 128 + 4) 71 = some name := by
    obtain ⟨-, h2, h3, h4⟩ := cstr_eq_some_iff.mp hname
    exact cstr_eq_some_iff.mpr ⟨by omega, h2, h3, h4⟩
  refine ⟨⟨name, hcut⟩, ?_⟩
  simp only [View.record, recordAt, hname, hcut]

/-- INTERNAL: **a directory has no more records than the blocks of the disk hold.** -/
theorem RecordBlocks.records_le (h : RecordBlocks v nd n)
    (hinj : ∀ j k, 32 * j < n → 32 * k < n → v.dataBlock nd j = v.dataBlock nd k → j = k) :
    n ≤ 2966 * 32 := by
  have hle := le_of_distinct_blocks (f := v.dataBlock nd) (m := (n + 31) / 32)
    (fun k hk => h.block k (by omega)) fun j k hj hk he => hinj j k (by omega) (by omega) he
  omega

end Records

/-! ## The loops -/

section Loops

variable {τ : Type} {process : ProcessEntry τ} {v : View} {nd : Inode} {n : ℕ}
  {E : Fault → View → Prop}

/-- How many records the data block `k` has. -/
def recordsIn (n k : ℕ) : ℕ := if k = n / 32 then n % 32 else 32

/-- How many data blocks the pointer block `i` has, when the last one is not full. -/
def blocksIn (n i : ℕ) : ℕ := if i = n / 32768 then n / 32 % 1024 + 1 else 1024

/-- The end position that the loops are given. SRCLINE: directory.c:113-124 -/
def endPosition (n : ℕ) : DataPosition := ⟨n / 32768, n / 32 % 1024, 128 * (n % 32)⟩

theorem getNextWritePosition_eq {node : Node} (hsize : node.fileSize = 128 * n) :
    getNextWritePosition node = endPosition n := by
  simp only [getNextWritePosition, endPosition, blockSize, hsize, DataPosition.mk.injEq]
  omega

/-- INTERNAL: the loop over a data block stops behind its last record, if the last data block is
not full. SRCLINE: directory.c:279-289 -/
theorem nextByte_block (hn : n % 32 ≠ 0) (k i : ℕ) (hi : i ≤ recordsIn n k) :
    nextByte (i * 128) (u32 (((endPosition n).byteNum : ℤ) - 1)) blockSize (decide (k = n / 32)) =
      decide (i < recordsIn n k) := by
  by_cases hk : k = n / 32
  · simp only [recordsIn, hk, if_true, decide_true] at hi ⊢
    exact nextByte_last (by omega) (by omega)
  · have hlimit : u32 (((endPosition n).byteNum : ℤ) - 1) = 128 * (n % 32) - 1 := by
      simp only [endPosition]
      rw [show ((128 * (n % 32) : ℕ) : ℤ) - 1 = ((128 * (n % 32) - 1 : ℕ) : ℤ) by omega,
        u32_natCast_of_lt (by omega)]
    simp only [recordsIn, hk, if_false, decide_false, nextByte, hlimit, blockSize, Bool.not_false,
      Bool.and_true, ← Bool.decide_or, decide_eq_decide] at hi ⊢
    omega

/-- INTERNAL: the loop over a pointer block stops behind its last slot. SRCLINE:
directory.c:262-277 -/
theorem nextByte_blocks (n i j : ℕ) (hj : j ≤ blocksIn n i) :
    nextByte j (endPosition n).blockNum 1024 (i == (endPosition n).pointerBlockNum) =
      decide (j < blocksIn n i) := by
  have hle : n / 32 % 1024 < 1024 := Nat.mod_lt _ (by decide)
  show nextByte j (n / 32 % 1024) 1024 (i == n / 32768) = _
  rw [Bool.eq_iff_iff]
  simp only [nextByte, Bool.or_eq_true, Bool.and_eq_true, Bool.not_eq_true',
    beq_eq_false_iff_ne, decide_eq_true_eq]
  by_cases hi : i = n / 32768
  · rw [blocksIn, if_pos hi] at hj ⊢
    omega
  · rw [blocksIn, if_neg hi] at hj ⊢
    omega

/-- INTERNAL: a valid entry ends the loop over a data block. SRCLINE: directory.c:283-287 -/
theorem vwp_iterateBytes_valid {Q : DirEntry × τ → View → Prop} {b count k : ℕ} {isLast : Bool}
    {position : DataPosition} {e : DirEntry} {acc : τ} (he : e.name ≠ []) (hcount : 0 < count)
    (hQ : Q ({ e with data := { e.data with byteNum := k - 128 } }, acc) v) :
    vwp (iterateBytesInBlock process b isLast position count k e acc) Q E v := by
  obtain ⟨count, rfl⟩ := Nat.exists_eq_add_of_lt hcount
  rw [Nat.zero_add, iterateBytesInBlock, if_neg (by simp [isValidEntry, he])]
  exact vwp_pure hQ

variable (process) in
/-- INTERNAL: **the loop over a data block** scans its first `c` records, and goes on behind them
when the function did not return a valid entry; by induction on those that are left. SRCLINE:
directory.c:279-289 -/
theorem vwp_bytes {Q : DirEntry × τ → View → Prop} (hd : Directory v nd n) {k c : ℕ}
    (hc : c ≤ 32) (hn : 32 * k + c ≤ n) (hshort : ShortNames v nd (32 * k + c)) {isLast : Bool}
    {position : DataPosition}
    (hnext : ∀ i < c, nextByte (i * 128) (u32 ((position.byteNum : ℤ) - 1)) blockSize isLast = true)
    (left rest i : ℕ) (hleft : i + left = c) (hrest : 0 < rest) {result : DirEntry} (acc : τ)
    (hresult : result.name = [])
    (hgo : ∀ e, e.name = [] →
      (scan process (recordsFrom v nd (32 * k + i) (32 * k + c)) (32 * k + i) acc).1 = none →
      vwp (iterateBytesInBlock process (v.dataBlock nd k) isLast position rest (c * 128) e
        (scan process (recordsFrom v nd (32 * k + i) (32 * k + c)) (32 * k + i) acc).2) Q E v)
    (hstop : ∀ r, Meets AtByte
      (scan process (recordsFrom v nd (32 * k + i) (32 * k + c)) (32 * k + i) acc) r →
      (scan process (recordsFrom v nd (32 * k + i) (32 * k + c)) (32 * k + i) acc).1 ≠ none →
      Q r v) :
    vwp (iterateBytesInBlock process (v.dataBlock nd k) isLast position (left + rest) (i * 128)
      result acc) Q E v := by
  induction left generalizing i result acc with
  | zero =>
    rw [show i = c by omega, recordsFrom_self, scan] at hgo
    rw [Nat.zero_add, show i = c by omega]
    exact hgo result hresult rfl
  | succ left ih =>
    obtain ⟨hb, hb'⟩ := hd.block k (by omega)
    obtain ⟨⟨name, hname⟩, hrecord⟩ := record_eq hd (i := 32 * k + i) (by omega)
      (hshort _ (by omega))
    rw [show (32 * k + i) / 32 = k by omega, show (32 * k + i) % 32 = i by omega] at hname hrecord
    rw [show left + 1 + rest = left + rest + 1 by omega, iterateBytesInBlock, hnext i (by omega),
      if_pos (by simp [isValidEntry, hresult])]
    refine vwp_bind (vwp_readDirectoryEntry hb hb' (by omega) hname ?_)
    rw [hrecord]
    rw [recordsFrom_cons (by omega), scan] at hgo hstop
    by_cases hvalid : isValidEntry (process (entryOf (recordAt v nd (32 * k + i))) acc).1 = true
    · simp only [if_pos hvalid] at hstop
      refine vwp_iterateBytes_valid (by simpa [isValidEntry] using hvalid) (by omega)
        (hstop _ ⟨rfl, ?_, ?_⟩ (by simp))
      · intro hnone
        cases hnone
      rintro g e he
      cases he
      refine ⟨rfl, rfl, by simpa [isValidEntry] using hvalid, ?_⟩
      show i * 128 + 128 - 128 = 128 * ((32 * k + i) % 32)
      omega
    · simp only [if_neg hvalid] at hgo hstop
      rw [show i * 128 + 128 = (i + 1) * 128 by omega]
      exact ih (i + 1) (by omega) _ (by simpa [isValidEntry] using hvalid) hgo hstop

theorem recordsIn_le {k : ℕ} (hk : 32 * k < n) :
    recordsIn n k ≤ 32 ∧ 32 * k + recordsIn n k ≤ n := by
  unfold recordsIn
  split <;> omega

/-- INTERNAL: **the loop over a data block** scans its records. SRCLINE: directory.c:279-289 -/
theorem vwp_block {Q : DirEntry × τ → View → Prop} (hd : Directory v nd n) (hn : n % 32 ≠ 0) {k : ℕ}
    (hk : 32 * k < n) (hshort : ShortNames v nd (32 * k + recordsIn n k)) (acc : τ)
    (hQ : ∀ r, Meets AtByte
      (scan process (recordsFrom v nd (32 * k) (32 * k + recordsIn n k)) (32 * k) acc) r → Q r v) :
    vwp (iterateBytesInBlock process (v.dataBlock nd k) (decide (k = n / 32)) (endPosition n) 34 0
      invalidEntry acc) Q E v := by
  have hc := recordsIn_le hk
  have hnext : ∀ i < recordsIn n k, nextByte (i * 128) (u32 (((endPosition n).byteNum : ℤ) - 1))
      blockSize (decide (k = n / 32)) = true := by
    intro i hi
    rw [nextByte_block hn k i (by omega), decide_eq_true hi]
  have h := vwp_bytes process (E := E) (Q := Q) hd hc.1 hc.2 hshort hnext (recordsIn n k)
    (34 - recordsIn n k) 0 (by omega) (by omega) acc (show invalidEntry.name = [] from rfl)
  rw [show recordsIn n k + (34 - recordsIn n k) = 34 by omega, Nat.zero_mul, Nat.add_zero] at h
  refine h (fun e he hnone => ?_) fun r hr _ => hQ r hr
  obtain ⟨rest, hrest⟩ : ∃ rest, 34 - recordsIn n k = rest + 1 := ⟨33 - recordsIn n k, by omega⟩
  rw [hrest, iterateBytesInBlock, nextByte_block hn k _ le_rfl, if_neg (by simp)]
  refine vwp_pure (hQ _ ⟨rfl, fun _ => he, ?_⟩)
  rintro g e' hsome
  rw [hnone] at hsome
  cases hsome

variable (v nd) in
/-- The data block and the offset in it of the `g`-th record. -/
def AtPlace (g : ℕ) (data : DataPosition) : Prop :=
  data.blockNum = v.dataBlock nd (g / 32) ∧ data.byteNum = 128 * (g % 32)

/-- INTERNAL: a valid entry ends the loop over a pointer block. SRCLINE: directory.c:267-275 -/
theorem vwp_iterateBlocks_valid {Q : DirEntry × τ → View → Prop} {p count j nroBloque : ℕ}
    {isLast : Bool} {position : DataPosition} {e : DirEntry} {acc : τ} (he : e.name ≠ [])
    (hcount : 0 < count)
    (hQ : Q ({ e with data := { e.data with blockNum := nroBloque } }, acc) v) :
    vwp (iterateBlocks process p isLast position count j nroBloque e acc) Q E v := by
  obtain ⟨count, rfl⟩ := Nat.exists_eq_add_of_lt hcount
  rw [Nat.zero_add, iterateBlocks, if_neg (by simp [isValidEntry, he])]
  exact vwp_pure hQ

/-- INTERNAL: the scan of a data block comes first. -/
theorem scan_block {k hi : ℕ} (acc : τ) (hn : 32 * k < hi) (hhi : hi ≤ n)
    (hend : hi = n ∨ 32 * (k + 1) ≤ hi) :
    scan process (recordsFrom v nd (32 * k) hi) (32 * k) acc =
      if (scan process (recordsFrom v nd (32 * k) (32 * k + recordsIn n k)) (32 * k) acc).1 = none then
        scan process (recordsFrom v nd (32 * (k + 1)) hi) (32 * (k + 1))
          (scan process (recordsFrom v nd (32 * k) (32 * k + recordsIn n k)) (32 * k) acc).2
      else scan process (recordsFrom v nd (32 * k) (32 * k + recordsIn n k)) (32 * k) acc := by
  by_cases hk : k = n / 32
  · have hnil : recordsFrom v nd (32 * (k + 1)) hi = [] := by
      rw [← List.length_eq_zero_iff, length_recordsFrom]
      omega
    have hall : 32 * k + recordsIn n k = hi := by
      rw [recordsIn, if_pos hk]
      omega
    rw [hall, hnil, scan]
    split
    next hnone => exact Prod.ext hnone rfl
    next => rfl
  · have hfull : recordsIn n k = 32 := if_neg hk
    rw [hfull, recordsFrom_append (show 32 * k ≤ 32 * k + 32 by omega) (by omega),
      scan_append, length_recordsFrom, show 32 * k + (32 * k + 32 - 32 * k) = 32 * (k + 1) by omega,
      show 32 * k + 32 = 32 * (k + 1) by omega]

theorem blocksIn_le {i : ℕ} (hn : n % 32 ≠ 0) (hi : i ≤ n / 32768) :
    blocksIn n i ≤ 1024 ∧ ∀ j < blocksIn n i, 32 * (1024 * i + j) < n := by
  by_cases hlast : i = n / 32768
  · rw [blocksIn, if_pos hlast]
    exact ⟨by omega, fun j hj => by omega⟩
  · rw [blocksIn, if_neg hlast]
    exact ⟨by omega, fun j hj => by omega⟩

variable (process) in
/-- INTERNAL: **the loop over a pointer block** scans the records of its first `J` data blocks, and
goes on behind them when the function did not return a valid entry; by induction on the data blocks
that are left. SRCLINE: directory.c:262-277 -/
theorem vwp_blocks {Q : DirEntry × τ → View → Prop} (hd : Directory v nd n) {i J : ℕ}
    (hn : J ≠ 0 → n % 32 ≠ 0) (hi : i ≤ n / 32768) (hJ : J ≤ blocksIn n i)
    (hshort : ShortNames v nd (min n (32 * (1024 * i + J)))) (left rest j : ℕ) (hleft : j + left = J)
    (hrest : 0 < rest) (nroBloque : ℕ) {result : DirEntry} (acc : τ) (hresult : result.name = [])
    (hgo : ∀ e number, e.name = [] →
      (scan process (recordsFrom v nd (32 * (1024 * i + j)) (min n (32 * (1024 * i + J))))
        (32 * (1024 * i + j)) acc).1 = none →
      vwp (iterateBlocks process (nd.ptr i) (i == (endPosition n).pointerBlockNum) (endPosition n)
        rest J number e (scan process (recordsFrom v nd (32 * (1024 * i + j))
          (min n (32 * (1024 * i + J)))) (32 * (1024 * i + j)) acc).2) Q E v)
    (hstop : ∀ r, Meets (AtPlace v nd)
      (scan process (recordsFrom v nd (32 * (1024 * i + j)) (min n (32 * (1024 * i + J))))
        (32 * (1024 * i + j)) acc) r →
      (scan process (recordsFrom v nd (32 * (1024 * i + j)) (min n (32 * (1024 * i + J))))
        (32 * (1024 * i + j)) acc).1 ≠ none → Q r v) :
    vwp (iterateBlocks process (nd.ptr i) (i == (endPosition n).pointerBlockNum) (endPosition n)
      (left + rest) j nroBloque result acc) Q E v := by
  induction left generalizing j nroBloque result acc with
  | zero =>
    have hnil : recordsFrom v nd (32 * (1024 * i + j)) (min n (32 * (1024 * i + J))) = [] := by
      rw [← List.length_eq_zero_iff, length_recordsFrom]
      omega
    rw [hnil, scan] at hgo
    rw [Nat.zero_add, show j = J by omega]
    exact hgo result nroBloque hresult rfl
  | succ left ih =>
    replace hn := hn (by omega)
    have hk := (blocksIn_le hn hi).2 j (by omega)
    have hin := (blocksIn_le hn hi).1
    have hptr := hd.ptr _ hk
    have hblock := hd.block _ hk
    have hdiv : (1024 * i + j) / 1024 = i := by omega
    have hslot : leNat (v.data (nd.ptr i)) (j * 4) 4 = v.dataBlock nd (1024 * i + j) := by
      simp only [View.dataBlock, View.slot, hdiv, show (1024 * i + j) % 1024 = j by omega]
    rw [hdiv] at hptr
    rw [show left + 1 + rest = left + rest + 1 by omega, iterateBlocks,
      nextByte_blocks n i j (by omega), decide_eq_true (show j < blocksIn n i by omega),
      if_pos (by simp [isValidEntry, hresult])]
    refine vwp_bind (vwp_bytesToInt32 hptr.1 hptr.2 (by omega) ?_)
    have hlast : (j == (endPosition n).blockNum && i == (endPosition n).pointerBlockNum) =
        decide (1024 * i + j = n / 32) := by
      show (j == n / 32 % 1024 && i == n / 32768) = _
      rw [Bool.eq_iff_iff]
      simp only [Bool.and_eq_true, beq_iff_eq, decide_eq_true_eq]
      omega
    have hle := recordsIn_le hk
    dsimp only
    rw [hslot, readBlock_of_lt hblock.2, hlast]
    refine vwp_bind (vwp_block hd hn hk (fun r hr => hshort r (by omega)) acc fun r hr => ?_)
    rw [scan_block (n := n) acc (by omega) (by omega) (by omega)] at hgo hstop
    generalize hout : scan process (recordsFrom v nd (32 * (1024 * i + j))
      (32 * (1024 * i + j) + recordsIn n (1024 * i + j))) (32 * (1024 * i + j)) acc = out
      at hr hgo hstop
    obtain ⟨e, acc'⟩ := r
    obtain ⟨hacc, hnone, hsome⟩ := hr
    dsimp only at hacc hnone hsome
    cases hcase : out.1 with
    | none =>
      simp only [if_pos hcase] at hgo hstop
      dsimp only
      rw [hacc]
      exact ih (j + 1) (by omega) _ out.2 (hnone hcase) hgo hstop
    | some x =>
      obtain ⟨g, e'⟩ := x
      simp only [hcase, if_neg (Option.some_ne_none (g, e'))] at hstop
      obtain ⟨hname, hnum, hne, hbyte⟩ := hsome g e' hcase
      refine vwp_iterateBlocks_valid (by rw [hname]; exact hne) (by omega)
        (hstop _ ⟨hacc, ?_, ?_⟩ (by simp))
      · intro hnone
        rw [hcase] at hnone
        cases hnone
      rintro g' e'' he
      rw [hcase] at he
      cases he
      have hg := scan_index (hout ▸ hcase)
      rw [length_recordsFrom] at hg
      exact ⟨hname, hnum, hne, by rw [show g / 32 = 1024 * i + j by omega], hbyte⟩

/-- INTERNAL: **the loop over a pointer block** scans its records. SRCLINE: directory.c:262-277 -/
theorem vwp_pointerBlock {Q : DirEntry × τ → View → Prop} (hd : Directory v nd n)
    (hn : n % 32 ≠ 0) {i : ℕ} (hi : i ≤ n / 32768)
    (hshort : ShortNames v nd (min n (32768 * (i + 1)))) (acc : τ)
    (hQ : ∀ r, Meets (AtPlace v nd) (scan process
      (recordsFrom v nd (32768 * i) (min n (32768 * (i + 1)))) (32768 * i) acc) r → Q r v) :
    vwp (iterateBlocks process (nd.ptr i) (i == (endPosition n).pointerBlockNum) (endPosition n)
      1025 0 0 invalidEntry acc) Q E v := by
  have hin := (blocksIn_le hn hi).1
  have hend : min n (32 * (1024 * i + blocksIn n i)) = min n (32768 * (i + 1)) := by
    by_cases hlast : i = n / 32768
    · rw [blocksIn, if_pos hlast]
      omega
    · rw [blocksIn, if_neg hlast]
      omega
  have h := vwp_blocks process (E := E) (Q := Q) hd (fun _ => hn) hi
    (le_refl (blocksIn n i)) (by rw [hend]; exact hshort) (blocksIn n i) (1025 - blocksIn n i) 0
    (by omega) (by omega) 0 acc (show invalidEntry.name = [] from rfl)
  rw [hend, show blocksIn n i + (1025 - blocksIn n i) = 1025 by omega, Nat.add_zero,
    show 32 * (1024 * i) = 32768 * i by omega] at h
  refine h (fun e number he hnone => ?_) fun r hr _ => hQ r hr
  obtain ⟨rest, hrest⟩ : ∃ rest, 1025 - blocksIn n i = rest + 1 := ⟨1024 - blocksIn n i, by omega⟩
  rw [hrest, iterateBlocks, nextByte_blocks n i _ le_rfl, if_neg (by simp)]
  refine vwp_pure (hQ _ ⟨rfl, fun _ => he, ?_⟩)
  rintro g e' hsome
  rw [hnone] at hsome
  cases hsome

/-- INTERNAL: the scan of a pointer block comes first. -/
theorem scan_pointer {i I : ℕ} (acc : τ) (hi : i < I) :
    scan process (recordsFrom v nd (32768 * i) (min n (32768 * I))) (32768 * i) acc =
      if (scan process (recordsFrom v nd (32768 * i) (min n (32768 * (i + 1)))) (32768 * i) acc).1 =
          none then
        scan process (recordsFrom v nd (32768 * (i + 1)) (min n (32768 * I))) (32768 * (i + 1))
          (scan process (recordsFrom v nd (32768 * i) (min n (32768 * (i + 1)))) (32768 * i) acc).2
      else scan process (recordsFrom v nd (32768 * i) (min n (32768 * (i + 1)))) (32768 * i) acc := by
  by_cases hlast : n ≤ 32768 * (i + 1)
  · have hnil : recordsFrom v nd (32768 * (i + 1)) (min n (32768 * I)) = [] := by
      rw [← List.length_eq_zero_iff, length_recordsFrom]
      omega
    rw [min_eq_left (show n ≤ 32768 * I by omega), min_eq_left hlast] at *
    rw [hnil, scan]
    split
    next hnone => exact Prod.ext hnone rfl
    next => rfl
  · rw [min_eq_right (show 32768 * (i + 1) ≤ n by omega),
      recordsFrom_append (show 32768 * i ≤ 32768 * (i + 1) by omega) (by omega),
      scan_append, length_recordsFrom,
      show 32768 * i + (32768 * (i + 1) - 32768 * i) = 32768 * (i + 1) by omega]

/-- INTERNAL: a valid entry ends the loop over the pointers. SRCLINE: directory.c:223 -/
theorem vwp_iteratePointers_valid {Q : DirEntry × τ → View → Prop} {node : Node}
    {position : DataPosition} {count i : ℕ} {e : DirEntry} {acc : τ} (he : e.name ≠ [])
    (hcount : 0 < count) (hQ : Q (e, acc) v) :
    vwp (iteratePointers process node position count i e acc) Q E v := by
  obtain ⟨count, rfl⟩ := Nat.exists_eq_add_of_lt hcount
  rw [Nat.zero_add, iteratePointers, if_pos (by simp [isValidEntry, he])]
  exact vwp_pure hQ

variable (process) in
/-- INTERNAL: **the loop over the pointers** scans the records of its first `I` pointer blocks, and
goes on behind them when the function did not return a valid entry; by induction on the pointer
blocks that are left. SRCLINE: directory.c:218-237 -/
theorem vwp_pointers {Q : DirEntry × τ → View → Prop} {node : Node}
    (hd : Directory v (inodeOfNode node) n) {I : ℕ} (hn : I ≠ 0 → n % 32 ≠ 0)
    (hI : I ≤ n / 32768 + 1) (hshort : ShortNames v (inodeOfNode node) (min n (32768 * I)))
    (left rest i : ℕ) (hleft : i + left = I) (hrest : 0 < rest)
    {result : DirEntry} (acc : τ) (hresult : result.name = [])
    (hgo : ∀ e, e.name = [] →
      (scan process (recordsFrom v (inodeOfNode node) (32768 * i) (min n (32768 * I)))
        (32768 * i) acc).1 = none →
      vwp (iteratePointers process node (endPosition n) rest I e
        (scan process (recordsFrom v (inodeOfNode node) (32768 * i) (min n (32768 * I)))
          (32768 * i) acc).2) Q E v)
    (hstop : ∀ r, Meets (AtPlace v (inodeOfNode node))
      (scan process (recordsFrom v (inodeOfNode node) (32768 * i) (min n (32768 * I)))
        (32768 * i) acc) r →
      (scan process (recordsFrom v (inodeOfNode node) (32768 * i) (min n (32768 * I)))
        (32768 * i) acc).1 ≠ none → Q r v) :
    vwp (iteratePointers process node (endPosition n) (left + rest) i result acc) Q E v := by
  induction left generalizing i result acc with
  | zero =>
    have hnil : recordsFrom v (inodeOfNode node) (32768 * i) (min n (32768 * I)) = [] := by
      rw [← List.length_eq_zero_iff, length_recordsFrom]
      omega
    rw [hnil, scan] at hgo
    rw [Nat.zero_add, show i = I by omega]
    exact hgo result hresult rfl
  | succ left ih =>
    replace hn := hn (by omega)
    have hroom := hd.room
    have hi : i ≤ n / 32768 := by omega
    have hptr := hd.ptr (1024 * i) (by omega)
    rw [show 1024 * i / 1024 = i by omega] at hptr
    have hstate : node.state = 2 := hd.state
    rw [show left + 1 + rest = left + rest + 1 by omega, iteratePointers,
      if_neg (by simp [isValidEntry, hresult])]
    refine vwp_bind (vwp_pointerAt (by omega) ?_)
    rw [if_pos ⟨by have : (inodeOfNode node).ptr i ≠ 0 := by omega
                   exact this, by rw [hstate]; decide⟩]
    have hblock : readBlock (node.indirectPointerBlock i) = (inodeOfNode node).ptr i :=
      readBlock_of_lt hptr.2
    dsimp only
    rw [hblock]
    refine vwp_bind (vwp_pointerBlock hd hn hi (fun r hr => hshort r (by omega)) acc
      fun r hr => ?_)
    rw [scan_pointer _ (by omega)] at hgo hstop
    generalize scan process (recordsFrom v (inodeOfNode node) (32768 * i)
      (min n (32768 * (i + 1)))) (32768 * i) acc = out at hr hgo hstop
    obtain ⟨e, acc'⟩ := r
    obtain ⟨hacc, hnone, hsome⟩ := id hr
    dsimp only at hacc hnone hsome
    cases hcase : out.1 with
    | none =>
      simp only [if_pos hcase] at hgo hstop
      rw [hacc]
      exact ih (i + 1) (by omega) out.2 (hnone hcase) hgo hstop
    | some x =>
      simp only [hcase, if_neg (Option.some_ne_none x)] at hstop
      obtain ⟨hname, -, hne, -⟩ := hsome x.1 x.2 hcase
      exact vwp_iteratePointers_valid (by rw [hname]; exact hne) (by omega)
        (hstop _ hr (by simp))

variable (process) in
/-- INTERNAL: **the loop over the pointers** scans the records, and goes on behind the last pointer
block when the function did not return a valid entry. SRCLINE: directory.c:218-237 -/
theorem vwp_allPointers {Q : DirEntry × τ → View → Prop} {node : Node}
    (hd : Directory v (inodeOfNode node) n) (hshort : ShortNames v (inodeOfNode node) n)
    (hn : n % 32 ≠ 0) (rest : ℕ) (hrest : 0 < rest) (acc : τ)
    (hgo : ∀ e, e.name = [] →
      (scan process (recordsFrom v (inodeOfNode node) 0 n) 0 acc).1 = none →
      vwp (iteratePointers process node (endPosition n) rest (n / 32768 + 1) e
        (scan process (recordsFrom v (inodeOfNode node) 0 n) 0 acc).2) Q E v)
    (hstop : ∀ r, Meets (AtPlace v (inodeOfNode node))
      (scan process (recordsFrom v (inodeOfNode node) 0 n) 0 acc) r →
      (scan process (recordsFrom v (inodeOfNode node) 0 n) 0 acc).1 ≠ none → Q r v) :
    vwp (iteratePointers process node (endPosition n) (n / 32768 + 1 + rest) 0 invalidEntry acc)
      Q E v := by
  have hend : min n (32768 * (n / 32768 + 1)) = n := by omega
  have h := vwp_pointers process (E := E) (Q := Q) (I := n / 32768 + 1) hd (fun _ => hn)
    le_rfl (by rw [hend]; exact hshort) (n / 32768 + 1) rest 0 (by omega) hrest
    acc (show invalidEntry.name = [] from rfl)
  rw [hend, Nat.mul_zero] at h
  exact h hgo hstop

/-- INTERNAL: a scan that nothing stopped, in two parts. -/
theorem scan_split {lo mid hi : ℕ} {acc : τ} (h : lo ≤ mid) (h' : mid ≤ hi)
    (hnone : (scan process (recordsFrom v nd lo hi) lo acc).1 = none) :
    (scan process (recordsFrom v nd lo mid) lo acc).1 = none ∧
      scan process (recordsFrom v nd mid hi) mid (scan process (recordsFrom v nd lo mid) lo acc).2 =
        scan process (recordsFrom v nd lo hi) lo acc := by
  rw [recordsFrom_append h h', scan_append, length_recordsFrom,
    show lo + (mid - lo) = mid by omega] at hnone ⊢
  by_cases hfirst : (scan process (recordsFrom v nd lo mid) lo acc).1 = none
  · rw [if_pos hfirst]
    exact ⟨hfirst, rfl⟩
  · rw [if_neg hfirst] at hnone
    exact absurd hnone hfirst

/-- INTERNAL: with a full last data block no data block has an end. SRCLINE: directory.c:283 -/
theorem nextByte_endless {k : ℕ} (hn : n % 32 = 0) (isLast : Bool) (hk : k < 2 ^ 32) :
    nextByte k (u32 (((endPosition n).byteNum : ℤ) - 1)) blockSize isLast = true := by
  have hlimit : u32 (((endPosition n).byteNum : ℤ) - 1) = 2 ^ 32 - 1 := by
    show u32 (((128 * (n % 32) : ℕ) : ℤ) - 1) = 2 ^ 32 - 1
    rw [hn]
    rfl
  rw [nextByte, hlimit, decide_eq_true (show k ≤ 2 ^ 32 - 1 by omega), Bool.true_or]

/-- INTERNAL: **an iteration comes to the record `c` of the data block `K`** when no record before
it stopped it; if the function returns a valid entry there, all three loops end. SRCLINE:
directory.c:218-289 -/
theorem vwp_reach {Q : DirEntry × τ → View → Prop} {node : Node}
    (hd : Directory v (inodeOfNode node) n) {K c : ℕ} (hn : K ≠ 0 → n % 32 ≠ 0) (hK : 32 * K < n)
    (hc : c < recordsIn n K ∨ c ≤ 32 ∧ n % 32 = 0)
    (hshort : ShortNames v (inodeOfNode node) (32 * K + c)) {acc acc' : τ}
    (hscan : scan process (recordsFrom v (inodeOfNode node) 0 (32 * K + c)) 0 acc = (none, acc'))
    (hgo : vwp (readDirectoryEntry (v.dataBlock (inodeOfNode node) K) (c * 128))
      (fun entry w => (process entry acc').1.name ≠ [] ∧
        Q ({ (process entry acc').1 with data := { (process entry acc').1.data with
          blockNum := v.dataBlock (inodeOfNode node) K, byteNum := c * 128 } },
          (process entry acc').2) w) E v) :
    vwp (iteratePointers process node (endPosition n) 1001 0 invalidEntry acc) Q E v := by
  have hroom := hd.room
  have hin := recordsIn_le hK
  have hend : 32 * K + c ≤ n := by omega
  have hptr := hd.ptr K hK
  have hblock := hd.block K hK
  have hstate : node.state = 2 := hd.state
  generalize hnd : inodeOfNode node = nd at hd hshort hscan hgo hptr hblock
  generalize hI : K / 1024 = I at hptr
  generalize hJ : K % 1024 = J
  have hIn : I ≤ n / 32768 := by omega
  have hJn : J ≤ blocksIn n I := by
    unfold blocksIn
    split <;> omega
  obtain ⟨hnone1, hscan1⟩ := scan_split (Nat.zero_le (32768 * I)) (by omega)
    (congrArg Prod.fst hscan)
  rw [hscan] at hscan1
  obtain ⟨hnone2, hscan2⟩ := scan_split (show 32768 * I ≤ 32 * K by omega) (by omega)
    (congrArg Prod.fst hscan1)
  rw [hscan1] at hscan2
  have hmin1 : min n (32768 * I) = 32768 * I := by omega
  have hmin2 : min n (32 * (1024 * I + J)) = 32 * K := by omega
  have hpointer : node.indirectPointerBlock I = nd.ptr I := congrArg (fun nd => nd.ptr I) hnd
  have hslot : leNat (v.data (nd.ptr I)) (J * 4) 4 = v.dataBlock nd K := by
    simp only [View.dataBlock, View.slot, hI, hJ]
  have hlast : (J == (endPosition n).blockNum && I == (endPosition n).pointerBlockNum) =
      decide (K = n / 32) := by
    show (J == n / 32 % 1024 && I == n / 32768) = _
    rw [Bool.eq_iff_iff]
    simp only [Bool.and_eq_true, beq_iff_eq, decide_eq_true_eq]
    omega
  have hnext : ∀ i ≤ c, nextByte (i * 128) (u32 (((endPosition n).byteNum : ℤ) - 1)) blockSize
      (decide (K = n / 32)) = true := by
    intro i hi
    rcases hc with hc | ⟨hc, hfull⟩
    · by_cases hfull : n % 32 = 0
      · exact nextByte_endless hfull _ (by omega)
      · rw [nextByte_block hfull K i (by omega), decide_eq_true (by omega)]
    · exact nextByte_endless hfull _ (by omega)
  -- over the pointer blocks before
  have hloop := vwp_pointers process (E := E) (Q := Q) (I := I)
    (show Directory v (inodeOfNode node) n by rw [hnd]; exact hd) (fun h => hn (by omega)) (by omega)
    (by rw [hnd]; exact fun r hr => hshort r (by omega)) I (1001 - I) 0 (by omega) (by omega)
    acc (show invalidEntry.name = [] from rfl)
  rw [hnd, hmin1, Nat.mul_zero, show I + (1001 - I) = 1001 by omega] at hloop
  refine hloop (fun e he _ => ?_) fun r _ hsome => absurd hnone1 hsome
  obtain ⟨rest, hrest⟩ : ∃ rest, 1001 - I = rest + 2 := ⟨999 - I, by omega⟩
  rw [hrest, iteratePointers, if_neg (by simp [isValidEntry, he])]
  refine vwp_bind (vwp_pointerAt (by omega) ?_)
  rw [if_pos ⟨by rw [hpointer]; omega, by rw [hstate]; decide⟩, hpointer]
  dsimp only
  rw [readBlock_of_lt hptr.2]
  apply vwp_bind
  -- over the data blocks before in its pointer block
  have hloop := vwp_blocks process (E := E)
    (Q := fun r w => vwp (iteratePointers process node (endPosition n) (rest + 1) (I + 1) r.1 r.2)
      Q E w) hd (i := I) (J := J) (fun h => hn (by omega)) hIn hJn
    (fun r hr => hshort r (by omega)) J (1025 - J) 0 (by omega) (by omega) 0
    (scan process (recordsFrom v nd 0 (32768 * I)) 0 acc).2 (show invalidEntry.name = [] from rfl)
  rw [hmin2, Nat.add_zero, show 32 * (1024 * I) = 32768 * I by omega,
    show J + (1025 - J) = 1025 by omega] at hloop
  refine hloop (fun e number he _ => ?_) fun r _ hsome => absurd hnone2 hsome
  obtain ⟨rest', hrest'⟩ : ∃ rest', 1025 - J = rest' + 2 := ⟨1023 - J, by omega⟩
  have hnextJ : nextByte J (endPosition n).blockNum 1024 (I == (endPosition n).pointerBlockNum) =
      true := by
    show nextByte J (n / 32 % 1024) 1024 (I == n / 32768) = true
    simp only [nextByte, Bool.or_eq_true, Bool.and_eq_true, Bool.not_eq_true',
      beq_eq_false_iff_ne, decide_eq_true_eq]
    omega
  rw [hrest', iterateBlocks, hnextJ, if_pos (by simp [isValidEntry, he])]
  refine vwp_bind (vwp_bytesToInt32 hptr.1 hptr.2 (by omega) ?_)
  dsimp only
  rw [hslot, readBlock_of_lt hblock.2, hlast]
  apply vwp_bind
  -- over the records before in its data block
  have hloop := vwp_bytes process (E := E)
    (Q := fun r w => vwp (iterateBlocks process (nd.ptr I) (I == (endPosition n).pointerBlockNum)
      (endPosition n) (rest' + 1) (J + 1) (v.dataBlock nd K) r.1 r.2)
      (fun r w => vwp (iteratePointers process node (endPosition n) (rest + 1) (I + 1) r.1 r.2)
        Q E w) E w) hd (by omega) hend hshort (fun i hi => hnext i (by omega)) c (34 - c) 0 (by omega) (by omega)
    (scan process (recordsFrom v nd (32768 * I) (32 * K)) (32768 * I)
      (scan process (recordsFrom v nd 0 (32768 * I)) 0 acc).2).2
    (show invalidEntry.name = [] from rfl)
  rw [Nat.add_zero, Nat.zero_mul, show c + (34 - c) = 34 by omega, hscan2] at hloop
  refine hloop (fun e he _ => ?_) fun r _ hsome => absurd rfl hsome
  obtain ⟨rest'', hrest''⟩ : ∃ rest'', 34 - c = rest'' + 2 := ⟨32 - c, by omega⟩
  rw [hrest'', iterateBytesInBlock, hnext c le_rfl, if_pos (by simp [isValidEntry, he])]
  refine vwp_bind (vwp_mono hgo (fun entry w hw => ?_) fun _ _ h => h)
  refine vwp_iterateBytes_valid hw.1 (by omega) (vwp_iterateBlocks_valid hw.1 (by omega)
    (vwp_iteratePointers_valid hw.1 (by omega) ?_))
  rw [show c * 128 + 128 - 128 = c * 128 by omega]
  exact hw.2

end Loops

end LinuseFs.Analysis
