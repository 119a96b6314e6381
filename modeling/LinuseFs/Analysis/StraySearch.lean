import LinuseFs.Analysis.DirectoryIteration

/-!
# The search behind the last record

The loop over the pointers does not end at the last pointer block of the directory.  A search that
has found nothing goes on at the next pointer, and what it leads to is read as pointer blocks, data
blocks and records, until a pointer is zero.
-/

set_option autoImplicit false

namespace LinuseFs.Analysis

open LinuseFs.Computation LinuseFs.Model LinuseFs.Interface

/-- The place `c` for a record in the block `b` can be read, and does not have the name. -/
def PlaceLacks (s : SacState) (name : List UInt8) (b c : ℕ) : Prop :=
  b < totalBlocks ∧
    ∃ other, cstr (s.disk b) (c * 128 + 4) fileNameSize = some other ∧ (other = name → name = [])

/-- Each slot of the pointer block `p` can be read, and so can the block that it leads to, which
does not have the name. -/
def SlotsLack (s : SacState) (name : List UInt8) (p : ℕ) : Prop :=
  p < totalBlocks ∧
    ∀ j < 1024, ∀ c < 32, PlaceLacks s name (readBlock (leNat (s.disk p) (j * 4) 4)) c

/-- From the pointer `i` on there is one that is zero, and the blocks of those before it do not
have the name. -/
def PointersLack (s : SacState) (node : Node) (name : List UInt8) (i : ℕ) : Prop :=
  ∃ m, i ≤ m ∧ m < pointersPerNode ∧ node.indirectPointerBlock m = 0 ∧
    ∀ q, i ≤ q → q < m → node.indirectPointerBlock q ≠ 0 ∧
      SlotsLack s name (readBlock (node.indirectPointerBlock q))

/-- The node without its pointers from `i` on. -/
def cutAt (node : Node) (i : ℕ) : Node :=
  { node with indirectPointerBlock := fun j => if j < i then node.indirectPointerBlock j else 0 }

/-! ## Up to the last pointer block -/

section Cut

variable {τ : Type} {process : ProcessEntry τ} {node : Node} {s : SacState}
  {Q : DirEntry × τ → SacState → Prop} {E : Fault → SacState → Prop}

/-- INTERNAL: **the loop over the pointers, up to one of them**: what the node without the rest
does, and then the rest; by induction on the pointers before it. SRCLINE: directory.c:218-237 -/
theorem iteratePointers_cut (hstate : node.state ≠ 0) (position : DataPosition) {k : ℕ}
    (hk : k < 1000) (left rest : ℕ)
    (hptr : ∀ j, k - left ≤ j → j < k → node.indirectPointerBlock j ≠ 0) (hleft : left ≤ k)
    {result : DirEntry} {acc : τ}
    (h : wp (iteratePointers process (cutAt node k) position (left + (rest + 1)) (k - left) result
        acc)
      (fun r s' => if r.1.name = [] then
        wp (iteratePointers process node position (rest + 1) k r.1 r.2) Q E s' else Q r s') E s) :
    wp (iteratePointers process node position (left + (rest + 1)) (k - left) result acc) Q E s := by
  induction left generalizing result acc s with
  | zero =>
    rw [Nat.zero_add, Nat.sub_zero] at h ⊢
    by_cases hvalid : isValidEntry result = true
    · have hne : result.name ≠ [] := by simpa [isValidEntry] using hvalid
      rw [iteratePointers, if_pos hvalid, wp_pure, if_neg hne] at h
      rw [iteratePointers, if_pos hvalid, wp_pure]
      exact h
    · have hnil : result.name = [] := by simpa [isValidEntry] using hvalid
      have hzero : (cutAt node k).pointerAt k = pure 0 := by
        rw [Node.pointerAt, if_pos hk]
        simp [cutAt]
      rw [iteratePointers, if_neg hvalid, hzero, wp_bind, wp_pure, if_neg (by simp), wp_pure,
        if_pos hnil] at h
      exact h
  | succ left ih =>
    rw [Nat.add_right_comm] at h ⊢
    by_cases hvalid : isValidEntry result = true
    · have hne : result.name ≠ [] := by simpa [isValidEntry] using hvalid
      rw [iteratePointers, if_pos hvalid, wp_pure, if_neg hne] at h
      rw [iteratePointers, if_pos hvalid, wp_pure]
      exact h
    · have hlt : k - (left + 1) < k := by omega
      have hpointer : (cutAt node k).pointerAt (k - (left + 1)) =
          pure (node.indirectPointerBlock (k - (left + 1))) := by
        rw [Node.pointerAt, if_pos (hlt.trans hk)]
        simp only [cutAt, if_pos hlt]
      have hpointer' : node.pointerAt (k - (left + 1)) =
          pure (node.indirectPointerBlock (k - (left + 1))) := by
        rw [Node.pointerAt, if_pos (hlt.trans hk)]
      have hne := hptr _ le_rfl hlt
      rw [iteratePointers, if_neg hvalid, hpointer, wp_bind, wp_pure,
        if_pos ⟨hne, show (cutAt node k).state ≠ 0 from hstate⟩, wp_bind] at h
      rw [iteratePointers, if_neg hvalid, hpointer', wp_bind, wp_pure, if_pos ⟨hne, hstate⟩,
        wp_bind]
      refine wp_mono h (fun r s' hr => ?_) fun _ _ he => he
      rw [show k - (left + 1) + 1 = k - left by omega] at hr ⊢
      exact ih (fun j hj => hptr j (by omega)) (by omega) hr

/-- INTERNAL: **the iteration, up to one of the pointers.** SRCLINE: directory.c:218-237 -/
theorem iteratePointersBlocks_cut (hstate : node.state ≠ 0) {k : ℕ} (hk : k < 1000)
    (hptr : ∀ j < k, node.indirectPointerBlock j ≠ 0) {acc : τ}
    (h : wp (iteratePointersBlocks process (cutAt node k) acc)
      (fun r s' => if r.1.name = [] then ∀ e : DirEntry, e.name = [] →
        wp (iteratePointers process node (getNextWritePosition node) (1001 - k) k e r.2)
          (fun r s' => Q ({ r.1 with data := { r.1.data with pointerBlockNum := 2 ^ 32 - 1 } }, r.2)
            s') E s'
        else Q r s') E s) :
    wp (iteratePointersBlocks process node acc) Q E s := by
  unfold iteratePointersBlocks at h ⊢
  rw [wp_bind] at h ⊢
  have hcut := @iteratePointers_cut _ process node s (fun r s' => Q
    ({ r.1 with data := { r.1.data with pointerBlockNum := 2 ^ 32 - 1 } }, r.2) s') E hstate
    (getNextWritePosition node) k hk k (1000 - k) (fun j _ hj => hptr j hj) le_rfl invalidEntry acc
  rw [Nat.sub_self, show k + (1000 - k + 1) = 1001 by omega,
    show 1000 - k + 1 = 1001 - k by omega] at hcut
  refine hcut (wp_mono h (fun r s' hr => ?_) fun _ _ he => he)
  rw [wp_pure] at hr
  split
  next hnil =>
    rw [if_pos hnil] at hr
    exact hr r.1 hnil
  next hne =>
    rw [if_neg hne] at hr
    exact hr

end Cut

/-! ## Behind it -/

section Behind

variable {s : SacState} {name : List UInt8} {position : DataPosition} {b : ℕ}

variable (name) in
/-- INTERNAL: a record that is read anywhere on the disk. SRCLINE: directory.c:291-296 -/
theorem readDirectoryEntry_anywhere {c : ℕ} (hc : c < 32) :
    wp (readDirectoryEntry b (c * 128))
      (fun e s' => s' = s ∧ b < 3000 ∧ cstr (s.disk b) (c * 128 + 4) 71 = some e.name)
      (fun _ _ => ¬ PlaceLacks s name b c) s := by
  by_cases hb : b < 3000
  swap
  · rw [readDirectoryEntry, wp_bind, bytesToInt32, wp_bind]
    exact load_fault_wp (fun h => hb h.1) fun hplace => hb hplace.1
  rw [readDirectoryEntry, wp_bind]
  apply bytesToInt32_wp hb (by omega)
  rw [wp_bind]
  apply load_wp hb (by simp only [blockSize]; omega)
  have hlimit : min fileNameSize (blockSize - (c * 128 + 4)) = 71 := by
    simp only [fileNameSize, blockSize]
    omega
  have hbytes : cstr (fun i => s.disk b (c * 128 + 4 + i)) 0 71 =
      cstr (s.disk b) (c * 128 + 4) 71 := cstr_congr fun i _ => by rw [Nat.zero_add]
  rw [hlimit, hbytes]
  cases hname : cstr (s.disk b) (c * 128 + 4) 71 with
  | none =>
    rintro ⟨-, other, hother, -⟩
    rw [show fileNameSize = 71 from rfl, hname] at hother
    cases hother
  | some other => exact ⟨rfl, hb, rfl⟩

/-- INTERNAL: what the search makes of a record. -/
theorem findEntry_name (e : DirEntry) : (findEntry name e ()).1.name = [] ↔
    (e.name = name → name = []) := by
  rw [findEntry]
  dsimp only
  split
  next hname => simp [hname]
  next hname => simp [hname, invalidEntry]

variable (name) in
/-- INTERNAL: **the search of a block that is not the last one** reads its 32 places, by induction
on the places that are left. SRCLINE: directory.c:279-289 -/
theorem searchBytes_wp (hpos : u32 ((position.byteNum : ℤ) - 1) < 4096) (left c : ℕ)
    (hc : c + left = 32) {result : DirEntry} (hresult : result.name = []) :
    wp (iterateBytesInBlock (findEntry name) b false position (left + 2) (c * 128) result ())
      (fun r s' => s' = s ∧
        (r.1.name = [] ↔ ∀ k, c ≤ k → k < 32 → PlaceLacks s name b k))
      (fun _ _ => ¬ ∀ k, c ≤ k → k < 32 → PlaceLacks s name b k) s := by
  induction left generalizing c result with
  | zero =>
    have hend : nextByte (c * 128) (u32 ((position.byteNum : ℤ) - 1)) blockSize false = false := by
      simp only [nextByte, blockSize, Bool.or_eq_false_iff, decide_eq_false_iff_not, Bool.not_false,
        Bool.and_true]
      omega
    rw [iterateBytesInBlock, hend, if_neg (by simp), wp_pure]
    exact ⟨rfl, iff_of_true hresult fun k hk hk' => by omega⟩
  | succ left ih =>
    have hnext : nextByte (c * 128) (u32 ((position.byteNum : ℤ) - 1)) blockSize false = true := by
      simp only [nextByte, blockSize, Bool.or_eq_true, decide_eq_true_eq, Bool.not_false,
        Bool.and_true]
      omega
    rw [iterateBytesInBlock, hnext, if_pos (by simp [isValidEntry, hresult]), wp_bind]
    refine wp_mono (readDirectoryEntry_anywhere name (by omega)) ?_
      fun _ _ hplace hall => hplace (hall c le_rfl (by omega))
    rintro e s' ⟨rfl, hb, hname⟩
    have hplace : PlaceLacks s' name b c ↔ (findEntry name e ()).1.name = [] := by
      rw [findEntry_name, PlaceLacks, show fileNameSize = 71 from rfl, hname]
      simp [hb]
    rw [show c * 128 + 128 = (c + 1) * 128 by omega]
    by_cases hnil : (findEntry name e ()).1.name = []
    · have hsplit : (∀ k, c ≤ k → k < 32 → PlaceLacks s' name b k) ↔
          ∀ k, c + 1 ≤ k → k < 32 → PlaceLacks s' name b k := by
        refine ⟨fun h k hk => h k (by omega), fun h k hk hk' => ?_⟩
        by_cases hkc : k = c
        · exact hkc ▸ hplace.mpr hnil
        · exact h k (by omega) hk'
      rw [hsplit]
      exact ih (c + 1) (by omega) hnil
    · change wp (iterateBytesInBlock _ b false position (left + 1 + 1) ((c + 1) * 128)
        (findEntry name e ()).1 ()) _ _ _
      rw [iterateBytesInBlock, if_neg (by simp [isValidEntry, hnil]), wp_pure]
      exact ⟨rfl, iff_of_false hnil fun hall => hnil (hplace.mp (hall c le_rfl (by omega)))⟩

variable (name) in
/-- INTERNAL: **the search of a pointer block behind the last one** reads all its slots, by
induction on those that are left. SRCLINE: directory.c:262-277 -/
theorem searchBlocks_wp (hpos : u32 ((position.byteNum : ℤ) - 1) < 4096)
    (hblock : position.blockNum < 1024) {p : ℕ} (left j nroBloque : ℕ) (hj : j + left = 1024)
    {result : DirEntry} (hresult : result.name = []) :
    wp (iterateBlocks (findEntry name) p false position (left + 1) j nroBloque result ())
      (fun r s' => s' = s ∧ (r.1.name = [] ↔ ∀ k, j ≤ k → k < 1024 → p < 3000 ∧
        ∀ c < 32, PlaceLacks s name (readBlock (leNat (s.disk p) (k * 4) 4)) c))
      (fun _ _ => ¬ ∀ k, j ≤ k → k < 1024 → p < 3000 ∧
        ∀ c < 32, PlaceLacks s name (readBlock (leNat (s.disk p) (k * 4) 4)) c) s := by
  induction left generalizing j nroBloque result with
  | zero =>
    have hend : nextByte j position.blockNum 1024 false = false := by
      simp only [nextByte, Bool.or_eq_false_iff, decide_eq_false_iff_not, Bool.not_false,
        Bool.and_true]
      omega
    rw [iterateBlocks, hend, if_neg (by simp), wp_pure]
    exact ⟨rfl, iff_of_true hresult fun k hk hk' => by omega⟩
  | succ left ih =>
    have hnext : nextByte j position.blockNum 1024 false = true := by
      simp only [nextByte, Bool.or_eq_true, decide_eq_true_eq, Bool.not_false, Bool.and_true]
      omega
    rw [iterateBlocks, hnext, if_pos (by simp [isValidEntry, hresult]), wp_bind]
    by_cases hp : p < 3000
    swap
    · rw [bytesToInt32, wp_bind]
      exact load_fault_wp (fun h => hp h.1) fun hall => hp (hall j le_rfl (by omega)).1
    apply bytesToInt32_wp hp (by omega)
    rw [Bool.and_false, wp_bind]
    generalize hnumber : leNat (s.disk p) (j * 4) 4 = number
    have hbytes := searchBytes_wp (s := s) name (b := readBlock number) hpos 32 0 (by omega)
      (show invalidEntry.name = [] from rfl)
    rw [Nat.zero_mul] at hbytes
    refine wp_mono hbytes ?_ fun _ _ hno hall => hno fun c _ hc => hnumber ▸
      (hall j le_rfl (by omega)).2 c hc
    rintro ⟨e, acc⟩ s' ⟨rfl, hnil⟩
    simp only [Nat.zero_le, forall_const] at hnil
    by_cases hname : e.name = []
    · have hsplit : (∀ k, j ≤ k → k < 1024 → p < 3000 ∧
          ∀ c < 32, PlaceLacks s' name (readBlock (leNat (s'.disk p) (k * 4) 4)) c) ↔
          ∀ k, j + 1 ≤ k → k < 1024 → p < 3000 ∧
            ∀ c < 32, PlaceLacks s' name (readBlock (leNat (s'.disk p) (k * 4) 4)) c := by
        refine ⟨fun h k hk => h k (by omega), fun h k hk hk' => ?_⟩
        by_cases hkj : k = j
        · rw [hkj, hnumber]
          exact ⟨hp, hnil.mp hname⟩
        · exact h k (by omega) hk'
      rw [hsplit]
      exact ih (j + 1) number (by omega) hname
    · dsimp only
      rw [iterateBlocks, if_neg (by simp [isValidEntry, hname]), wp_pure]
      refine ⟨rfl, iff_of_false hname fun hall => hname (hnil.mpr ?_)⟩
      rw [← hnumber]
      exact (hall j le_rfl (by omega)).2

/-- INTERNAL: the condition, one pointer further. -/
theorem pointersLack_succ {node : Node} {i : ℕ} (hptr : node.indirectPointerBlock i ≠ 0) :
    PointersLack s node name i ↔
      SlotsLack s name (readBlock (node.indirectPointerBlock i)) ∧
        PointersLack s node name (i + 1) := by
  constructor
  · rintro ⟨m, hle, hlt, hzero, hall⟩
    have him : i ≠ m := by
      rintro rfl
      exact hptr hzero
    exact ⟨(hall i le_rfl (by omega)).2, m, by omega, hlt, hzero, fun q hq => hall q (by omega)⟩
  · rintro ⟨hslots, m, hle, hlt, hzero, hall⟩
    refine ⟨m, by omega, hlt, hzero, fun q hq hqm => ?_⟩
    by_cases hqi : q = i
    · exact hqi ▸ ⟨hptr, hslots⟩
    · exact hall q (by omega) hqm

variable (name) in
/-- INTERNAL: **the search behind the last pointer block**, by induction on the pointers that are
left. SRCLINE: directory.c:218-237 -/
theorem searchPointers_wp {node : Node} (hstate : node.state ≠ 0)
    (hpos : u32 ((position.byteNum : ℤ) - 1) < 4096) (hblock : position.blockNum < 1024)
    (left i : ℕ) (hi : i + left = 1000) (hlast : position.pointerBlockNum < i) {result : DirEntry}
    (hresult : result.name = []) :
    wp (iteratePointers (findEntry name) node position (left + 1) i result ())
      (fun r s' => s' = s ∧ (r.1.name = [] ↔ PointersLack s node name i))
      (fun _ _ => ¬ PointersLack s node name i) s := by
  induction left generalizing i result with
  | zero =>
    rw [iteratePointers, if_neg (by simp [isValidEntry, hresult]), Node.pointerAt,
      if_neg (by simp only [pointersPerNode]; omega), wp_bind, wp_throw]
    rintro ⟨m, hle, hlt, -⟩
    simp only [pointersPerNode] at hlt
    omega
  | succ left ih =>
    rw [iteratePointers, if_neg (by simp [isValidEntry, hresult]), Node.pointerAt,
      if_pos (by simp only [pointersPerNode]; omega), wp_bind, wp_pure]
    by_cases hptr : node.indirectPointerBlock i = 0
    · rw [if_neg (by simp [hptr]), wp_pure]
      refine ⟨rfl, iff_of_true hresult ⟨i, le_rfl, ?_, hptr, fun q hq hqi => by omega⟩⟩
      simp only [pointersPerNode]
      omega
    · rw [if_pos ⟨hptr, hstate⟩, pointersLack_succ hptr, wp_bind]
      have hnot : (i == position.pointerBlockNum) = false := by
        rw [beq_eq_false_iff_ne]
        omega
      have hslots : (∀ k, 0 ≤ k → k < 1024 → readBlock (node.indirectPointerBlock i) < 3000 ∧
          ∀ c < 32, PlaceLacks s name (readBlock (leNat
            (s.disk (readBlock (node.indirectPointerBlock i))) (k * 4) 4)) c) ↔
          SlotsLack s name (readBlock (node.indirectPointerBlock i)) :=
        ⟨fun h => ⟨(h 0 le_rfl (by omega)).1, fun k hk => (h k (Nat.zero_le k) hk).2⟩,
          fun h k _ hk => ⟨h.1, h.2 k hk⟩⟩
      have hblocks := searchBlocks_wp (s := s) name
        (p := readBlock (node.indirectPointerBlock i)) hpos hblock 1024 0 0 (by omega)
        (show invalidEntry.name = [] from rfl)
      rw [hslots] at hblocks
      dsimp only
      rw [hnot]
      refine wp_mono hblocks ?_ fun _ _ hno hall => hno hall.1
      rintro ⟨e, acc⟩ s' ⟨rfl, hnil⟩
      dsimp only at hnil ⊢
      by_cases hname : e.name = []
      · refine wp_mono (ih (i + 1) (by omega) (by omega) hname) ?_ fun _ _ hno hall => hno hall.2
        rintro r s'' ⟨rfl, hr⟩
        exact ⟨rfl, by rw [hr, and_iff_right (hnil.mp hname)]⟩
      · rw [iteratePointers, if_pos (by simp [isValidEntry, hname]), wp_pure]
        exact ⟨rfl, iff_of_false hname fun hall => hname (hnil.mpr hall.1)⟩

end Behind

/-! ## Without records -/

section Empty

variable {v : View} {node : Node} {name : List UInt8}

/-- INTERNAL: a search that no end of a data block stops finds the name or faults, by induction on
the places. SRCLINE: directory.c:279-289 -/
theorem vwp_searchBytes_endless (b : ℕ) (isLast : Bool) (count k : ℕ)
    (hk : k + 128 * count < 2 ^ 32)
    {result : DirEntry} :
    vwp (iterateBytesInBlock (findEntry name) b isLast (endPosition 0) count k result ())
      (fun r _ => r.1.name ≠ []) (fun _ _ => True) v := by
  induction count generalizing k result v with
  | zero => exact vwp_throw trivial
  | succ count ih =>
    rw [iterateBytesInBlock, nextByte_endless rfl isLast (by omega), Bool.and_true]
    split
    · exact vwp_bind_of (vwp_anything _) (fun _ _ h => h) fun entry u _ => ih _ (by omega)
    next hvalid => exact vwp_pure (by simpa [isValidEntry] using hvalid)

variable (name) in
/-- INTERNAL: **a directory without records that has a pointer block** is not searched in vain.
SRCLINE: directory.c:218-237 -/
theorem vwp_search_empty (hsize : node.fileSize = 0) (hstate : node.state ≠ 0)
    (hptr : node.indirectPointerBlock 0 ≠ 0) :
    vwp (iteratePointersBlocks (findEntry name) node ()) (fun r _ => r.1.name ≠ [])
      (fun _ _ => True) v := by
  have hnext : nextByte 0 (endPosition 0).blockNum 1024 true = true := rfl
  rw [iteratePointersBlocks, getNextWritePosition_eq (n := 0) hsize]
  apply vwp_bind
  rw [iteratePointers, if_neg (by decide)]
  refine vwp_bind (vwp_pointerAt (by omega) ?_)
  rw [if_pos ⟨hptr, hstate⟩]
  refine vwp_bind_of (R := fun r _ => r.1.name ≠ []) ?_ (fun _ _ h => h) fun r u hr => ?_
  · rw [show ((0 : ℕ) == (endPosition 0).pointerBlockNum) = true from rfl, iterateBlocks, hnext,
      if_pos (by rfl)]
    apply vwp_bind_of (vwp_anything _) (fun _ _ h => h)
    intro number u _
    refine vwp_bind_of (vwp_searchBytes_endless _ _ 34 0 (by omega)) (fun _ _ h => h)
      fun r u hr => ?_
    dsimp only
    rw [iterateBlocks, if_neg (by simp [isValidEntry, hr])]
    exact vwp_pure hr
  · exact vwp_iteratePointers_valid hr (by omega) (vwp_pure hr)

end Empty

end LinuseFs.Analysis
