import LinuseFs.Analysis.DirectoryScan

/-!
# Adding and removing a directory entry

`add_directory_entry` appends one record, taking a pointer block and a data block when the
directory was empty; `delete_directory_entry` takes the first record with the name out and
moves those behind it down.  Both work on a private copy of the node, so the statements
are about the view with that copy in place.
-/

set_option autoImplicit false

namespace LinuseFs.Analysis

open LinuseFs.Computation LinuseFs.Model LinuseFs.Interface

/-! ## Appending -/

/-- From `v` to `w` the directory `d` got the record of `n` under `name` at its end. -/
structure Appended (v w : View) (d : ℕ) (name : List UInt8) (n : ℕ) : Prop where
  others : Others d v w
  core : Core w
  live : ∀ m, w.live m ↔ v.live m
  state : (w.inode d).state = (v.inode d).state
  named : (w.inode d).name = (v.inode d).name
  parentBlock : (w.inode d).parentBlock = (v.inode d).parentBlock
  records : w.records (w.inode d) = v.records (v.inode d) ++ [(name, n)]
  metadata : w.metadata = v.metadata
  used : (v.inode d).fileSize ≠ 0 → w.used = v.used
  taken : ∃ x y, ∀ c, c ≠ x → c ≠ y → w.used c = v.used c
  own : ∀ r, v.held d r → w.held d r ∧ w.place d r = v.place d r
  gained : ∀ c, w.used c = true → v.used c = true ∨ ∃ r, w.held d r ∧ w.place d r = c
  room : (v.inode d).fileSize = 0 → 2 ≤ freeCount v.used 34 3000

/-- The allocator stopped the server on the way to the first record of `d`: two data blocks are
not free, and what was marked stays marked. -/
structure NoFirstRecord (v : View) (d : ℕ) (e : Fault) (w : View) : Prop where
  alloc : e.IsAlloc
  empty : (v.inode d).fileSize = 0
  full : freeCount v.used 34 3000 ≤ 1
  kept : ∀ b, v.used b = true → w.used b = true

section Append

variable {v w : View} {d n : ℕ} {name : List UInt8}

/-- The bytes of `entry_name` in `add_directory_entry`. -/
def entryName (stack : Bytes) (name : List UInt8) : Bytes :=
  memcpy stack 0 (ofList (name ++ [0])) (name.length + 1)

/-- The view with a record at byte `pos` of the data block `b`. -/
def putRecord (v : View) (b pos n : ℕ) (bytes : Bytes) : View :=
  (v.setData b (memcpy (v.data b) pos (leBytes n) 4)).setData b
    (memcpy (memcpy (v.data b) pos (leBytes n) 4) (pos + 4) bytes 124)

theorem putRecord_data_ne {b pos : ℕ} {bytes : Bytes} {c : ℕ} (hc : c ≠ b) :
    (putRecord v b pos n bytes).data c = v.data c := by
  rw [putRecord, View.setData_ne _ hc, View.setData_ne _ hc]

theorem putRecord_data_same {b pos : ℕ} {bytes : Bytes} :
    (putRecord v b pos n bytes).data b =
      memcpy (memcpy (v.data b) pos (leBytes n) 4) (pos + 4) bytes 124 := by
  rw [putRecord, View.setData_same]

/-- INTERNAL: the new record is read back. SRCLINE: directory.c:40-56 -/
theorem record_putRecord_same {b k : ℕ} (stack : Bytes) (hn : n < 2 ^ 32)
    (hnul : (0 : UInt8) ∉ name) (hlen : name.length < 71) :
    cstr ((putRecord v b (k * 128) n (entryName stack name)).data b) (k * 128 + 4) 71 = some name ∧
      (putRecord v b (k * 128) n (entryName stack name)).record b k = (name, n) := by
  have hname : cstr ((putRecord v b (k * 128) n (entryName stack name)).data b) (k * 128 + 4) 71 =
      some name := by
    rw [putRecord_data_same]
    have hinside : cstr (memcpy (memcpy (v.data b) (k * 128) (leBytes n) 4) (k * 128 + 4)
        (entryName stack name) 124) (k * 128 + 4) 71 = cstr (entryName stack name) 0 71 :=
      cstr_congr fun i hi => by rw [memcpy_inside (by omega), Nat.zero_add]
    rw [hinside]
    exact cstr_memcpy_ofList stack 0 71 _ hnul hlen (by omega)
  refine ⟨hname, ?_⟩
  unfold View.record
  rw [hname, putRecord_data_same, leNat_memcpy_outside (by omega), leNat_memcpy_leBytes,
    Nat.mod_eq_of_lt (by omega)]
  rfl

/-- INTERNAL: the records before it stay. -/
theorem record_putRecord_ne {b k i : ℕ} (bytes : Bytes) (hi : i < k) :
    cstr ((putRecord v b (k * 128) n bytes).data b) (i * 128 + 4) 71 =
        cstr (v.data b) (i * 128 + 4) 71 ∧
      (putRecord v b (k * 128) n bytes).record b i = v.record b i := by
  have hname : cstr ((putRecord v b (k * 128) n bytes).data b) (i * 128 + 4) 71 =
      cstr (v.data b) (i * 128 + 4) 71 := by
    rw [putRecord_data_same, cstr_memcpy_outside (by omega), cstr_memcpy_outside (by omega)]
  refine ⟨hname, ?_⟩
  unfold View.record
  rw [hname, putRecord_data_same, leNat_memcpy_outside (by omega),
    leNat_memcpy_outside (by omega)]

/-- The directory after the record: its node has grown by one record and has the pointer
block `y`. -/
def grownDir (nd : Inode) (y : ℕ) : Inode :=
  { nd with fileSize := nd.fileSize + 128, ptr := Function.update nd.ptr 0 y }

theorem grownDir_ptr_zero (nd : Inode) (y : ℕ) : (grownDir nd y).ptr 0 = y := by
  simp only [grownDir, Function.update_self]

theorem grownDir_ptr_ne {nd : Inode} {y i : ℕ} (hi : i ≠ 0) : (grownDir nd y).ptr i = nd.ptr i :=
  Function.update_of_ne hi ..

theorem grownDir_fits {nd : Inode} {y : ℕ} (h : nd.Fits) (hsize : nd.fileSize ≤ 3840)
    (hy : y < 3000) : (grownDir nd y).Fits := by
  refine ⟨h.parentBlock, ?_, h.creationDate, h.modificationDate, fun i => ?_, fun i hi => ?_⟩
  · show nd.fileSize + 128 < 2 ^ 32
    omega
  · by_cases hi : i = 0
    · subst hi
      rw [grownDir_ptr_zero]
      omega
    · rw [grownDir_ptr_ne hi]
      exact h.ptr i
  · rw [grownDir_ptr_ne (by omega)]
    exact h.ptr_past i hi

/-- From `v` to `w` the data block `b` got ready for the next record of `d`: it stands in slot 0
of the pointer block `y` of the node `node`, and both were the directory's own, or both are new. -/
structure NextBlock (v w : View) (d b y : ℕ) (node : Node) : Prop where
  inode : w.inode = v.inode
  metadata : w.metadata = v.metadata
  node : inodeOfNode node = { v.inode d with ptr := Function.update (v.inode d).ptr 0 y }
  used : ∀ c, c ≠ b → c ≠ y → w.used c = v.used c
  data : ∀ c, c ≠ b → c ≠ y → w.data c = v.data c
  slot : w.slot y 0 = b
  ne : b ≠ y
  inData : w.InData b
  inData_ptr : w.InData y
  own : ((v.inode d).fileSize ≠ 0 ∧ y = (v.inode d).ptr 0 ∧ b = v.dataBlock (v.inode d) 0 ∧
      w.used = v.used ∧ w.data = v.data) ∨
    ((v.inode d).fileSize = 0 ∧ v.used y = false ∧ v.used b = false)

/-- The view with a record in the data block `b` behind those of `d`, and the node grown by it. -/
def recordAdded (v w : View) (d b y n : ℕ) (bytes : Bytes) : View :=
  (putRecord w b (v.inode d).fileSize n bytes).setInode d (grownDir (v.inode d) y)

section NextBlock

variable {b y : ℕ} {bytes : Bytes} {node : Node}

theorem recordAdded_inode : (recordAdded v w d b y n bytes).inode d = grownDir (v.inode d) y :=
  View.setInode_same ..

theorem recordAdded_used : (recordAdded v w d b y n bytes).used = w.used := rfl

theorem recordAdded_data : (recordAdded v w d b y n bytes).data =
    (putRecord w b (v.inode d).fileSize n bytes).data := rfl

theorem recordAdded_record (k : ℕ) : (recordAdded v w d b y n bytes).record b k =
    (putRecord w b (v.inode d).fileSize n bytes).record b k := rfl

/-- INTERNAL: the pointer block still leads to the data block. -/
theorem NextBlock.dataBlock (hw : NextBlock v w d b y node) :
    (recordAdded v w d b y n bytes).dataBlock (grownDir (v.inode d) y) 0 = b := by
  have hyb : (recordAdded v w d b y n bytes).data y = w.data y := by
    rw [recordAdded_data, putRecord_data_ne (Ne.symm hw.ne)]
  simp only [View.dataBlock, View.slot, Nat.zero_div, Nat.zero_mod, grownDir_ptr_zero, hyb]
  exact hw.slot

/-- INTERNAL: the two blocks were the directory's own or free, so nothing else changed. -/
theorem NextBlock.others (hw : NextBlock v w d b y node) (h : Core v) (hd : v.live d)
    (hstate : (v.inode d).state = 2) : Others d v (recordAdded v w d b y n bytes) := by
  have hok := (h.node d hd).dir hstate
  apply Others.of_touched h hd.1 fun c => c = b ∨ c = y
  · rintro c (rfl | rfl)
    · refine Or.inr ⟨hw.inData.1, ?_⟩
      rcases hw.own with ⟨hne, -, hbv, -, -⟩ | ⟨-, -, hfree⟩
      · exact Or.inr ⟨.data 0, ⟨hd, (hok.refers_data hstate 0).mpr ⟨rfl, hne⟩⟩, hbv.symm⟩
      · exact Or.inl hfree
    · refine Or.inr ⟨hw.inData_ptr.1, ?_⟩
      rcases hw.own with ⟨hne, hyv, -, -, -⟩ | ⟨-, hfree, -⟩
      · exact Or.inr ⟨.ptr 0, ⟨hd, fun e => hne (hok.ptr_zero.mp e)⟩, hyv.symm⟩
      · exact Or.inl hfree
  · intro m hm
    rw [recordAdded, View.setInode_ne _ hm]
    exact congrFun hw.inode m
  · intro c hc
    rw [recordAdded_used]
    exact hw.used c (fun e => hc (Or.inl e)) fun e => hc (Or.inr e)
  · intro c hc
    rw [recordAdded_data, putRecord_data_ne fun e => hc (Or.inl e)]
    exact hw.data c (fun e => hc (Or.inl e)) fun e => hc (Or.inr e)

theorem NextBlock.live (hw : NextBlock v w d b y node) (h : Core v) (hd : v.live d)
    (hstate : (v.inode d).state = 2) (m : ℕ) :
    (recordAdded v w d b y n bytes).live m ↔ v.live m := by
  by_cases hm : m = d
  · subst hm
    have hlt := hd.1
    have hb := hw.inData.1
    have hy := hw.inData_ptr.1
    have hused : (recordAdded v w m b y n bytes).used (2 + m) = v.used (2 + m) :=
      hw.used _ (by omega) (by omega)
    unfold View.live
    rw [hused]
  · exact (hw.others h hd hstate).live m hm

/-- INTERNAL: the records before the new one stay. -/
theorem NextBlock.record_of_lt (hw : NextBlock v w d b y node)
    (hmod : (v.inode d).fileSize % 128 = 0) {i : ℕ} (hi : i < (v.inode d).fileSize / 128) :
    cstr ((recordAdded v w d b y n bytes).data b) (i * 128 + 4) 71 =
        cstr (v.data (v.dataBlock (v.inode d) 0)) (i * 128 + 4) 71 ∧
      (recordAdded v w d b y n bytes).record b i = v.record (v.dataBlock (v.inode d) 0) i := by
  rcases hw.own with ⟨-, -, hbv, -, hdv⟩ | ⟨hzero, -, -⟩
  · obtain ⟨hname, hrecord⟩ := record_putRecord_ne (v := w) (b := b) (n := n) bytes hi
    rw [Nat.div_mul_cancel (Nat.dvd_of_mod_eq_zero hmod)] at hname hrecord
    rw [recordAdded_record, recordAdded_data, hname, hrecord]
    simp only [View.record, hdv, hbv, and_self]
  · omega

/-- INTERNAL: the new record stands behind the others. -/
theorem NextBlock.record_eq (hmod : (v.inode d).fileSize % 128 = 0) (stack : Bytes)
    (hn : n < 2 ^ 32) (hnul : (0 : UInt8) ∉ name) (hlen : name.length < 71) :
    cstr ((recordAdded v w d b y n (entryName stack name)).data b)
        ((v.inode d).fileSize / 128 * 128 + 4) 71 = some name ∧
      (recordAdded v w d b y n (entryName stack name)).record b ((v.inode d).fileSize / 128) =
        (name, n) := by
  have hrecord := record_putRecord_same (v := w) (b := b) (k := (v.inode d).fileSize / 128) stack
    hn hnul hlen
  rw [Nat.div_mul_cancel (Nat.dvd_of_mod_eq_zero hmod)] at hrecord ⊢
  exact hrecord

/-- INTERNAL: the node with one record more is that of a directory.
SRCLINE: directory.c:40-56 -/
theorem NextBlock.nodeOk (hw : NextBlock v w d b y node) (h : Core v) (hd : v.live d)
    (hstate : (v.inode d).state = 2) (hsize : (v.inode d).fileSize ≤ 3840) (stack : Bytes)
    (hn : n < 2 ^ 32) (hname : name ≠ []) (hnul : (0 : UInt8) ∉ name) (hlen : name.length < 71) :
    NodeOk (recordAdded v w d b y n (entryName stack name)) (grownDir (v.inode d) y) := by
  have hnode := h.node d hd
  have hok := hnode.dir hstate
  have hmod := hok.size
  have hy := hw.inData_ptr
  have hgrown : (grownDir (v.inode d) y).fileSize = (v.inode d).fileSize + 128 := rfl
  refine ⟨grownDir_fits hnode.fits hsize hy.2.1, Or.inr hstate, hnode.named,
    fun _ => ⟨?_, ?_, ?_, ?_, ?_⟩, fun e => ?_⟩
  · omega
  · omega
  · have := hy.1
    rw [grownDir_ptr_zero]
    omega
  · intro i hi
    rw [grownDir_ptr_ne hi]
    exact hok.ptr i hi
  · intro i hi
    rw [hw.dataBlock]
    by_cases hik : i < (v.inode d).fileSize / 128
    · rw [(hw.record_of_lt hmod hik).1]
      exact hok.name i hik
    · obtain rfl : i = (v.inode d).fileSize / 128 := by omega
      exact ⟨name, hname, (NextBlock.record_eq hmod stack hn hnul hlen).1⟩
  · exact absurd (hstate.symm.trans e) (by decide)

/-- INTERNAL: the node refers to the two blocks, and to nothing else. -/
theorem NextBlock.held (hw : NextBlock v w d b y node) (h : Core v) (hd : v.live d)
    (hstate : (v.inode d).state = 2)
    (hnodeOk : NodeOk (recordAdded v w d b y n bytes) (grownDir (v.inode d) y)) {r : Ref} :
    (recordAdded v w d b y n bytes).held d r ↔ r = .ptr 0 ∨ r = .data 0 := by
  have hstate' : (grownDir (v.inode d) y).state = 2 := hstate
  have hok := hnodeOk.dir hstate'
  unfold View.held
  rw [recordAdded_inode, hw.live h hd hstate]
  constructor
  · rintro ⟨-, hr⟩
    cases r with
    | ptr i =>
      by_cases hi : i = 0
      · exact Or.inl (congrArg Ref.ptr hi)
      · exact absurd (hok.ptr i hi) hr
    | data k => exact Or.inr (congrArg Ref.data ((hok.refers_data hstate' k).mp hr).1)
  · rintro (rfl | rfl)
    · have := hw.inData_ptr.1
      refine ⟨hd, ?_⟩
      show (grownDir (v.inode d) y).ptr 0 ≠ 0
      rw [grownDir_ptr_zero]
      omega
    · exact ⟨hd, (hok.refers_data hstate' 0).mpr ⟨rfl, Nat.succ_ne_zero _⟩⟩

theorem NextBlock.place_ptr :
    (recordAdded v w d b y n bytes).place d (.ptr 0) = y := by
  simp only [View.place, recordAdded_inode, grownDir_ptr_zero]

theorem NextBlock.place_data (hw : NextBlock v w d b y node) :
    (recordAdded v w d b y n bytes).place d (.data 0) = b := by
  simp only [View.place, recordAdded_inode, hw.dataBlock]

/-- INTERNAL: what the directory held before it holds where it was. -/
theorem NextBlock.kept (hw : NextBlock v w d b y node) (h : Core v) (hd : v.live d)
    (hstate : (v.inode d).state = 2)
    (hnodeOk : NodeOk (recordAdded v w d b y n bytes) (grownDir (v.inode d) y)) {r : Ref}
    (hr : v.held d r) : (recordAdded v w d b y n bytes).held d r ∧
      (recordAdded v w d b y n bytes).place d r = v.place d r := by
  have hok := (h.node d hd).dir hstate
  rw [hw.held h hd hstate hnodeOk]
  cases r with
  | ptr i =>
    have hi : i = 0 := by
      by_contra hi
      exact hr.2 (hok.ptr i hi)
    subst hi
    rcases hw.own with ⟨-, hyv, -⟩ | ⟨hzero, -⟩
    · exact ⟨Or.inl rfl, NextBlock.place_ptr.trans hyv⟩
    · exact absurd (hok.ptr_zero.mpr hzero) hr.2
  | data k =>
    obtain ⟨rfl, hne⟩ := (hok.refers_data hstate k).mp hr.2
    rcases hw.own with ⟨-, -, hbv, -⟩ | ⟨hzero, -⟩
    · exact ⟨Or.inr rfl, hw.place_data.trans hbv⟩
    · exact absurd hzero hne

/-- INTERNAL: **the blocks keep their one owner**: those of the directory are its own as before,
or both are new to it. -/
theorem NextBlock.core (hw : NextBlock v w d b y node) (h : Core v) (hd : v.live d)
    (hstate : (v.inode d).state = 2)
    (hnodeOk : NodeOk (recordAdded v w d b y n bytes) (grownDir (v.inode d) y)) :
    Core (recordAdded v w d b y n bytes) := by
  have hok := (h.node d hd).dir hstate
  have hin : ∀ r, (recordAdded v w d b y n bytes).held d r →
      (recordAdded v w d b y n bytes).InData ((recordAdded v w d b y n bytes).place d r) := by
    intro r hr
    rcases (hw.held h hd hstate hnodeOk).mp hr with rfl | rfl
    · rw [NextBlock.place_ptr]
      exact hw.inData_ptr
    · rw [hw.place_data]
      exact hw.inData
  refine h.change (hw.others h hd hstate) (fun _ => (v.inode d).fileSize = 0) ?_
    (fun _ => recordAdded_inode ▸ hnodeOk) ?_ ?_ ?_ ?_
  · rintro rfl
    have hb := hw.inData.1
    have hy := hw.inData_ptr.1
    refine ⟨?_, by rw [recordAdded_inode]; exact hstate⟩
    rw [recordAdded_used, hw.used 2 (by omega) (by omega)]
    exact h.metadata 2 le_rfl
  · intro _ hd0
    rw [recordAdded_inode]
    exact h.parent d hd hd0
  · intro r hr hne
    have hheld : v.held d r := by
      rcases (hw.held h hd hstate hnodeOk).mp hr with rfl | rfl
      · exact ⟨hd, fun e => hne (hok.ptr_zero.mp e)⟩
      · exact ⟨hd, (hok.refers_data hstate 0).mpr ⟨rfl, hne⟩⟩
    have hplace := (hw.kept h hd hstate hnodeOk hheld).2
    exact ⟨hheld, hplace, hplace ▸ hin r hr⟩
  · intro r hr hzero
    refine ⟨not_inData ?_, hin r hr⟩
    rcases hw.own with ⟨hne, -⟩ | ⟨-, hyfree, hbfree⟩
    · exact absurd hzero hne
    · rcases (hw.held h hd hstate hnodeOk).mp hr with rfl | rfl
      · rwa [NextBlock.place_ptr]
      · rwa [hw.place_data]
  · intro r q hr _ hq _ he
    rcases (hw.held h hd hstate hnodeOk).mp hr with rfl | rfl <;>
      rcases (hw.held h hd hstate hnodeOk).mp hq with rfl | rfl
    · rfl
    · rw [NextBlock.place_ptr, hw.place_data] at he
      exact absurd he.symm hw.ne
    · rw [NextBlock.place_ptr, hw.place_data] at he
      exact absurd he hw.ne
    · rfl

/-- INTERNAL: **the records are those before and the new one.** -/
theorem NextBlock.records (hw : NextBlock v w d b y node)
    (hmod : (v.inode d).fileSize % 128 = 0) (stack : Bytes) (hn : n < 2 ^ 32)
    (hnul : (0 : UInt8) ∉ name) (hlen : name.length < 71) :
    (recordAdded v w d b y n (entryName stack name)).records (grownDir (v.inode d) y) =
      v.records (v.inode d) ++ [(name, n)] := by
  have hcount : (grownDir (v.inode d) y).fileSize / 128 = (v.inode d).fileSize / 128 + 1 :=
    Nat.add_div_right _ (by decide)
  unfold View.records
  rw [hcount, hw.dataBlock, List.range_succ, List.map_append, List.map_singleton,
    (NextBlock.record_eq hmod stack hn hnul hlen).2]
  congr 1
  apply List.map_congr_left
  intro i hi
  exact (hw.record_of_lt hmod (List.mem_range.mp hi)).2

/-- INTERNAL: **appending a record** in the block that is ready for it.
SRCLINE: directory.c:40-56 -/
theorem NextBlock.appended (hw : NextBlock v w d b y node) (h : Core v) (hd : v.live d)
    (hstate : (v.inode d).state = 2) (hsize : (v.inode d).fileSize ≤ 3840) (stack : Bytes)
    (hn : n < 2 ^ 32) (hname : name ≠ []) (hnul : (0 : UInt8) ∉ name) (hlen : name.length < 71) :
    Appended v (recordAdded v w d b y n (entryName stack name)) d name n := by
  have hmod := ((h.node d hd).dir hstate).size
  have hnodeOk := hw.nodeOk h hd hstate hsize stack hn hname hnul hlen
  refine ⟨hw.others h hd hstate, hw.core h hd hstate hnodeOk, hw.live h hd hstate, ?_, ?_, ?_,
    ?_, hw.metadata, ?_, ⟨b, y, hw.used⟩, fun r => hw.kept h hd hstate hnodeOk, ?_, ?_⟩
  · rw [recordAdded_inode]; rfl
  · rw [recordAdded_inode]; rfl
  · rw [recordAdded_inode]; rfl
  · rw [recordAdded_inode]
    exact hw.records hmod stack hn hnul hlen
  · intro hne
    rcases hw.own with ⟨-, -, -, hused, -⟩ | ⟨hzero, -⟩
    · exact hused
    · exact absurd hzero hne
  · intro c hc
    by_cases hcb : c = b
    · exact Or.inr ⟨.data 0, (hw.held h hd hstate hnodeOk).mpr (Or.inr rfl),
        hw.place_data.trans hcb.symm⟩
    · by_cases hcy : c = y
      · exact Or.inr ⟨.ptr 0, (hw.held h hd hstate hnodeOk).mpr (Or.inl rfl),
          NextBlock.place_ptr.trans hcy.symm⟩
      · exact Or.inl ((hw.used c hcb hcy).symm.trans hc)
  · intro hzero
    rcases hw.own with ⟨hne, -⟩ | ⟨-, hyfree, hbfree⟩
    · exact absurd hzero hne
    · exact two_le_freeCount hw.inData.1 hw.inData.2.1 hw.inData_ptr.1 hw.inData_ptr.2.1 hw.ne
        hbfree hyfree

end NextBlock

variable {E : Fault → View → Prop} {node : Node}

/-- INTERNAL: the position behind the records of a directory. SRCLINE: directory.c:113-124 -/
theorem getNextWritePosition_dir (hnode : inodeOfNode node = v.inode d)
    (hsize : (v.inode d).fileSize ≤ 3968) :
    getNextWritePosition node = ⟨0, 0, (v.inode d).fileSize⟩ := by
  have hfs : node.fileSize = (v.inode d).fileSize := by rw [← hnode]; rfl
  simp only [getNextWritePosition, blockSize, DataPosition.mk.injEq, hfs]
  omega

/-- INTERNAL: the data block for the next record: the one there is, or a new one in a new
pointer block. SRCLINE: directory.c:194-213 -/
theorem vwp_readNextDataBlock {Q : ℕ × Node → View → Prop} (h : Core v) (hd : v.live d)
    (hstate : (v.inode d).state = 2) (hnode : inodeOfNode node = v.inode d) (byteNum : ℕ)
    (hfull : (v.inode d).fileSize ≠ 0 → Q (v.dataBlock (v.inode d) 0, node) v)
    (hempty : (v.inode d).fileSize = 0 → ∀ x y, 34 ≤ x → x < 3000 → 34 ≤ y → y < 3000 →
      x ≠ y → v.used x = false → v.used y = false →
      Q (x, { node with indirectPointerBlock := Function.update node.indirectPointerBlock 0 y })
        (setSlot ((v.setUsed y true).setUsed x true) y 0 x))
    (hE : ∀ e w, NoFirstRecord v d e w → E e w) :
    vwp (readNextDataBlock node ⟨0, 0, byteNum⟩) Q E v := by
  have hok := (h.node d hd).dir hstate
  have hptr : node.indirectPointerBlock 0 = (v.inode d).ptr 0 := by rw [← hnode]; rfl
  unfold readNextDataBlock
  dsimp only
  refine vwp_bind (vwp_pointerAt (by omega) ?_)
  by_cases hsize : (v.inode d).fileSize = 0
  · rw [if_pos (by rw [hptr]; exact hok.ptr_zero.mpr hsize)]
    refine vwp_bind (vwp_createPointersBlockInNode (by omega) (fun y hy hy' hfree _ => ?_) ?_)
    · have hptr' : Function.update node.indirectPointerBlock 0 y 0 = y := Function.update_self ..
      refine vwp_bind (vwp_createDataBlockInPointerBlock (by omega) (by omega)
        (by dsimp only; rw [hptr']; exact hy) (by dsimp only; rw [hptr']; exact hy')
        (fun x hx hx' hxfree _ => ?_) ?_)
      · have hxy : x ≠ y := by
          rintro rfl
          rw [View.setUsed_same] at hxfree
          cases hxfree
        rw [View.setUsed_ne _ hxy] at hxfree
        dsimp only
        rw [readBlock_of_lt hx', hptr']
        exact vwp_pure (hempty hsize x y hx hx' hy hy' hxy hxfree hfree)
      · intro e he hfree'
        refine hE e _ ⟨he, hsize, ?_, fun b => View.used_setUsed_true⟩
        have hstep := v.freeCount_setUsed y 34 3000
        omega
    · exact fun e he hfree => hE e _ ⟨he, hsize, by omega, fun _ hb => hb⟩
  · have hdir := dirBlocks h hd hstate
    obtain ⟨h1, h2⟩ := hdir.ptr hsize
    have hne : node.indirectPointerBlock 0 ≠ 0 := by
      rw [hptr]
      exact fun e => hsize (hok.ptr_zero.mp e)
    rw [if_neg hne, hptr, readBlock_of_lt h2]
    refine vwp_bind (vwp_bytesToInt32 h1 h2 (by omega) ?_)
    have hslot : leNat (v.data ((v.inode d).ptr 0)) (0 * 4) 4 = v.dataBlock (v.inode d) 0 := rfl
    rw [hslot, readBlock_of_lt (hdir.data hsize).2]
    exact vwp_pure (hfull hsize)

/-- INTERNAL: the data block that a directory with records has. -/
theorem nextBlock_own (h : Core v) (hd : v.live d) (hstate : (v.inode d).state = 2)
    (hnode : inodeOfNode node = v.inode d) (hne : (v.inode d).fileSize ≠ 0) :
    NextBlock v v d (v.dataBlock (v.inode d) 0) ((v.inode d).ptr 0) node := by
  have hheld : (v.inode d).refers (.data 0) :=
    (((h.node d hd).dir hstate).refers_data hstate 0).mpr ⟨rfl, hne⟩
  have hptr := (h.node d hd).refers_ptr hheld
  refine ⟨rfl, rfl, ?_, fun _ _ _ => rfl, fun _ _ _ => rfl, rfl, ?_, h.inData_data hd hheld,
    h.inData_ptr hd hptr, Or.inl ⟨hne, rfl, rfl, rfl, rfl⟩⟩
  · rw [hnode, Function.update_eq_self]
  · intro e
    have := (h.own.inj d (.data 0) d (.ptr 0) ⟨hd, hheld⟩ ⟨hd, hptr⟩ e).2
    cases this

/-- INTERNAL: a new data block in a new pointer block. -/
theorem nextBlock_new {x y : ℕ} (hnode : inodeOfNode node = v.inode d)
    (hzero : (v.inode d).fileSize = 0) (hx : 34 ≤ x) (hx' : x < 3000) (hy : 34 ≤ y)
    (hy' : y < 3000) (hxy : x ≠ y) (hxfree : v.used x = false) (hyfree : v.used y = false) :
    NextBlock v (setSlot ((v.setUsed y true).setUsed x true) y 0 x) d x y
      { node with indirectPointerBlock := Function.update node.indirectPointerBlock 0 y } := by
  refine ⟨rfl, rfl, ?_, ?_, ?_, ?_, hxy, ⟨hx, hx', ?_⟩, ⟨hy, hy', ?_⟩,
    Or.inr ⟨hzero, hyfree, hxfree⟩⟩
  · have : inodeOfNode { node with
        indirectPointerBlock := Function.update node.indirectPointerBlock 0 y } =
        { inodeOfNode node with ptr := Function.update (inodeOfNode node).ptr 0 y } := rfl
    rw [this, hnode]
  · intro c hcx hcy
    rw [setSlot_used, View.setUsed_ne _ hcx, View.setUsed_ne _ hcy]
  · intro c hcx hcy
    rw [setSlot_data_ne hcy]
    rfl
  · rw [slot_setSlot (by omega), if_pos ⟨rfl, rfl⟩]
  · rw [setSlot_used, View.setUsed_same]
  · rw [setSlot_used, View.setUsed_ne _ (Ne.symm hxy), View.setUsed_same]

/-- INTERNAL: the record in the block that is ready for it. SRCLINE: directory.c:48-55 -/
theorem NextBlock.append {b y : ℕ} (hw : NextBlock v w d b y node) (h : Core v) (hd : v.live d)
    (hstate : (v.inode d).state = 2) (hsize : (v.inode d).fileSize ≤ 3840) (stack : Bytes)
    (hn : n < 2 ^ 32) (hname : name ≠ []) (hnul : (0 : UInt8) ∉ name) (hlen : name.length < 71) :
    Appended v ((putRecord w b (v.inode d).fileSize n (entryName stack name)).setInode d
      (inodeOfNode { node with fileSize := u32 ((node.fileSize : ℤ) + 128) })) d name n := by
  have hfs : node.fileSize = (v.inode d).fileSize := congrArg Inode.fileSize hw.node
  have hgrown : u32 ((node.fileSize : ℤ) + 128) = (v.inode d).fileSize + 128 := by
    have hcast : (node.fileSize : ℤ) + 128 = ((v.inode d).fileSize + 128 : ℕ) := by omega
    rw [hcast, u32_natCast_of_lt (by omega)]
  have hgrown' : inodeOfNode { node with fileSize := u32 ((node.fileSize : ℤ) + 128) } =
      grownDir (v.inode d) y := by
    rw [hgrown]
    have : inodeOfNode { node with fileSize := (v.inode d).fileSize + 128 } =
        { inodeOfNode node with fileSize := (v.inode d).fileSize + 128 } := rfl
    rw [this, hw.node]
    rfl
  rw [hgrown']
  exact hw.appended h hd hstate hsize stack hn hname hnul hlen

/-- INTERNAL: **`add_directory_entry`** appends the record. SRCLINE: directory.c:40-56 -/
theorem vwp_addDirectoryEntry {Q : Node → View → Prop} (h : Core v) (hd : v.live d)
    (hstate : (v.inode d).state = 2) (hsize : (v.inode d).fileSize ≤ 3840)
    (hnode : inodeOfNode node = v.inode d) (hn : n < 2 ^ 32) (hname : name ≠ [])
    (hnul : (0 : UInt8) ∉ name) (hlen : name.length < 71)
    (hQ : ∀ node' w, w.inode = v.inode →
      Appended v (w.setInode d (inodeOfNode node')) d name n → Q node' w)
    (hE : ∀ e w, NoFirstRecord v d e w → E e w) :
    vwp (addDirectoryEntry node name n) Q E v := by
  -- the two stores, once the data block is there
  have hstores : ∀ (stack : Bytes) (b y : ℕ) (node₁ : Node) (w : View),
      NextBlock v w d b y node₁ →
      vwp (do
        store b (v.inode d).fileSize (leBytes n) 4
        store b ((v.inode d).fileSize + 4) (entryName stack name) 124
        return { node₁ with fileSize := u32 (node₁.fileSize + 128) }) Q E w := by
    intro stack b y node₁ w hw
    have hb := hw.inData
    refine vwp_bind (vwp_store hb.1 hb.2.1 (by omega) ?_)
    refine vwp_bind (vwp_store hb.1 hb.2.1 (by omega) (vwp_pure ?_))
    rw [View.setData_same]
    exact hQ _ _ hw.inode (hw.append h hd hstate hsize stack hn hname hnul hlen)
  refine vwp_bind (vwp_malloc fun stack => ?_)
  rw [if_pos (by omega), getNextWritePosition_dir hnode (by omega)]
  refine vwp_bind (vwp_readNextDataBlock h hd hstate hnode _ (fun hne => ?_)
    (fun hzero x y hx hx' hy hy' hxy hxfree hyfree => ?_) hE)
  · exact hstores stack _ _ node v (nextBlock_own h hd hstate hnode hne)
  · exact hstores stack x y _ _ (nextBlock_new hnode hzero hx hx' hy hy' hxy hxfree hyfree)

end Append

/-! ## Removing -/

/-- From `v` to `w` the directory `d` lost its first record under `name`, which led to
`n`. -/
structure Removed (v w : View) (d : ℕ) (name : List UInt8) (n : ℕ) : Prop where
  others : Others d v w
  core : Core w
  live : ∀ m, w.live m ↔ v.live m
  state : (w.inode d).state = (v.inode d).state
  named : (w.inode d).name = (v.inode d).name
  parentBlock : (w.inode d).parentBlock = (v.inode d).parentBlock
  fileSize : (w.inode d).fileSize = (v.inode d).fileSize - 128
  records : ∃ l₁ l₂, v.records (v.inode d) = l₁ ++ (name, n) :: l₂ ∧
    (∀ r ∈ l₁, r.1 ≠ name) ∧ w.records (w.inode d) = l₁ ++ l₂
  metadata : w.metadata = v.metadata
  used : w.used = v.used
  own : (v.inode d).fileSize ≠ 128 → ∀ r, v.held d r → w.held d r ∧ w.place d r = v.place d r

section Remove

variable {v : View} {d n : ℕ} {name : List UInt8}

/-- The view after the records of the block `b` behind the `k`-th were moved down by one. -/
def moveDown (v : View) (b k : ℕ) : View :=
  v.setData b (memcpy (v.data b) (128 * k) (fun i => v.data b (128 * k + 128 + i))
    (4096 - (128 * k + 128)))

/-- INTERNAL: the bytes after the move. SRCLINE: directory.c:70-75 -/
theorem byte_moveDown {b k i t : ℕ} (hi : i < 31) (ht : t < 128) :
    (moveDown v b k).data b (i * 128 + t) = v.data b ((if i < k then i else i + 1) * 128 + t) := by
  rw [moveDown, View.setData_same]
  by_cases hik : i < k
  · rw [if_pos hik, memcpy_outside (by omega)]
  · obtain ⟨e, rfl⟩ : ∃ e, i = k + e := ⟨i - k, by omega⟩
    rw [if_neg hik, show (k + e) * 128 + t = 128 * k + (128 * e + t) by omega,
      memcpy_inside (by omega)]
    congr 1
    omega

/-- INTERNAL: the records after the move. SRCLINE: directory.c:70-75 -/
theorem record_moveDown {b k i : ℕ} (hi : i < 31) :
    cstr ((moveDown v b k).data b) (i * 128 + 4) 71 =
        cstr (v.data b) ((if i < k then i else i + 1) * 128 + 4) 71 ∧
      (moveDown v b k).record b i = v.record b (if i < k then i else i + 1) := by
  have hname : cstr ((moveDown v b k).data b) (i * 128 + 4) 71 =
      cstr (v.data b) ((if i < k then i else i + 1) * 128 + 4) 71 :=
    cstr_congr fun j hj => by rw [Nat.add_assoc, Nat.add_assoc, byte_moveDown hi (by omega)]
  refine ⟨hname, ?_⟩
  unfold View.record
  rw [hname]
  congr 1
  exact leNat_congr fun j hj => byte_moveDown hi (by omega)

/-- The node of a directory after it lost a record. -/
def shrunkDir (nd : Inode) : Inode :=
  { nd with
    fileSize := nd.fileSize - 128
    ptr := if nd.fileSize - 128 = 0 then Function.update nd.ptr 0 0 else nd.ptr }

theorem shrunkDir_fileSize (nd : Inode) : (shrunkDir nd).fileSize = nd.fileSize - 128 := by
  simp only [shrunkDir]

theorem shrunkDir_fields (nd : Inode) :
    (shrunkDir nd).state = nd.state ∧ (shrunkDir nd).name = nd.name ∧
      (shrunkDir nd).parentBlock = nd.parentBlock ∧
      (shrunkDir nd).creationDate = nd.creationDate ∧
      (shrunkDir nd).modificationDate = nd.modificationDate := by
  simp only [shrunkDir, and_self]

/-- The view after the record `k` of the directory `d` was taken out. -/
def takenOut (v : View) (d k : ℕ) : View :=
  (moveDown v (v.dataBlock (v.inode d) 0) k).setInode d (shrunkDir (v.inode d))

/-- INTERNAL: what a directory refers to after it lost a record it referred to before.
SRCLINE: directory.c:75-82 -/
theorem shrunkDir_refers {nd : Inode} (hok : DirOk v nd) (hstate : nd.state = 2) {r : Ref}
    (hr : (shrunkDir nd).refers r) : nd.refers r ∧ nd.fileSize - 128 ≠ 0 := by
  have hle := hok.size_le
  have hne : nd.fileSize - 128 ≠ 0 := by
    intro hzero
    cases r with
    | ptr i =>
      simp only [Inode.refers, shrunkDir, if_pos hzero] at hr
      by_cases hi : i = 0
      · subst hi
        exact hr (Function.update_self ..)
      · exact hr (by rw [Function.update_of_ne hi]; exact hok.ptr i hi)
    | data k =>
      have hstate' : (shrunkDir nd).state = 2 := by rw [(shrunkDir_fields nd).1, hstate]
      simp only [Inode.refers, blocks_dir hstate'] at hr
      rw [shrunkDir_fileSize, if_pos hzero] at hr
      omega
  refine ⟨?_, hne⟩
  cases r with
  | ptr i =>
    simp only [Inode.refers, shrunkDir, if_neg hne] at hr
    exact hr
  | data k =>
    rw [hok.refers_data hstate]
    have hstate' : (shrunkDir nd).state = 2 := by rw [(shrunkDir_fields nd).1, hstate]
    simp only [Inode.refers, blocks_dir hstate', shrunkDir_fileSize] at hr
    rw [if_neg hne] at hr
    omega

/-- INTERNAL: the pointers of a directory that lost a record. SRCLINE: directory.c:75-82 -/
theorem shrunkDir_ptr {nd : Inode} (hok : DirOk v nd) (i : ℕ) :
    (shrunkDir nd).ptr i = if nd.fileSize - 128 = 0 then 0 else nd.ptr i := by
  simp only [shrunkDir]
  split
  · by_cases hi : i = 0
    · subst hi
      exact Function.update_self ..
    · rw [Function.update_of_ne hi]
      exact hok.ptr i hi
  · rfl

theorem shrunkDir_fits {nd : Inode} (hok : DirOk v nd) (h : nd.Fits) : (shrunkDir nd).Fits := by
  obtain ⟨-, -, hfparent, hfcreation, hfmodification⟩ := shrunkDir_fields nd
  refine ⟨?_, ?_, ?_, ?_, fun i => ?_, fun i hi => ?_⟩
  · rw [hfparent]
    exact h.parentBlock
  · rw [shrunkDir_fileSize]
    exact lt_of_le_of_lt (Nat.sub_le _ _) h.fileSize
  · rw [hfcreation]
    exact h.creationDate
  · rw [hfmodification]
    exact h.modificationDate
  · rw [shrunkDir_ptr hok]
    split
    · decide
    · exact h.ptr i
  · rw [shrunkDir_ptr hok]
    split
    · rfl
    · exact h.ptr_past i hi

section TakenOut

variable {k : ℕ}

theorem takenOut_inode : (takenOut v d k).inode d = shrunkDir (v.inode d) :=
  View.setInode_same ..

theorem takenOut_used : (takenOut v d k).used = v.used := rfl

theorem takenOut_live (m : ℕ) : (takenOut v d k).live m ↔ v.live m := Iff.rfl

theorem takenOut_data_ne {c : ℕ} (hc : c ≠ v.dataBlock (v.inode d) 0) :
    (takenOut v d k).data c = v.data c := by
  show (moveDown v (v.dataBlock (v.inode d) 0) k).data c = v.data c
  rw [moveDown, View.setData_ne _ hc]

/-- INTERNAL: a directory with records holds its two blocks. -/
theorem held_of_records (h : Core v) (hd : v.live d) (hstate : (v.inode d).state = 2)
    (hsize : (v.inode d).fileSize ≠ 0) : v.held d (.ptr 0) ∧ v.held d (.data 0) := by
  have hok := (h.node d hd).dir hstate
  exact ⟨⟨hd, fun e => hsize (hok.ptr_zero.mp e)⟩,
    hd, (hok.refers_data hstate 0).mpr ⟨rfl, hsize⟩⟩

/-- INTERNAL: only the data block of the directory changed. -/
theorem takenOut_others (h : Core v) (hd : v.live d) (hstate : (v.inode d).state = 2)
    (hsize : (v.inode d).fileSize ≠ 0) : Others d v (takenOut v d k) := by
  have hheld := (held_of_records h hd hstate hsize).2
  apply Others.of_touched h hd.1 fun c => c = v.dataBlock (v.inode d) 0
  · rintro c rfl
    exact Or.inr ⟨(h.inData hheld).1, Or.inr ⟨.data 0, hheld, rfl⟩⟩
  · intro m hm
    rw [takenOut, View.setInode_ne _ hm]
    rfl
  · intro c _
    rw [takenOut_used]
  · exact fun c => takenOut_data_ne

/-- INTERNAL: while records are left the data block is still reached. -/
theorem takenOut_dataBlock (h : Core v) (hd : v.live d) (hstate : (v.inode d).state = 2)
    (hne : (v.inode d).fileSize - 128 ≠ 0) :
    (takenOut v d k).dataBlock (shrunkDir (v.inode d)) 0 = v.dataBlock (v.inode d) 0 := by
  obtain ⟨hptr, hheld⟩ := held_of_records h hd hstate (by omega)
  have hother : (v.inode d).ptr 0 ≠ v.dataBlock (v.inode d) 0 := by
    intro e
    have := (h.own.inj d (.ptr 0) d (.data 0) hptr hheld e).2
    cases this
  simp only [View.dataBlock, View.slot, Nat.zero_div, shrunkDir_ptr ((h.node d hd).dir hstate),
    if_neg hne]
  rw [takenOut_data_ne hother]

/-- INTERNAL: the record `i` is now the one that was `i`-th without the record `k`. -/
theorem takenOut_record (h : Core v) (hd : v.live d) (hstate : (v.inode d).state = 2) {i : ℕ}
    (hi : i < (v.inode d).fileSize / 128 - 1) :
    cstr ((takenOut v d k).data ((takenOut v d k).dataBlock (shrunkDir (v.inode d)) 0))
        (i * 128 + 4) 71 =
        cstr (v.data (v.dataBlock (v.inode d) 0)) ((if i < k then i else i + 1) * 128 + 4) 71 ∧
      (takenOut v d k).record ((takenOut v d k).dataBlock (shrunkDir (v.inode d)) 0) i =
        v.record (v.dataBlock (v.inode d) 0) (if i < k then i else i + 1) := by
  have hle := ((h.node d hd).dir hstate).size_le
  rw [takenOut_dataBlock h hd hstate (by omega)]
  exact record_moveDown (by omega)

/-- INTERNAL: the node without the record is that of a directory.
SRCLINE: directory.c:58-83 -/
theorem takenOut_nodeOk (h : Core v) (hd : v.live d) (hstate : (v.inode d).state = 2)
    (hsize : (v.inode d).fileSize ≠ 0) : NodeOk (takenOut v d k) (shrunkDir (v.inode d)) := by
  have hnode := h.node d hd
  have hok := hnode.dir hstate
  have hmod := hok.size
  have hle := hok.size_le
  have hshrunk := shrunkDir_fileSize (v.inode d)
  obtain ⟨hfstate, hfname, -⟩ := shrunkDir_fields (v.inode d)
  have hstate' : (shrunkDir (v.inode d)).state = 2 := hfstate.trans hstate
  refine ⟨shrunkDir_fits hok hnode.fits, Or.inr hstate', by rw [hfname]; exact hnode.named,
    fun _ => ⟨by omega, by omega, ?_, fun i hi => ?_, fun i hi => ?_⟩, fun e => ?_⟩
  · rw [shrunkDir_ptr hok, hshrunk]
    split
    next hzero => simp only [hzero]
    next hne =>
      have hptr := (held_of_records h hd hstate hsize).1.2
      exact iff_of_false hptr hne
  · rw [shrunkDir_ptr hok, hok.ptr i hi, ite_self]
  · rw [hshrunk] at hi
    rw [(takenOut_record h hd hstate (by omega)).1]
    exact hok.name _ (by split <;> omega)
  · exact absurd (hstate'.symm.trans e) (by decide)

/-- INTERNAL: what the directory holds now it held before, in the same place. -/
theorem takenOut_held (h : Core v) (hd : v.live d) (hstate : (v.inode d).state = 2) {r : Ref}
    (hr : (takenOut v d k).held d r) :
    v.held d r ∧ (takenOut v d k).place d r = v.place d r := by
  have hok := (h.node d hd).dir hstate
  obtain ⟨hr', hne⟩ := shrunkDir_refers hok hstate (takenOut_inode ▸ hr.2)
  refine ⟨⟨hd, hr'⟩, ?_⟩
  cases r with
  | ptr i => simp only [View.place, takenOut_inode, shrunkDir_ptr hok, if_neg hne]
  | data j =>
    obtain ⟨rfl, -⟩ := (hok.refers_data hstate j).mp hr'
    simp only [View.place, takenOut_inode]
    exact takenOut_dataBlock h hd hstate hne

/-- INTERNAL: while records are left the directory keeps its blocks. -/
theorem takenOut_kept (h : Core v) (hd : v.live d) (hstate : (v.inode d).state = 2)
    (hne : (v.inode d).fileSize - 128 ≠ 0) {r : Ref} (hr : v.held d r) :
    (takenOut v d k).held d r ∧ (takenOut v d k).place d r = v.place d r := by
  have hok := (h.node d hd).dir hstate
  have hheld : (takenOut v d k).held d r := by
    refine ⟨hd, ?_⟩
    rw [takenOut_inode]
    cases r with
    | ptr i =>
      show (shrunkDir (v.inode d)).ptr i ≠ 0
      rw [shrunkDir_ptr hok, if_neg hne]
      exact hr.2
    | data j =>
      obtain ⟨rfl, -⟩ := (hok.refers_data hstate j).mp hr.2
      have hok' := takenOut_nodeOk (k := k) h hd hstate (by omega)
      have hstate' : (shrunkDir (v.inode d)).state = 2 :=
        (shrunkDir_fields (v.inode d)).1.trans hstate
      rw [(hok'.dir hstate').refers_data hstate', shrunkDir_fileSize]
      exact ⟨rfl, hne⟩
  exact ⟨hheld, (takenOut_held h hd hstate hheld).2⟩

theorem takenOut_core (h : Core v) (hd : v.live d) (hstate : (v.inode d).state = 2)
    (hsize : (v.inode d).fileSize ≠ 0) : Core (takenOut v d k) := by
  have hnodeOk := takenOut_nodeOk (k := k) h hd hstate hsize
  obtain ⟨hfstate, -, hfparent, -⟩ := shrunkDir_fields (v.inode d)
  refine h.change (takenOut_others h hd hstate hsize) (fun _ => False) ?_
    (fun _ => takenOut_inode ▸ hnodeOk) ?_ ?_ ?_ ?_
  · rintro rfl
    refine ⟨h.metadata 2 le_rfl, ?_⟩
    rw [takenOut_inode, hfstate]
    exact hstate
  · intro _ hd0
    rw [takenOut_inode, hfparent]
    exact h.parent d hd hd0
  · intro r hr _
    obtain ⟨hold, hplace⟩ := takenOut_held h hd hstate hr
    exact ⟨hold, hplace, h.inData hold⟩
  · exact fun _ _ hf => hf.elim
  · exact fun _ _ _ hf => hf.elim

/-- INTERNAL: **the records are those before without the one.** -/
theorem takenOut_records (h : Core v) (hd : v.live d) (hstate : (v.inode d).state = 2)
    {l₁ l₂ : List Record} (hrecords : v.records (v.inode d) = l₁ ++ (name, n) :: l₂) :
    (takenOut v d l₁.length).records (shrunkDir (v.inode d)) = l₁ ++ l₂ := by
  have hlen : (v.inode d).fileSize / 128 = l₁.length + (l₂.length + 1) := by
    rw [← length_records (v := v), hrecords, List.length_append, List.length_cons]
  have hcount : (shrunkDir (v.inode d)).fileSize / 128 = l₁.length + l₂.length := by
    rw [shrunkDir_fileSize]
    omega
  have herase : l₁ ++ l₂ = (v.records (v.inode d)).eraseIdx l₁.length := by
    rw [hrecords, List.eraseIdx_append_of_length_le le_rfl]
    simp
  rw [herase]
  unfold View.records
  rw [hcount, hlen]
  apply List.ext_getElem?
  intro i
  rw [List.getElem?_eraseIdx, List.getElem?_map, List.getElem?_map, List.getElem?_map]
  by_cases hi : i < l₁.length + l₂.length
  · rw [List.getElem?_range hi, Option.map_some, (takenOut_record h hd hstate (by omega)).2]
    split
    · rw [List.getElem?_range (by omega), Option.map_some]
    · rw [List.getElem?_range (by omega), Option.map_some]
  · rw [if_neg (by omega), List.getElem?_eq_none (by rw [List.length_range]; omega),
      List.getElem?_eq_none (by rw [List.length_range]; omega), Option.map_none, Option.map_none]

end TakenOut

/-- INTERNAL: **taking a record out.**  The directory keeps its blocks while it has records;
when it has none left it forgets them, and nobody holds them any more.
SRCLINE: directory.c:58-83 -/
theorem removed (h : Core v) (hd : v.live d) (hstate : (v.inode d).state = 2)
    {l₁ l₂ : List Record} (hrecords : v.records (v.inode d) = l₁ ++ (name, n) :: l₂)
    (hfirst : ∀ r ∈ l₁, r.1 ≠ name) :
    Removed v (takenOut v d l₁.length) d name n := by
  have hlen : (v.inode d).fileSize / 128 = l₁.length + (l₂.length + 1) := by
    rw [← length_records (v := v), hrecords, List.length_append, List.length_cons]
  have hsize : (v.inode d).fileSize ≠ 0 := by omega
  have hmod := ((h.node d hd).dir hstate).size
  obtain ⟨hfstate, hfname, hfparent, -⟩ := shrunkDir_fields (v.inode d)
  refine ⟨takenOut_others h hd hstate hsize, takenOut_core h hd hstate hsize, takenOut_live,
    ?_, ?_, ?_, ?_, ⟨l₁, l₂, hrecords, hfirst, ?_⟩, rfl, rfl, fun hmore r => ?_⟩
  · rw [takenOut_inode, hfstate]
  · rw [takenOut_inode, hfname]
  · rw [takenOut_inode, hfparent]
  · rw [takenOut_inode, shrunkDir_fileSize]
  · rw [takenOut_inode]
    exact takenOut_records h hd hstate hrecords
  · exact takenOut_kept h hd hstate (by omega)

variable {E : Fault → View → Prop} {node : Node}

/-- INTERNAL: **`delete_directory_entry`** moves the records behind the first one with the
name down, if there is one.  Nothing is asked of the other nodes: `sac_remove` calls it
while the blocks of the file are already released. SRCLINE: directory.c:58-83 -/
theorem vwp_deleteDirectoryEntry {Q : Node → View → Prop} {nd : Inode} (hstate : nd.state = 2)
    (hdir : DirBlocks v nd) (hnode : inodeOfNode node = nd) (hname : name ≠ [])
    (hQ : ∀ node' l₁ m l₂, v.records nd = l₁ ++ (name, m) :: l₂ → (∀ r ∈ l₁, r.1 ≠ name) →
      inodeOfNode node' = shrunkDir nd → Q node' (moveDown v (v.dataBlock nd 0) l₁.length))
    (hmissing : (∀ r ∈ v.records nd, r.1 ≠ name) → Q node v) :
    vwp (deleteDirectoryEntry node name) Q E v := by
  have hle := hdir.ok.size_le
  subst hnode
  have hfs : node.fileSize = (inodeOfNode node).fileSize := rfl
  refine vwp_bind (vwp_findEntry hstate hdir hname fun e he => ?_)
  dsimp only
  cases he with
  | missing none invalid nodeNum =>
    rw [if_neg (by rw [invalid]; decide)]
    exact vwp_pure (hmissing none)
  | found l₁ l₂ m hrecords first name_eq nodeNum blockNum byteNum =>
    have hlen : node.fileSize / 128 = l₁.length + (l₂.length + 1) := by
      rw [hfs, ← length_records (v := v), hrecords, List.length_append, List.length_cons]
    obtain ⟨hb, hb'⟩ := hdir.data (by omega)
    rw [if_pos (by rw [isValidEntry_iff, name_eq]; exact hname), blockNum, byteNum,
      readBlock_of_lt hb']
    refine vwp_bind (vwp_load hb hb' (by omega) ?_)
    refine vwp_bind (vwp_load hb hb' (by simp only [dirEntrySize, blockSize]; omega) ?_)
    refine vwp_bind (vwp_store hb hb' (by simp only [dirEntrySize, blockSize]; omega) ?_)
    have hsize : u32 ((node.fileSize : ℤ) - dirEntrySize) = node.fileSize - 128 := by
      have hcast : (node.fileSize : ℤ) - dirEntrySize = (node.fileSize - 128 : ℕ) := by
        simp only [dirEntrySize]
        omega
      rw [hcast, u32_natCast_of_lt (by omega)]
    rw [hsize]
    split
    next hzero =>
      refine vwp_setPointer (by omega) (hQ _ l₁ m l₂ hrecords first ?_)
      rw [hfs] at hzero
      unfold shrunkDir
      rw [if_pos hzero]
      rfl
    next hne =>
      refine vwp_pure (hQ _ l₁ m l₂ hrecords first ?_)
      rw [hfs] at hne
      unfold shrunkDir
      rw [if_neg hne]
      rfl

end Remove

end LinuseFs.Analysis
