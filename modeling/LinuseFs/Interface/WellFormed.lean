import LinuseFs.Interface.View
import LinuseFs.Computation.Namespace
import LinuseFs.Computation.Exclusive
import Mathlib.Data.Fintype.Card
import Mathlib.Data.Set.Finite.Basic

/-!
# Well-formed file systems

What a view stands for: the slots of a pointer block, the data blocks of a node, the
records of a directory, and from these the namespace (`View.tree`) and the blocks each
node holds (`View.held`, `View.place`).  `Inv` says that the namespace is a tree but for
an orphan, that each node has the pointers its size asks for, and that no block is held
twice.  It is kept by every operation, whatever the bytes of free blocks are.

A directory has its records in one data block: with 32 nodes there are at most 31.
-/

set_option autoImplicit false

namespace LinuseFs.Interface

open LinuseFs.Computation LinuseFs.Model

/-- A name in a directory, with the node it leads to. -/
abbrev Record := List UInt8 × ℕ

/-- A place in a node from which a block is reached: a pointer, or a block of its data. -/
inductive Ref
  | ptr (i : ℕ)
  | data (k : ℕ)
  deriving DecidableEq, Repr

/-- How many data blocks the code looks up in a node: for a file, those up to the one of
its size, if it has a pointer at all; for a directory, those of its records. -/
def Inode.blocks (nd : Inode) : ℕ :=
  if nd.state = 1 then if nd.ptr 0 = 0 then 0 else nd.fileSize / 4096 + 1
  else if nd.fileSize = 0 then 0
  else (nd.fileSize - 1) / 4096 + 1

/-- The node refers to a block at this place. -/
def Inode.refers (nd : Inode) : Ref → Prop
  | .ptr i => nd.ptr i ≠ 0
  | .data k => k < nd.blocks

namespace View

variable (v : View)

/-- The number in slot `j` of the pointer block `p`. -/
def slot (p j : ℕ) : ℕ := leNat (v.data p) (j * 4) 4

/-- The number of the `k`-th data block of a node. -/
def dataBlock (nd : Inode) (k : ℕ) : ℕ := v.slot (nd.ptr (k / 1024)) (k % 1024)

/-- The `k`-th record in a data block. -/
def record (b k : ℕ) : Record :=
  ((cstr (v.data b) (k * 128 + 4) 71).getD [], leNat (v.data b) (k * 128) 4)

/-- The records of a directory. -/
def records (nd : Inode) : List Record :=
  (List.range (nd.fileSize / 128)).map (v.record (v.dataBlock nd 0))

/-- The slot `n` of the node table is in use. -/
def live (n : ℕ) : Prop := n < 32 ∧ v.used (2 + n) = true

instance (n : ℕ) : Decidable (v.live n) := inferInstanceAs (Decidable (_ ∧ _))

/-- The namespace of the nodes in use. -/
def tree : Namespace ℕ (List UInt8) where
  live := v.live
  entries := fun n => if v.live n ∧ (v.inode n).state = 2 then v.records (v.inode n) else []
  parent := fun n => (v.inode n).parentBlock - 2

/-- The block a reference of a node refers to. -/
def place (n : ℕ) : Ref → ℕ
  | .ptr i => (v.inode n).ptr i
  | .data k => v.dataBlock (v.inode n) k

/-- The node `n` is in use and refers to a block there. -/
def held (n : ℕ) (r : Ref) : Prop := v.live n ∧ (v.inode n).refers r

/-- A block of the data region that is marked used. -/
def InData (b : ℕ) : Prop := 34 ≤ b ∧ b < 3000 ∧ v.used b = true

end View

/-- A directory: it has a pointer block exactly when it has records, no other pointer
block, and each record has a name. -/
structure DirOk (v : View) (nd : Inode) : Prop where
  size : nd.fileSize % 128 = 0
  size_le : nd.fileSize ≤ 3968
  ptr_zero : nd.ptr 0 = 0 ↔ nd.fileSize = 0
  ptr : ∀ i, i ≠ 0 → nd.ptr i = 0
  name : ∀ k < nd.fileSize / 128, ∃ name, name ≠ [] ∧
    cstr (v.data (v.dataBlock nd 0)) (k * 128 + 4) 71 = some name

/-- A file: without the first pointer it is empty, with it there is a pointer block for
each data block up to the one of its size. -/
structure FileOk (nd : Inode) : Prop where
  empty : nd.ptr 0 = 0 → nd.fileSize = 0
  ptr : nd.ptr 0 ≠ 0 → ∀ i ≤ nd.fileSize / 4096 / 1024, nd.ptr i ≠ 0

/-- A node in use is a file or a directory, and has a name. -/
structure NodeOk (v : View) (nd : Inode) : Prop where
  fits : nd.Fits
  kind : nd.state = 1 ∨ nd.state = 2
  named : nd.name.isSome
  dir : nd.state = 2 → DirOk v nd
  file : nd.state = 1 → FileOk nd

/-- Each node in use is well formed, and no block is held twice. -/
structure Core (v : View) : Prop where
  metadata : ∀ b ≤ 2, v.used b = true
  root : (v.inode 0).state = 2
  node : ∀ n, v.live n → NodeOk v (v.inode n)
  parent : ∀ n, v.live n → n ≠ 0 → 2 ≤ (v.inode n).parentBlock
  own : Exclusive v.held v.place v.InData

/-- **The invariant** of the file system: `Core`, and the namespace is a tree but for the
orphan. -/
structure Inv (v : View) (orphan : Option ℕ) : Prop extends Core v where
  tree : v.tree.WellFormed 0 orphan

/-! ## What the invariant gives -/

section Inv

variable {v v' : View} {nd : Inode} {n m d : ℕ} {orphan : Option ℕ}

theorem blocks_file (h : nd.state = 1) (hptr : nd.ptr 0 ≠ 0) :
    nd.blocks = nd.fileSize / 4096 + 1 := by
  unfold Inode.blocks
  rw [if_pos h, if_neg hptr]

theorem blocks_dir (h : nd.state = 2) :
    nd.blocks = if nd.fileSize = 0 then 0 else (nd.fileSize - 1) / 4096 + 1 := by
  unfold Inode.blocks
  rw [if_neg (by rw [h]; decide)]

/-- INTERNAL: a directory with records has one data block. -/
theorem DirOk.refers_data (h : DirOk v nd) (hstate : nd.state = 2) (k : ℕ) :
    nd.refers (.data k) ↔ k = 0 ∧ nd.fileSize ≠ 0 := by
  have hsize := h.size_le
  simp only [Inode.refers, blocks_dir hstate]
  split <;> omega

/-- INTERNAL: an empty directory refers to no block. -/
theorem DirOk.not_refers {nd : Inode} (h : DirOk v nd) (hstate : nd.state = 2)
    (hzero : nd.fileSize = 0) (r : Ref) : ¬ nd.refers r := by
  cases r with
  | ptr i =>
    by_cases hi : i = 0
    · exact fun hr => hr (by rw [hi]; exact h.ptr_zero.mpr hzero)
    · exact fun hr => hr (h.ptr i hi)
  | data k => exact fun hr => ((h.refers_data hstate k).mp hr).2 hzero

/-- INTERNAL: a node refers to the pointer blocks of the data blocks it refers to. -/
theorem NodeOk.refers_ptr (h : NodeOk v nd) {k : ℕ} (hk : nd.refers (.data k)) :
    nd.ptr (k / 1024) ≠ 0 := by
  rcases h.kind with hstate | hstate
  · have hfile := h.file hstate
    simp only [Inode.refers, Inode.blocks, if_pos hstate] at hk
    by_cases hptr : nd.ptr 0 = 0
    · rw [if_pos hptr] at hk
      omega
    · rw [if_neg hptr] at hk
      exact hfile.ptr hptr _ (by omega)
  · have hdir := h.dir hstate
    obtain ⟨rfl, hsize⟩ := (hdir.refers_data hstate k).mp hk
    exact fun e => hsize (hdir.ptr_zero.mp e)

theorem Core.live_root (h : Core v) : v.live 0 := ⟨by omega, h.metadata 2 le_rfl⟩

theorem Core.inData (h : Core v) {r : Ref} (hr : v.held n r) : v.InData (v.place n r) :=
  h.own.ok n r hr

theorem not_inData {b : ℕ} (h : v.used b = false) : ¬ v.InData b := by
  rintro ⟨-, -, hused⟩
  rw [h] at hused
  cases hused

/-- INTERNAL: a pointer of a node in use is a block of the data region. -/
theorem Core.inData_ptr (h : Core v) (hn : v.live n) {i : ℕ}
    (hi : (v.inode n).ptr i ≠ 0) : v.InData ((v.inode n).ptr i) :=
  h.inData (r := .ptr i) ⟨hn, hi⟩

theorem Core.inData_data (h : Core v) (hn : v.live n) {k : ℕ}
    (hk : (v.inode n).refers (.data k)) : v.InData (v.dataBlock (v.inode n) k) :=
  h.inData (r := .data k) ⟨hn, hk⟩

/-- INTERNAL: a file that is not empty has a first pointer. -/
theorem Core.ptr_ne_zero (h : Core v) (hn : v.live n) (hstate : (v.inode n).state = 1)
    (hsize : (v.inode n).fileSize ≠ 0) : (v.inode n).ptr 0 ≠ 0 :=
  fun e => hsize (((h.node n hn).file hstate).empty e)

/-- INTERNAL: the entries of a directory are its records. -/
theorem entries_dir (hd : v.live d) (hstate : (v.inode d).state = 2) :
    v.tree.entries d = v.records (v.inode d) := by
  simp only [View.tree]
  rw [if_pos ⟨hd, hstate⟩]

theorem entries_of_state_ne (hstate : (v.inode d).state ≠ 2) : v.tree.entries d = [] := by
  simp only [View.tree]
  rw [if_neg fun h => hstate h.2]

@[simp] theorem length_records (nd : Inode) : (v.records nd).length = nd.fileSize / 128 := by
  simp [View.records]

/-- INTERNAL: **there are no more different blocks than the data region has.** -/
theorem le_of_distinct_blocks {f : ℕ → ℕ} {m : ℕ} (hmem : ∀ k < m, 34 ≤ f k ∧ f k < 3000)
    (hinj : ∀ j k, j < m → k < m → f j = f k → j = k) : m ≤ 2966 := by
  let g : Fin m → Fin 2966 := fun k => ⟨f k - 34, by
    obtain ⟨h1, h2⟩ := hmem k k.isLt
    omega⟩
  have hg : Function.Injective g := by
    intro j k hjk
    obtain ⟨hj, -⟩ := hmem j j.isLt
    obtain ⟨hk, -⟩ := hmem k k.isLt
    have heq : f j = f k := by
      have := congrArg Fin.val hjk
      simp only [g] at this
      omega
    exact Fin.ext (hinj j k j.isLt k.isLt heq)
  have := Fintype.card_le_of_injective g hg
  simpa using this

/-- INTERNAL: **a file has no more blocks than the data region**, since they are pairwise
different. -/
theorem Core.blocks_le (h : Core v) (hn : v.live n) : (v.inode n).blocks ≤ 2966 := by
  refine le_of_distinct_blocks (f := v.dataBlock (v.inode n)) (fun k hk => ?_) fun j k hj hk he => ?_
  · obtain ⟨h1, h2, -⟩ := h.inData_data hn hk
    exact ⟨h1, h2⟩
  · have := (h.own.inj n (.data j) n (.data k) ⟨hn, hj⟩ ⟨hn, hk⟩ he).2
    exact Ref.data.inj this

/-- INTERNAL: **a directory has at most one record for each node** other than the root
and the orphan. -/
theorem Inv.records_le (h : Inv v orphan) (hd : v.live d) (hstate : (v.inode d).state = 2) :
    (v.inode d).fileSize / 128 ≤ 31 ∧
      ∀ n, orphan = some n → v.live n → n ≠ 0 → (v.inode d).fileSize / 128 ≤ 30 := by
  have hlen : (v.tree.targets d).length = (v.inode d).fileSize / 128 := by
    rw [Namespace.targets, List.length_map, entries_dir hd hstate, length_records]
  have hnodup := h.tree.targets_nodup d hd
  have hmem : ∀ n ∈ v.tree.targets d, n ∈ (Finset.range 32).erase 0 := by
    intro n hn
    rw [Finset.mem_erase, Finset.mem_range]
    exact ⟨h.tree.target_ne_root d hd n hn, (h.tree.target_live d hd n hn).1⟩
  rw [← hlen, ← List.toFinset_card_of_nodup hnodup]
  constructor
  · have hsub : (v.tree.targets d).toFinset ⊆ (Finset.range 32).erase 0 := by
      intro n hn
      exact hmem n (List.mem_toFinset.mp hn)
    exact (Finset.card_le_card hsub).trans (by decide)
  · rintro n rfl hn hn0
    have hsub : (v.tree.targets d).toFinset ⊆ ((Finset.range 32).erase 0).erase n := by
      intro m hm
      rw [List.mem_toFinset] at hm
      rw [Finset.mem_erase]
      exact ⟨fun e => h.tree.target_ne_orphan d hd m hm (by rw [e]), hmem m hm⟩
    have hcard : (((Finset.range 32).erase 0).erase n).card = 30 := by
      rw [Finset.card_erase_of_mem, Finset.card_erase_of_mem, Finset.card_range]
      · simp
      · rw [Finset.mem_erase, Finset.mem_range]
        exact ⟨hn0, hn.1⟩
    exact (Finset.card_le_card hsub).trans hcard.le

end Inv

/-! ## Changes to one node -/

/-- From `v` to `v'` nothing changed but the node `n` and blocks that no other node
holds. -/
structure Others (n : ℕ) (v v' : View) : Prop where
  metadata : ∀ b ≤ 2, b ≠ 2 + n → v'.used b = v.used b
  inode : ∀ m, m ≠ n → v'.inode m = v.inode m
  live : ∀ m, m ≠ n → (v'.live m ↔ v.live m)
  used : ∀ m r, m ≠ n → v.held m r → v'.used (v.place m r) = true
  data : ∀ m r, m ≠ n → v.held m r → v'.data (v.place m r) = v.data (v.place m r)

section Others

variable {v v' v'' : View} {n m : ℕ}

theorem Others.refl (h : Core v) (n : ℕ) : Others n v v :=
  ⟨fun _ _ _ => rfl, fun _ _ => rfl, fun _ _ => Iff.rfl,
    fun _ _ _ hr => (h.inData hr).2.2, fun _ _ _ _ => rfl⟩

/-- INTERNAL: **nothing of the others is touched** when only the bit of the node, unused
blocks and blocks of the node change. -/
theorem Others.of_touched (h : Core v) (hn : n < 32) (touched : ℕ → Prop)
    (htouched : ∀ b, touched b →
      b = 2 + n ∨ (34 ≤ b ∧ (v.used b = false ∨ ∃ r, v.held n r ∧ v.place n r = b)))
    (hinode : ∀ m, m ≠ n → v'.inode m = v.inode m)
    (hused : ∀ b, ¬ touched b → v'.used b = v.used b)
    (hdata : ∀ b, ¬ touched b → v'.data b = v.data b) : Others n v v' := by
  have hlow : ∀ b < 34, b ≠ 2 + n → v'.used b = v.used b := by
    intro b hb hbn
    apply hused b
    intro ht
    rcases htouched b ht with rfl | ⟨hge, -⟩
    · exact hbn rfl
    · omega
  have hplace : ∀ m r, m ≠ n → v.held m r → ¬ touched (v.place m r) := by
    intro m r hm hr ht
    obtain ⟨hge, -, hmarked⟩ := h.own.ok m r hr
    rcases htouched _ ht with e | ⟨-, hfree | ⟨q, hq, e⟩⟩
    · omega
    · rw [hmarked] at hfree
      cases hfree
    · exact hm (h.own.inj m r n q hr hq e.symm).1
  refine ⟨fun b hb hbn => hlow b (by omega) hbn, hinode, fun m hm => ?_, fun m r hm hr => ?_,
    fun m r hm hr => hdata _ (hplace m r hm hr)⟩
  · unfold View.live
    by_cases hlt : m < 32
    · rw [hlow (2 + m) (by omega) (by omega)]
    · simp only [hlt, false_and]
  · rw [hused _ (hplace m r hm hr)]
    exact (h.own.ok m r hr).2.2

/-- INTERNAL: the data blocks of a node depend on its pointer blocks only. -/
theorem dataBlock_congr {nd : Inode} {k : ℕ}
    (h : v'.data (nd.ptr (k / 1024)) = v.data (nd.ptr (k / 1024))) :
    v'.dataBlock nd k = v.dataBlock nd k := by
  simp only [View.dataBlock, View.slot, h]

/-- INTERNAL: the other nodes hold the same blocks at the same places. -/
theorem Others.place (ho : Others n v v') (h : Core v) (hm : m ≠ n) {r : Ref}
    (hr : v.held m r) : v'.held m r ∧ v'.place m r = v.place m r := by
  refine ⟨⟨(ho.live m hm).mpr hr.1, by rw [ho.inode m hm]; exact hr.2⟩, ?_⟩
  cases r with
  | ptr i => simp only [View.place, ho.inode m hm]
  | data k =>
    have hptr := (h.node m hr.1).refers_ptr hr.2
    simp only [View.place, ho.inode m hm]
    exact dataBlock_congr (ho.data m (.ptr (k / 1024)) hm ⟨hr.1, hptr⟩)

theorem Others.held (ho : Others n v v') (hm : m ≠ n) {r : Ref} (hr : v'.held m r) :
    v.held m r :=
  ⟨(ho.live m hm).mp hr.1, by rw [← ho.inode m hm]; exact hr.2⟩

/-- INTERNAL: two changes to one node, one after the other. -/
theorem Others.trans (ho : Others n v v') (ho' : Others n v' v'') (h : Core v) :
    Others n v v'' where
  metadata b hb hbn := (ho'.metadata b hb hbn).trans (ho.metadata b hb hbn)
  inode m hm := (ho'.inode m hm).trans (ho.inode m hm)
  live m hm := (ho'.live m hm).trans (ho.live m hm)
  used m r hm hr := by
    obtain ⟨hr', he⟩ := ho.place h hm hr
    rw [← he]
    exact ho'.used m r hm hr'
  data m r hm hr := by
    obtain ⟨hr', he⟩ := ho.place h hm hr
    rw [← ho.data m r hm hr, ← he]
    exact ho'.data m r hm hr'

/-- INTERNAL: the records of a directory depend on its blocks only. -/
theorem records_congr {nd : Inode} (hdir : DirOk v nd)
    (hptr : nd.fileSize ≠ 0 → v'.data (nd.ptr 0) = v.data (nd.ptr 0))
    (hdata : nd.fileSize ≠ 0 → v'.data (v.dataBlock nd 0) = v.data (v.dataBlock nd 0)) :
    v'.records nd = v.records nd ∧ DirOk v' nd := by
  by_cases hsize : nd.fileSize = 0
  · constructor
    · simp [View.records, hsize]
    · exact { hdir with name := fun k hk => by rw [hsize] at hk; omega }
  · have hblock : v'.dataBlock nd 0 = v.dataBlock nd 0 := dataBlock_congr (hptr hsize)
    have hbytes := hdata hsize
    constructor
    · unfold View.records
      rw [hblock]
      apply List.map_congr_left
      intro k _
      simp only [View.record, hbytes]
    · have hname : ∀ k < nd.fileSize / 128, ∃ name, name ≠ [] ∧
          cstr (v'.data (v'.dataBlock nd 0)) (k * 128 + 4) 71 = some name := by
        intro k hk
        rw [hblock, hbytes]
        exact hdir.name k hk
      exact { hdir with name := hname }

/-- INTERNAL: the other nodes stay well formed, with the same records. -/
theorem Others.node (ho : Others n v v') (h : Core v) (hm : m ≠ n) (hl : v.live m) :
    NodeOk v' (v.inode m) ∧
      ((v.inode m).state = 2 → v'.records (v.inode m) = v.records (v.inode m)) := by
  have hnode := h.node m hl
  have hdir : (v.inode m).state = 2 →
      v'.records (v.inode m) = v.records (v.inode m) ∧ DirOk v' (v.inode m) := by
    intro hstate
    have hdir := hnode.dir hstate
    have hheld : (v.inode m).fileSize ≠ 0 → v.held m (.data 0) :=
      fun hsize => ⟨hl, (hdir.refers_data hstate 0).mpr ⟨rfl, hsize⟩⟩
    refine records_congr hdir (fun hsize => ?_) fun hsize => ?_
    · exact ho.data m (.ptr 0) hm ⟨hl, hnode.refers_ptr (hheld hsize).2⟩
    · exact ho.data m (.data 0) hm (hheld hsize)
  exact ⟨{ hnode with dir := fun hstate => (hdir hstate).2 }, fun hstate => (hdir hstate).1⟩

/-- INTERNAL: the other nodes list the same entries under the same parents. -/
theorem Others.entries (ho : Others n v v') (h : Core v) (hm : m ≠ n) :
    v'.tree.entries m = v.tree.entries m ∧ v'.tree.parent m = v.tree.parent m := by
  refine ⟨?_, by simp only [View.tree, ho.inode m hm]⟩
  simp only [View.tree, ho.inode m hm, ho.live m hm]
  split
  next hl => exact (ho.node h hm hl.1).2 hl.2
  next => rfl

/-- INTERNAL: **changing one node keeps every node well formed and its blocks its own**, if
the node is well formed afterwards and what it holds was its own or is newly taken. -/
theorem Core.change (h : Core v) (ho : Others n v v') (fresh : Ref → Prop)
    (hmeta : n = 0 → v'.used 2 = true ∧ (v'.inode 0).state = 2)
    (hnode : v'.live n → NodeOk v' (v'.inode n))
    (hparent : v'.live n → n ≠ 0 → 2 ≤ (v'.inode n).parentBlock)
    (hold : ∀ r, v'.held n r → ¬ fresh r →
      v.held n r ∧ v'.place n r = v.place n r ∧ v'.InData (v.place n r))
    (hnew : ∀ r, v'.held n r → fresh r →
      ¬ v.InData (v'.place n r) ∧ v'.InData (v'.place n r))
    (hinj : ∀ r q, v'.held n r → fresh r → v'.held n q → fresh q →
      v'.place n r = v'.place n q → r = q) : Core v' := by
  refine ⟨?_, ?_, ?_, ?_, ?_⟩
  · intro b hb
    by_cases hbn : b = 2 + n
    · have hn : n = 0 := by omega
      subst hn
      rw [hbn]
      exact (hmeta rfl).1
    · rw [ho.metadata b hb hbn]
      exact h.metadata b hb
  · by_cases hn : n = 0
    · exact (hmeta hn).2
    · rw [ho.inode 0 (Ne.symm hn)]
      exact h.root
  · intro m hm
    by_cases hmn : m = n
    · subst hmn
      exact hnode hm
    · rw [ho.inode m hmn]
      exact (ho.node h hmn ((ho.live m hmn).mp hm)).1
  · intro m hm hm0
    by_cases hmn : m = n
    · subst hmn
      exact hparent hm hm0
    · rw [ho.inode m hmn]
      exact h.parent m ((ho.live m hmn).mp hm) hm0
  · apply h.own.update (fun m r => m = n ∧ fresh r)
    · intro m r hr hfresh
      by_cases hmn : m = n
      · subst hmn
        exact hold r hr fun hf => hfresh ⟨rfl, hf⟩
      · have hr' := ho.held hmn hr
        obtain ⟨h1, h2, -⟩ := h.inData hr'
        exact ⟨hr', (ho.place h hmn hr').2, h1, h2, ho.used m r hmn hr'⟩
    · rintro m r hr ⟨rfl, hf⟩
      exact hnew r hr hf
    · rintro m r k q hr ⟨rfl, hf⟩ hq ⟨rfl, hg⟩ he
      exact ⟨rfl, hinj r q hr hf hq hg he⟩

end Others

end LinuseFs.Interface
