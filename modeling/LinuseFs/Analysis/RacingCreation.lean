import LinuseFs.Computation.Interference
import LinuseFs.Analysis.ConcurrentCreation
import LinuseFs.Analysis.TreeOnDisk

/-!
# Creations that race

Requests that create in directories which have entries take no block of the data region, so what
they write to are the nodes of these directories, slots that were free, and the end of the records.
They may lose each other's entries, but nothing that was there before is lost, at no moment: the
directories only grow behind the records they had (`Extends`).
-/

set_option autoImplicit false

namespace LinuseFs.Analysis

open LinuseFs.Computation LinuseFs.Model LinuseFs.Interface

/-! ## What was there stays -/

/-- The slots of the node table in use, but for the root. -/
def slotsUsed (v : View) : ℕ := ((Finset.Ico 3 34).filter fun b => v.used b = true).card

/-- The `k`-th record of the block has a name. -/
def HasName (v : View) (b k : ℕ) : Prop :=
  ∃ name, name ≠ [] ∧ cstr (v.data b) (k * 128 + 4) 71 = some name

/-- The node `m` of `v` as a thread may find it in `u`: if it is a directory with entries, it may
have more records. -/
structure Lengthened (v u : View) (m : ℕ) (nd : Inode) : Prop where
  rest : nd = { v.inode m with fileSize := nd.fileSize }
  size : nd.fileSize = (v.inode m).fileSize ∨ (v.inode m).state = 2 ∧ (v.inode m).fileSize ≠ 0 ∧
    (v.inode m).fileSize ≤ nd.fileSize
  records : (v.inode m).state = 2 → nd.fileSize % 128 = 0 ∧ nd.fileSize ≤ 128 * slotsUsed u ∧
    ∀ k < nd.fileSize / 128, HasName u (v.dataBlock (v.inode m) 0) k

/-- The nodes of `v` are in use in `u`, with the contents they had. -/
structure Extends (v u : View) : Prop where
  used : ∀ b, v.used b = true → u.used b = true
  node : ∀ m, v.live m → Lengthened v u m (u.inode m)
  data : ∀ m r i, v.held m r →
    ((v.inode m).state = 2 → r = .data 0 → i < (v.inode m).fileSize) →
      u.data (v.place m r) i = v.data (v.place m r) i

/-- What a step may do to a disk that extends `v`. -/
structure Later (v u w : View) : Prop where
  used : ∀ b, u.used b = true → w.used b = true
  names : ∀ b k, HasName u b k → HasName w b k
  keeps : Extends v u → Extends v w

/-- Creations that take turns on a disk that was `v`. -/
def racing (v : View) : Company Fault SacState View DiskStep.Answer where
  exec := DiskStep.exec
  view := viewOf
  may := Later v
  refl _ := ⟨fun _ h => h, fun _ _ h => h, fun h => h⟩
  trans _ _ _ h h' := ⟨fun b hb => h'.used b (h.used b hb),
    fun b k hb => h'.names b k (h.names b k hb), fun he => h'.keeps (h.keeps he)⟩

section Extends

variable {v u w : View} {m n d b k : ℕ} {nd : Inode}

theorem slotsUsed_mono (h : ∀ b, u.used b = true → w.used b = true) :
    slotsUsed u ≤ slotsUsed w := by
  apply Finset.card_le_card
  intro b hb
  rw [Finset.mem_filter] at hb ⊢
  exact ⟨hb.1, h b hb.2⟩

theorem slotsUsed_le (v : View) : slotsUsed v ≤ 31 :=
  (Finset.card_filter_le _ _).trans (by rw [Nat.card_Ico])

/-- INTERNAL: a slot that has been taken counts. -/
theorem slotsUsed_succ_le (h : ∀ b, u.used b = true → w.used b = true) (hn : n < 32) (hn0 : n ≠ 0)
    (hfree : u.used (2 + n) = false) (hused : w.used (2 + n) = true) :
    slotsUsed u + 1 ≤ slotsUsed w := by
  refine Finset.card_lt_card ⟨fun b hb => ?_, fun hsubset => ?_⟩
  · rw [Finset.mem_filter] at hb ⊢
    exact ⟨hb.1, h b hb.2⟩
  · have hmem : 2 + n ∈ (Finset.Ico 3 34).filter fun b => w.used b = true := by
      rw [Finset.mem_filter, Finset.mem_Ico]
      exact ⟨⟨by omega, by omega⟩, hused⟩
    have := (Finset.mem_filter.mp (hsubset hmem)).2
    rw [hfree] at this
    cases this

theorem Lengthened.mono (h : Lengthened v u m nd) (hused : ∀ b, u.used b = true → w.used b = true)
    (hnames : ∀ b k, HasName u b k → HasName w b k) : Lengthened v w m nd := by
  refine ⟨h.rest, h.size, fun hstate => ?_⟩
  obtain ⟨hmod, hle, hall⟩ := h.records hstate
  have hslots := slotsUsed_mono hused
  exact ⟨hmod, by omega, fun k hk => hnames _ _ (hall k hk)⟩

theorem Lengthened.later (h : Lengthened v u m nd) (hl : Later v u w) : Lengthened v w m nd :=
  h.mono hl.used hl.names

theorem Lengthened.state (h : Lengthened v u m nd) : nd.state = (v.inode m).state := by
  rw [h.rest]

theorem Lengthened.ge (h : Lengthened v u m nd) : (v.inode m).fileSize ≤ nd.fileSize := by
  rcases h.size with heq | ⟨-, -, hle⟩
  · exact heq.ge
  · exact hle

theorem Lengthened.le (h : Lengthened v u m nd) (hstate : (v.inode m).state = 2) :
    nd.fileSize ≤ 3968 := by
  have hle := (h.records hstate).2.1
  have hslots := slotsUsed_le u
  omega

theorem Lengthened.fits (h : Lengthened v u m nd) (hv : Core v) (hm : v.live m) : nd.Fits := by
  have hfits := (hv.node m hm).fits
  rw [h.rest]
  refine { hfits with fileSize := ?_ }
  rcases h.size with heq | ⟨hstate, -, -⟩
  · exact heq.trans_lt hfits.fileSize
  · have := h.le hstate
    exact lt_of_le_of_lt this (by decide)

theorem Extends.live (h : Extends v u) (hm : v.live m) : u.live m := ⟨hm.1, h.used _ hm.2⟩

/-- INTERNAL: a slot that is free was free. -/
theorem Extends.not_live (h : Extends v u) (hfree : u.used (2 + n) = false) : ¬ v.live n := by
  intro hn
  rw [h.used _ hn.2] at hfree
  cases hfree

/-- INTERNAL: **each directory has a record for every slot at most**, and its records have names. -/
theorem extends_refl (h : Inv v none) : Extends v v := by
  refine ⟨fun b hb => hb, fun m hm => ⟨rfl, Or.inl rfl, fun hstate => ?_⟩, fun _ _ _ _ _ => rfl⟩
  have hdir := (h.node m hm).dir hstate
  refine ⟨hdir.size, ?_, hdir.name⟩
  have hcount : (v.tree.targets m).length ≤ slotsUsed v := by
    have hmap : ((v.tree.targets m).map fun n => 2 + n).Nodup :=
      (h.tree.targets_nodup m hm).map fun a b hab => Nat.add_left_cancel hab
    rw [← List.length_map (fun n => 2 + n), ← List.toFinset_card_of_nodup hmap]
    apply Finset.card_le_card
    intro b hb
    rw [List.mem_toFinset, List.mem_map] at hb
    obtain ⟨n, hn, rfl⟩ := hb
    have hlive := h.tree.target_live m hm n hn
    have hne := h.tree.target_ne_root m hm n hn
    have hlt := hlive.1
    rw [Finset.mem_filter, Finset.mem_Ico]
    exact ⟨⟨by omega, by omega⟩, hlive.2⟩
  have hlen : (v.tree.targets m).length = (v.inode m).fileSize / 128 := by
    rw [Namespace.targets, List.length_map, entries_dir hm hstate, length_records]
  have hmod := hdir.size
  omega

end Extends

/-! ## What the steps change -/

section Changes

variable {v u w : View} {m n d b : ℕ} {nd : Inode}

/-- INTERNAL: the node of a slot that was free, or a copy of the node that was there. -/
theorem later_setInode (hnd : v.live n → Lengthened v u n nd) : Later v u (u.setInode n nd) := by
  refine ⟨fun b hb => hb, fun b k hk => hk, fun he => ⟨he.used, fun m hm => ?_, he.data⟩⟩
  by_cases hmn : m = n
  · subst hmn
    rw [View.setInode_same]
    exact (hnd hm).mono (fun b hb => hb) fun b k hk => hk
  · rw [View.setInode_ne _ hmn]
    exact (he.node m hm).mono (fun b hb => hb) fun b k hk => hk

theorem later_setUsed (b : ℕ) : Later v u (u.setUsed b true) := by
  have hused : ∀ c, u.used c = true → (u.setUsed b true).used c = true :=
    fun c hc => View.used_setUsed_true hc
  refine ⟨hused, fun b k hk => hk, fun he => ⟨fun c hc => hused c (he.used c hc), ?_, he.data⟩⟩
  exact fun m hm => (he.node m hm).mono hused fun b k hk => hk

/-- INTERNAL: **a write behind the records that a directory had**: the block is no one else's. -/
theorem later_setData (h : Core v) (hd : v.live d) (hstate : (v.inode d).state = 2)
    (hsize : (v.inode d).fileSize ≠ 0) {bytes : Bytes}
    (hbytes : ∀ i < (v.inode d).fileSize,
      bytes i = u.data (v.dataBlock (v.inode d) 0) i)
    (hnames : ∀ k, HasName u (v.dataBlock (v.inode d) 0) k →
      HasName (u.setData (v.dataBlock (v.inode d) 0) bytes) (v.dataBlock (v.inode d) 0) k) :
    Later v u (u.setData (v.dataBlock (v.inode d) 0) bytes) := by
  have hheld : v.held d (.data 0) :=
    ⟨hd, (((h.node d hd).dir hstate).refers_data hstate 0).mpr ⟨rfl, hsize⟩⟩
  have hall : ∀ b k, HasName u b k →
      HasName (u.setData (v.dataBlock (v.inode d) 0) bytes) b k := by
    intro b k hk
    by_cases hb : b = v.dataBlock (v.inode d) 0
    · subst hb
      exact hnames k hk
    · unfold HasName
      rw [View.setData_ne _ hb]
      exact hk
  refine ⟨fun b hb => hb, hall, fun he => ⟨he.used, fun m hm => ?_, fun m r i hr hi => ?_⟩⟩
  · exact (he.node m hm).mono (fun b hb => hb) hall
  · rw [← he.data m r i hr hi]
    by_cases hplace : v.place m r = v.dataBlock (v.inode d) 0
    · obtain ⟨rfl, rfl⟩ := h.own.inj m r d (.data 0) hr hheld hplace
      rw [hplace, View.setData_same]
      exact hbytes i (hi hstate rfl)
    · rw [View.setData_ne _ hplace]

/-- INTERNAL: the number of a record is not in a name. -/
theorem hasName_storeNumber {j k : ℕ} {src : Bytes} (hk : HasName u b k) :
    HasName (u.setData b (memcpy (u.data b) (j * 128) src 4)) b k := by
  obtain ⟨name, hne, hname⟩ := hk
  refine ⟨name, hne, ?_⟩
  rw [View.setData_same, cstr_memcpy_outside (by omega)]
  exact hname

/-- INTERNAL: a name is written over a name or behind them. -/
theorem hasName_storeName {j k : ℕ} {stack : Bytes} {name : List UInt8} (hname : name ≠ [])
    (hnul : (0 : UInt8) ∉ name) (hlen : name.length ≤ 70) (hk : j ≠ k → HasName u b k) :
    HasName (u.setData b (memcpy (u.data b) (j * 128 + 4) (entryName stack name) 124)) b k := by
  by_cases hjk : j = k
  · subst hjk
    refine ⟨name, hname, ?_⟩
    have hentry : cstr (entryName stack name) 0 71 = some name :=
      cstr_memcpy_ofList stack 0 71 _ hnul (by omega) (by omega)
    rw [View.setData_same, ← hentry]
    exact cstr_congr fun i hi => by rw [memcpy_inside (by omega), Nat.zero_add]
  · obtain ⟨old, hne, hold⟩ := hk hjk
    refine ⟨old, hne, ?_⟩
    rw [View.setData_same, cstr_memcpy_outside (by omega)]
    exact hold

end Changes

/-! ## What the threads find -/

section Finding

variable {v u w : View} {m n : ℕ} {name : List UInt8} {nd : Inode}

theorem Extends.ptr (he : Extends v w) (h : Core v) (hm : v.live m)
    (hstate : (v.inode m).state = 2) (hsize : (v.inode m).fileSize ≠ 0) :
    w.data ((v.inode m).ptr 0) = v.data ((v.inode m).ptr 0) := by
  have hdir := (h.node m hm).dir hstate
  have hheld : v.held m (.ptr 0) := ⟨hm, fun hzero => hsize (hdir.ptr_zero.mp hzero)⟩
  funext i
  exact he.data m (.ptr 0) i hheld fun _ hr => by cases hr

/-- INTERNAL: the data block of a directory is where it was. -/
theorem Lengthened.dataBlock (hl : Lengthened v w m nd) (he : Extends v w) (h : Core v)
    (hm : v.live m) (hstate : (v.inode m).state = 2) (hsize : (v.inode m).fileSize ≠ 0) :
    w.dataBlock nd 0 = v.dataBlock (v.inode m) 0 := by
  have hptr : nd.ptr = (v.inode m).ptr := by rw [hl.rest]
  simp only [View.dataBlock, View.slot, hptr, Nat.zero_div]
  rw [he.ptr h hm hstate hsize]

/-- INTERNAL: the records are where they were, and there may be more behind them. -/
theorem Lengthened.dir (hl : Lengthened v w m nd) (he : Extends v w) (h : Core v) (hm : v.live m)
    (hstate : (v.inode m).state = 2) :
    DirBlocks w nd ∧ v.records (v.inode m) <+: w.records nd := by
  have hdir := dirBlocks h hm hstate
  obtain ⟨hmod, -, hnames⟩ := hl.records hstate
  have hptr : nd.ptr = (v.inode m).ptr := by rw [hl.rest]
  by_cases hsize : (v.inode m).fileSize = 0
  · have heq : nd = v.inode m := by
      rcases hl.size with heq | ⟨-, hne, -⟩
      · rw [hl.rest, heq]
      · exact absurd hsize hne
    rw [heq]
    obtain ⟨hrecords, hok⟩ : w.records (v.inode m) = v.records (v.inode m) ∧
        DirOk w (v.inode m) :=
      records_congr hdir.ok (fun hne => absurd hsize hne) fun hne => absurd hsize hne
    refine ⟨⟨hok, fun hne => absurd hsize hne, fun hne => absurd hsize hne⟩, ?_⟩
    rw [hrecords]
  · have hge := hl.ge
    have hblock := hl.dataBlock he h hm hstate hsize
    refine ⟨⟨⟨hmod, hl.le hstate, ?_, fun i hi => ?_, fun k hk => ?_⟩, fun _ => ?_,
      fun _ => ?_⟩, ?_⟩
    · rw [hptr, hdir.ok.ptr_zero]
      omega
    · rw [hptr, hdir.ok.ptr i hi]
    · rw [hblock]
      exact hnames k hk
    · rw [hptr]
      exact hdir.ptr hsize
    · rw [hblock]
      exact hdir.data hsize
    · have hheld : v.held m (.data 0) := ⟨hm, (hdir.ok.refers_data hstate 0).mpr ⟨rfl, hsize⟩⟩
      have hbytes : ∀ i < (v.inode m).fileSize, w.data (v.dataBlock (v.inode m) 0) i =
          v.data (v.dataBlock (v.inode m) 0) i :=
        fun i hi => he.data m (.data 0) i hheld fun _ _ => hi
      have hle : (v.inode m).fileSize / 128 ≤ nd.fileSize / 128 := Nat.div_le_div_right hge
      rw [List.prefix_iff_eq_take, length_records, View.records, View.records, hblock,
        ← List.map_take, List.take_range, Nat.min_eq_left hle]
      apply List.map_congr_left
      intro k hk
      have hlt := List.mem_range.mp hk
      have hname : cstr (v.data (v.dataBlock (v.inode m) 0)) (k * 128 + 4) 71 =
          cstr (w.data (v.dataBlock (v.inode m) 0)) (k * 128 + 4) 71 :=
        cstr_congr fun i hi => (hbytes _ (by omega)).symm
      have hnumber : leNat (v.data (v.dataBlock (v.inode m) 0)) (k * 128) 4 =
          leNat (w.data (v.dataBlock (v.inode m) 0)) (k * 128) 4 :=
        leNat_congr fun i hi => (hbytes _ (by omega)).symm
      simp only [View.record, hname, hnumber]

/-- If the directory `m` had the name, this is its entry. -/
def EntryIfListed (v : View) (m : ℕ) (name : List UInt8) (e : DirEntry) : Prop :=
  ∀ n, v.tree.lookup m name = some n → e.nodeNum = n ∧ isValidEntry e = true

/-- INTERNAL: **the search for a name that was there finds the node that it led to**, if there
are only more records behind the ones that were there. SRCLINE: directory.c:60-67,
directory.c:100-106 -/
theorem vwp_getEntry_longer {Q : DirEntry → View → Prop} {E : Fault → View → Prop} {node : Node}
    (hdir : DirBlocks w (inodeOfNode node))
    (hrecords : v.records (v.inode m) <+: w.records (inodeOfNode node))
    (hnode : node.state = 2) (hm : v.live m) (hstate : (v.inode m).state = 2) (hname : name ≠ [])
    (hQ : ∀ e, EntryIfListed v m name e → Q e w) : vwp (getEntry node name) Q E w := by
  apply vwp_getEntry hnode hdir hname
  intro e hlookup
  apply hQ
  intro n hn
  rw [Namespace.lookup, entries_dir hm hstate] at hn
  obtain ⟨r, hr, rfl⟩ := Option.map_eq_some_iff.mp hn
  have hfind := hrecords.find?_eq_some hr
  cases hlookup with
  | found l₁ l₂ k records first name_eq nodeNum _ _ =>
    have hnone : l₁.find? (fun r => decide (r.1 = name)) = none := by
      simpa [List.find?_eq_none] using first
    rw [records, List.find?_append, hnone, Option.none_or,
      List.find?_cons_of_pos (by simp)] at hfind
    obtain rfl := Option.some.inj hfind
    refine ⟨nodeNum, ?_⟩
    rw [isValidEntry_iff, name_eq]
    exact hname
  | missing none _ _ =>
    have hself := List.find?_some hfind
    exact absurd (of_decide_eq_true hself) (none r (List.mem_of_find?_eq_some hfind))

end Finding

/-! ## The steps of the threads -/

section Threads

variable {v u : View} {m n d : ℕ} {name : List UInt8} {node : Node}

/-- INTERNAL: a step, from any view that the others may leave before it, and with what they may do
after it. -/
theorem behaves_step {l : DiskStep} {Q : l.Answer → View → Prop}
    (h : ∀ w, Later v u w → vwp l.exec (fun b w' => Later v w w' ∧ ∀ u', Later v w' u' → Q b u')
      (fun _ _ => True) w) : (racing v).Behaves (Steps.atomic l) Q u :=
  Company.Behaves.atomic h

theorem later_trans {w : View} {u' : View} (h : Later v u w) (h' : Later v w u') : Later v u u' :=
  (racing v).trans _ _ _ h h'

/-- INTERNAL: **a copy of a node.** SRCLINE: node.c:16-21 -/
theorem behaves_readNode {Q : Node × ℕ → View → Prop} (h : Core v) (he : Extends v u)
    (hm : v.live m)
    (hQ : ∀ node w, Later v u w → Lengthened v w m (inodeOfNode node) → Q (node, 2 + m) w) :
    (racing v).Behaves (Threaded.readNode m) Q u := by
  apply behaves_step (l := .readNode m)
  intro w hw
  have hnode := (hw.keeps he).node m hm
  have hnamed : (w.inode m).name.isSome := by
    rw [hnode.rest]
    exact (h.node m hm).named
  refine vwp_readNode hm.1 hnamed fun node hcopy => ⟨(racing v).refl w, fun u' hu' => ?_⟩
  apply hQ node u' (later_trans hw hu')
  rw [hcopy]
  exact hnode.later hu'

/-- INTERNAL: **a node written back**: a copy, or the node of a slot that was free. SRCLINE:
node.c:47-51, utils.c:146-161 -/
theorem behaves_nodeToBlock {Q : View → Prop} (hn : n < 32) (hfits : (inodeOfNode node).Fits)
    (hcopy : v.live n → Lengthened v u n (inodeOfNode node)) (hQ : ∀ w, Later v u w → Q w) :
    (racing v).Behaves (Threaded.nodeToBlock node (2 + n)) (fun _ => Q) u := by
  apply behaves_step (l := .nodeToBlock node (2 + n))
  intro w hw
  have hwrite : Later v w (w.setInode n (inodeOfNode node)) :=
    later_setInode fun hl => (hcopy hl).later hw
  exact vwp_nodeToBlock hn hfits
    ⟨hwrite, fun u' hu' => hQ u' (later_trans hw (later_trans hwrite hu'))⟩

theorem behaves_getEntry {Q : DirEntry → View → Prop} (h : Core v) (he : Extends v u)
    (hm : v.live m) (hstate : (v.inode m).state = 2) (hl : Lengthened v u m (inodeOfNode node))
    (hname : name ≠ []) (hQ : ∀ e w, Later v u w → EntryIfListed v m name e → Q e w) :
    (racing v).Behaves (Threaded.getEntry node name) Q u := by
  apply behaves_step (l := .getEntry node name)
  intro w hw
  obtain ⟨hdir, hrecords⟩ := (hl.later hw).dir (hw.keeps he) h hm hstate
  exact vwp_getEntry_longer hdir hrecords (hl.state.trans hstate) hm hstate hname
    fun e hentry => ⟨(racing v).refl w, fun u' hu' => hQ e u' (later_trans hw hu') hentry⟩

/-- INTERNAL: the rounds of the scan, by induction on their number: the bit was not set when it was
tested. SRCLINE: bitmap.c:31-33 -/
theorem behaves_scanBitmap {Q : ℕ → View → Prop} (k i : ℕ)
    (hQ : ∀ b w u', i ≤ b → Later v u w → w.used b = false → Later v w u' → Q b u') :
    (racing v).Behaves (Threaded.scanBitmap k i) Q u := by
  induction k generalizing i u with
  | zero => trivial
  | succ k ih =>
    refine Company.Behaves.bind (behaves_step (l := .blockIsFree i) (Q := fun (free : Bool) w =>
      (racing v).Behaves (if free then return i else Threaded.scanBitmap k (i + 1)) Q w)
      fun w hw => ?_)
    rintro s rfl
    refine ⟨(racing v).refl _, fun u' hu' => ?_⟩
    by_cases hused : s.used i = true
    · have htest : Model.blockIsFree s i = false := by rw [Model.blockIsFree, hused]; rfl
      rw [if_neg (by rw [htest]; decide)]
      refine ih (i + 1) fun b w' u'' hb hw' => hQ b w' u'' (by omega) ?_
      exact later_trans hw (later_trans hu' hw')
    · rw [Bool.not_eq_true] at hused
      have htest : Model.blockIsFree s i = true := by rw [Model.blockIsFree, hused]; rfl
      rw [if_pos htest]
      exact Company.Behaves.pure fun u'' hu'' => hQ i _ u'' le_rfl hw hused (later_trans hu' hu'')

/-- INTERNAL: **the allocator** may give one slot to two threads, but none that was in use. SRCLINE:
bitmap.c:10-12, bitmap.c:29-38 -/
theorem behaves_getFreeNodeBlock {Q : ℕ → View → Prop} (h : Core v) (he : Extends v u)
    (hQ : ∀ n w, n < 32 → ¬ v.live n → Later v u w → slotsUsed u + 1 ≤ slotsUsed w →
      Q (2 + n) w) :
    (racing v).Behaves Threaded.getFreeNodeBlock Q u := by
  refine Company.Behaves.bind (behaves_scanBitmap _ _ fun b w u' (hlo : 2 ≤ b) hw hfree hu' => ?_)
  obtain ⟨n, rfl⟩ : ∃ n, b = 2 + n := ⟨b - 2, by omega⟩
  split
  · trivial
  next hhi =>
    have hn : n < 32 := by
      have hlt : 2 + n < 34 := Nat.lt_of_not_le hhi
      omega
    have hextends := hw.keeps he
    have hroot : w.used 2 = true := hextends.used 2 (h.metadata 2 le_rfl)
    have hn0 : n ≠ 0 := by
      rintro rfl
      rw [hfree] at hroot
      cases hroot
    refine Company.Behaves.bind (behaves_step (l := .bitarraySetBit (2 + n)) fun w₁ hw₁ => ?_)
    rintro s rfl
    apply bitarraySetBit_wp (by omega)
    rw [viewOf_take]
    have htake : Later v (viewOf s) ((viewOf s).setUsed (2 + n) true) := later_setUsed (2 + n)
    refine ⟨htake, fun u'' hu'' => Company.Behaves.pure fun u₃ hu₃ => ?_⟩
    have hall : Later v w u₃ :=
      later_trans hu' (later_trans hw₁ (later_trans htake (later_trans hu'' hu₃)))
    have hused : u₃.used (2 + n) = true := by
      refine hu₃.used _ (hu''.used _ ?_)
      rw [View.setUsed_same]
    apply hQ n u₃ hn (hextends.not_live hfree) (later_trans hw hall)
    have hcount := slotsUsed_succ_le hall.used hn hn0 hfree hused
    have hmono := slotsUsed_mono hw.used
    omega

/-- INTERNAL: the node that is built for an entry of `d`, if the name fits. SRCLINE:
directory.c:153-159, file.c:52-58, utils.c:88-99 -/
theorem behaves_newNode {Q : Node → View → Prop} {state : UInt8} (hd : d < 32)
    (hnul : (0 : UInt8) ∉ name)
    (hQ : ∀ new w, name.length ≤ 70 → (inodeOfNode new).Fits → Later v u w → Q new w) :
    (racing v).Behaves (do
      let date ← Threaded.time
      Threaded.createNode state name (getBlockNumFromNodeNum d) 0 date date fun _ => 0) Q u := by
  refine Company.Behaves.bind (behaves_step (l := .time) fun w hw =>
    vwp_time fun date hdate => ⟨(racing v).refl w, fun w₁ hw₁ => ?_⟩)
  refine Company.Behaves.bind (behaves_step (l := .malloc) fun w₂ hw₂ =>
    vwp_malloc fun fresh => ⟨(racing v).refl w₂, fun w₃ hw₃ => ?_⟩)
  split
  next hlen =>
    refine Company.Behaves.pure fun w₄ hw₄ => hQ _ w₄ (Nat.le_of_lt_succ hlen) ?_
      (later_trans hw (later_trans hw₁ (later_trans hw₂ (later_trans hw₃ hw₄))))
    have hname : cstr (memcpy fresh 0 (ofList (name ++ [0])) (name.length + 1)) 0 71 = some name :=
      cstr_memcpy_ofList fresh 0 71 _ hnul hlen (by omega)
    have hnew := newInode_fits name state hd hdate
    simp only [newInode] at hnew
    simp only [inodeOfNode, getBlockNumFromNodeNum, nodeTableInitialBlock_eq, hname]
    exact hnew
  next => trivial

/-- INTERNAL: **the data block for the next record**, which the directory has. SRCLINE:
directory.c:194-213 -/
theorem behaves_readNextDataBlock {Q : ℕ × Node → View → Prop} (h : Core v) (he : Extends v u)
    (hd : v.live d) (hstate : (v.inode d).state = 2) (hsize : (v.inode d).fileSize ≠ 0)
    (hl : Lengthened v u d (inodeOfNode node)) (byteNum : ℕ)
    (hQ : ∀ w, Later v u w → Q (v.dataBlock (v.inode d) 0, node) w) :
    (racing v).Behaves (Threaded.readNextDataBlock node ⟨0, 0, byteNum⟩) Q u := by
  have hdir := dirBlocks h hd hstate
  obtain ⟨hge, hlt⟩ := hdir.ptr hsize
  have hptr : node.indirectPointerBlock 0 = (v.inode d).ptr 0 :=
    congrArg (fun nd : Inode => nd.ptr 0) hl.rest
  unfold Threaded.readNextDataBlock Threaded.pointerAt
  dsimp only
  rw [if_pos (by decide)]
  refine Company.Behaves.bind (Company.Behaves.pure fun w hw => ?_)
  rw [if_neg (by omega), hptr, readBlock_of_lt hlt]
  refine Company.Behaves.bind (behaves_step (l := .bytesToInt32 ((v.inode d).ptr 0) (0 * 4))
    fun w₁ hw₁ => vwp_bytesToInt32 hge hlt (by omega) ⟨(racing v).refl w₁, fun w₂ hw₂ => ?_⟩)
  have hslot : leNat (w₁.data ((v.inode d).ptr 0)) (0 * 4) 4 = v.dataBlock (v.inode d) 0 := by
    rw [((hw₁.keeps (hw.keeps he)).ptr h hd hstate hsize)]
    rfl
  refine Company.Behaves.pure fun w₃ hw₃ => ?_
  rw [hslot, readBlock_of_lt (hdir.data hsize).2]
  exact hQ w₃ (later_trans hw (later_trans hw₁ (later_trans hw₂ hw₃)))

/-- INTERNAL: a write behind the records that the directory had. -/
theorem behaves_store {Q : View → Prop} (h : Core v) (hd : v.live d)
    (hstate : (v.inode d).state = 2) (hsize : (v.inode d).fileSize ≠ 0) (pos len : ℕ) {src : Bytes}
    (hpos : (v.inode d).fileSize ≤ pos) (hlen : pos + len ≤ 4096)
    (hnames : ∀ w k, HasName w (v.dataBlock (v.inode d) 0) k →
      HasName (w.setData (v.dataBlock (v.inode d) 0)
        (memcpy (w.data (v.dataBlock (v.inode d) 0)) pos src len)) (v.dataBlock (v.inode d) 0) k)
    (hQ : ∀ w u', Later v u w → Later v (w.setData (v.dataBlock (v.inode d) 0)
      (memcpy (w.data (v.dataBlock (v.inode d) 0)) pos src len)) u' → Later v u u' → Q u') :
    (racing v).Behaves (Threaded.store (v.dataBlock (v.inode d) 0) pos src len) (fun _ => Q) u := by
  obtain ⟨hge, hlt⟩ := (dirBlocks h hd hstate).data hsize
  apply behaves_step (l := .store (v.dataBlock (v.inode d) 0) pos src len)
  intro w hw
  have hwrite := later_setData (u := w) h hd hstate hsize
    (fun i hi => memcpy_outside (by omega)) (hnames w)
  exact vwp_store hge hlt hlen ⟨hwrite, fun u' hu' => hQ w u' hw hu'
    (later_trans hw (later_trans hwrite hu'))⟩

/-- INTERNAL: **`add_directory_entry`** appends a record to a copy of the directory, perhaps over
one that another thread has appended to its own. SRCLINE: directory.c:40-56 -/
theorem behaves_addDirectoryEntry {Q : Node → View → Prop} (h : Core v) (he : Extends v u)
    (hd : v.live d) (hstate : (v.inode d).state = 2) (hsize : (v.inode d).fileSize ≠ 0)
    (hl : Lengthened v u d (inodeOfNode node)) (hroom : node.fileSize + 128 ≤ 128 * slotsUsed u)
    (hname : name ≠ []) (hnul : (0 : UInt8) ∉ name) (hlen : name.length ≤ 70) (n : ℕ)
    (hQ : ∀ node' w, Later v u w → Lengthened v w d (inodeOfNode node') → Q node' w) :
    (racing v).Behaves (Threaded.addDirectoryEntry node name n) Q u := by
  obtain ⟨hmod, -, -⟩ := hl.records hstate
  obtain ⟨j, hj⟩ : ∃ j, node.fileSize = j * 128 :=
    ⟨node.fileSize / 128, by change node.fileSize % 128 = 0 at hmod; omega⟩
  have hge : (v.inode d).fileSize ≤ node.fileSize := hl.ge
  have hslots := slotsUsed_le u
  have hposition : getNextWritePosition node = ⟨0, 0, j * 128⟩ := by
    simp only [getNextWritePosition, blockSize, DataPosition.mk.injEq, hj]
    omega
  refine Company.Behaves.bind (behaves_step (l := .malloc) fun w hw =>
    vwp_malloc fun stack => ⟨(racing v).refl w, fun w₁ hw₁ => ?_⟩)
  have hlater₁ := later_trans hw hw₁
  rw [if_pos (by omega), hposition]
  refine Company.Behaves.bind (behaves_readNextDataBlock h (hlater₁.keeps he) hd hstate hsize
    (hl.later hlater₁) _ fun w₂ hw₂ => ?_)
  refine Company.Behaves.bind (behaves_store h hd hstate hsize (j * 128) 4 (by omega)
    (by omega) (fun w k hk => hasName_storeNumber hk) fun _ w₃ _ _ hw₃ => ?_)
  refine Company.Behaves.bind (behaves_store h hd hstate hsize (j * 128 + 4) 124 (by omega)
    (by omega) (fun w k hk => hasName_storeName hname hnul hlen fun _ => hk)
    fun w₄ w₅ _ hw₅ hlater => Company.Behaves.pure fun w₆ hw₆ => ?_)
  have hall := later_trans hlater₁ (later_trans hw₂ (later_trans hw₃ (later_trans hlater hw₆)))
  apply hQ _ w₆ hall
  have hlast : HasName w₆ (v.dataBlock (v.inode d) 0) j :=
    hw₆.names _ _ (hw₅.names _ _
      (hasName_storeName hname hnul hlen fun hne => absurd rfl hne))
  have hgrown : u32 ((node.fileSize : ℤ) + 128) = j * 128 + 128 := by
    rw [hj, u32]
    omega
  have hfirst := ((hl.later hall).records hstate).2.2
  have hslots₆ := slotsUsed_mono hall.used
  refine ⟨?_, Or.inr ⟨hstate, hsize, ?_⟩, fun _ => ⟨?_, ?_, fun k hk => ?_⟩⟩
  · exact congrArg (fun nd : Inode => { nd with fileSize := u32 ((node.fileSize : ℤ) + 128) })
      hl.rest
  · show _ ≤ u32 ((node.fileSize : ℤ) + 128)
    omega
  · show u32 ((node.fileSize : ℤ) + 128) % 128 = 0
    omega
  · show u32 ((node.fileSize : ℤ) + 128) ≤ _
    omega
  · change k < u32 ((node.fileSize : ℤ) + 128) / 128 at hk
    by_cases hkj : k = j
    · rw [hkj]
      exact hlast
    · apply hfirst k
      show k < node.fileSize / 128
      omega

/-- INTERNAL: **the walk along a path that leads somewhere**, by induction on the pieces: what is
written back on the way are copies that may be old. SRCLINE: directory.c:17-37 -/
theorem behaves_searchPieces {Q : DirEntry → View → Prop} (h : Inv v none)
    (ps : List (List UInt8)) {e : DirEntry} (he : Extends v u) (hlive : v.live e.nodeNum)
    (hvalid : isValidEntry e = true) (hps : ∀ p ∈ ps, p ≠ [])
    (hwalk : v.tree.walk e.nodeNum ps = some d)
    (hQ : ∀ e' w, Later v u w → e'.nodeNum = d → isValidEntry e' = true → Q e' w) :
    (racing v).Behaves (Threaded.searchPieces ps e) Q u := by
  induction ps generalizing e u with
  | nil => exact Company.Behaves.pure fun w hw => hQ e w hw (Option.some.inj hwalk) hvalid
  | cons p ps ih =>
    rw [Namespace.walk] at hwalk
    cases hc : v.tree.lookup e.nodeNum p with
    | none =>
      rw [hc] at hwalk
      cases hwalk
    | some c =>
      rw [hc] at hwalk
      have hstate : (v.inode e.nodeNum).state = 2 := state_of_lookup (by rw [hc]; simp)
      have hlive' : v.live c :=
        h.tree.target_live _ hlive _ (Namespace.mem_targets_of_lookup hc)
      rw [Threaded.searchPieces, if_pos hvalid]
      refine Company.Behaves.bind (behaves_readNode h.toCore he hlive fun node w hw hl => ?_)
      refine Company.Behaves.bind (behaves_getEntry h.toCore (hw.keeps he) hlive hstate hl
        (hps p List.mem_cons_self) fun e' w₁ hw₁ hentry => ?_)
      have hl₁ := hl.later hw₁
      refine Company.Behaves.bind (behaves_nodeToBlock hlive.1 (hl₁.fits h.toCore hlive)
        (fun _ => hl₁) fun w₂ hw₂ => ?_)
      obtain ⟨rfl, hvalid'⟩ := hentry c hc
      have hall := later_trans hw (later_trans hw₁ hw₂)
      exact ih (hall.keeps he) hlive' hvalid' (fun q hq => hps q (List.mem_cons_of_mem _ hq)) hwalk
        fun e'' w₃ hw₃ => hQ e'' w₃ (later_trans hall hw₃)

end Threads

/-! ## A request -/

section Requests

variable {v u : View} {d : ℕ} {name : List UInt8} {path : CString}

/-- INTERNAL: the search for the directory, before the rest of a request. SRCLINE:
directory.c:17-37 -/
theorem behaves_searchPath {α : Type} {Q : α → View → Prop} {f : DirEntry → Thread α}
    (h : Inv v none) (he : Extends v u) {p : List UInt8}
    (hwalk : v.tree.walk 0 (stringSplit p) = some d)
    (hf : ∀ e w, Extends v w → e.nodeNum = d → isValidEntry e = true →
      (racing v).Behaves (f e) Q w) :
    (racing v).Behaves (Threaded.searchPath p >>= f) Q u := by
  have hps : ∀ q ∈ stringSplit p, q ≠ [] := by
    intro q hq
    have := (List.mem_filter.mp hq).2
    simpa using this
  exact Company.Behaves.bind (behaves_searchPieces h _ he h.live_root (by decide) hps hwalk
    fun e w hw => hf e w (hw.keeps he))

/-- INTERNAL: the write-back with which a request ends. -/
theorem behaves_writeBack {α : Type} {Q : α → View → Prop} {node : Node} (h : Core v)
    (hd : v.live d) (hl : Lengthened v u d (inodeOfNode node)) (a : α) (hQ : ∀ w, Q a w) :
    (racing v).Behaves (do
      Threaded.unmapAndDestroyNode node (2 + d)
      return a) Q u :=
  Company.Behaves.bind (behaves_nodeToBlock hd.1 (hl.fits h hd) (fun _ => hl)
    fun _ _ => Company.Behaves.pure fun w _ => hQ w)

/-- INTERNAL: **`sac_mkdir`** among others: it refuses a name that was there. SRCLINE:
sacio.c:13-50 -/
theorem behaves_sacMkdir (h : Inv v none) (he : Extends v u) (ht : Target v path d name)
    (hsize : (v.inode d).fileSize ≠ 0) :
    (racing v).Behaves (Threaded.sacMkdir path)
      (fun r _ => ∀ n, v.tree.lookup d name = some n → r = -1) u := by
  obtain ⟨front, hpath, hwalk⟩ := ht.cut
  obtain ⟨hlast, -, -⟩ := threaded_cut front ht.slash_free ht.name_ne
  obtain ⟨-, hpre, -⟩ := pieces_at_last_slash front ht.slash_free ht.name_ne
  have hd := ht.live h
  have hslot : ∀ n, 2 + n - nodeTableInitialBlock = n := fun n => Nat.add_sub_cancel_left 2 n
  unfold Threaded.sacMkdir
  rw [if_neg (by simp [ht.valid]), hpath, hlast]
  refine Company.Behaves.bind (Company.Behaves.pure fun w hw => ?_)
  rw [hpre]
  refine behaves_searchPath h (hw.keeps he) (by rw [stringSplit_slash]; exact hwalk)
    fun e w₁ he₁ hfound hvalid => ?_
  rw [if_pos hvalid, hfound]
  refine Company.Behaves.bind (behaves_readNode h.toCore he₁ hd fun node w₂ hw₂ hl => ?_)
  have he₂ := hw₂.keeps he₁
  refine Company.Behaves.bind (Company.Behaves.bind (behaves_getEntry h.toCore he₂ hd ht.state hl
    ht.name_ne fun entry w₃ hw₃ hentry => Company.Behaves.pure fun w₄ hw₄ => ?_))
  have hlater₄ := later_trans hw₃ hw₄
  have hl₄ := hl.later hlater₄
  split
  · exact behaves_writeBack h.toCore hd hl₄ _ fun w n _ => rfl
  next hexists =>
    -- the name was not there, so any answer will do
    have hnone : ∀ n, v.tree.lookup d name ≠ some n := fun n hn => hexists (hentry n hn).2
    unfold Threaded.createDirNodeAndAddEntry Threaded.createAndSaveDirNode
    refine Company.Behaves.bind (Company.Behaves.bind (behaves_getFreeNodeBlock h.toCore
      (hlater₄.keeps he₂) fun n w₅ hn hdead hw₅ hslots => ?_))
    dsimp only
    rw [hslot, readBlock_of_lt (show 2 + n < 3000 by omega)]
    refine Company.Behaves.bind (Company.Behaves.bind (behaves_newNode hd.1 ht.nul_free
      fun new w₆ hlen hfits hw₆ => ?_))
    refine Company.Behaves.bind (behaves_nodeToBlock hn hfits (fun hlive => absurd hlive hdead)
      fun w₇ hw₇ => ?_)
    refine behaves_nodeToBlock hn hfits (fun hlive => absurd hlive hdead) fun w₈ hw₈ => ?_
    have hlater₈ := later_trans hw₅ (later_trans hw₆ (later_trans hw₇ hw₈))
    have hroom := (hl₄.records ht.state).2.1
    have hslots₈ := slotsUsed_mono (later_trans hw₆ (later_trans hw₇ hw₈)).used
    refine behaves_addDirectoryEntry h.toCore (hlater₈.keeps (hlater₄.keeps he₂)) hd ht.state hsize
      (hl₄.later hlater₈) ?_ ht.name_ne ht.nul_free hlen n fun node' w₉ _ hl' => ?_
    · change node.fileSize ≤ _ at hroom
      omega
    · exact behaves_writeBack h.toCore hd hl' _ fun w n hn => absurd hn (hnone n)

/-- INTERNAL: **`sac_open`** among others: it finds the node of a name that was there. SRCLINE:
sacio.c:121-150, file.c:15-51 -/
theorem behaves_sacOpen (h : Inv v none) (he : Extends v u) (ht : Target v path d name)
    (hsize : (v.inode d).fileSize ≠ 0) :
    (racing v).Behaves (Threaded.sacOpen path)
      (fun r _ => ∀ n, v.tree.lookup d name = some n → r = n) u := by
  obtain ⟨front, hpath, hwalk⟩ := ht.cut
  obtain ⟨-, hlast, hfolder⟩ := threaded_cut front ht.slash_free ht.name_ne
  have hd := ht.live h
  have hslot : ∀ n, 2 + n - nodeTableInitialBlock = n := fun n => Nat.add_sub_cancel_left 2 n
  unfold Threaded.sacOpen
  rw [if_neg (by simp [ht.valid]), hpath, hfolder, hlast]
  refine Company.Behaves.bind (Company.Behaves.pure fun w hw => ?_)
  apply behaves_searchPath h (hw.keeps he) hwalk
  intro e w₁ he₁ hfound hvalid
  rw [if_neg (by simp [hvalid]), hfound]
  refine Company.Behaves.bind (Company.Behaves.pure fun w₂ hw₂ => ?_)
  refine Company.Behaves.bind (Company.Behaves.bind (behaves_readNode h.toCore (hw₂.keeps he₁) hd
    fun node w₃ hw₃ hl => ?_))
  have he₃ := hw₃.keeps (hw₂.keeps he₁)
  refine Company.Behaves.bind (Company.Behaves.bind (behaves_getEntry h.toCore he₃ hd ht.state hl
    ht.name_ne fun entry w₄ hw₄ hentry => Company.Behaves.pure fun w₅ hw₅ => ?_))
  have hlater₅ := later_trans hw₄ hw₅
  have he₅ := hlater₅.keeps he₃
  have hl₅ := hl.later hlater₅
  split
  · refine Company.Behaves.bind (behaves_getEntry h.toCore he₅ hd ht.state hl₅ ht.name_ne
      fun entry' w₆ hw₆ hentry' => ?_)
    refine behaves_writeBack h.toCore hd (hl₅.later hw₆) _ fun w₇ => ?_
    refine Company.Behaves.pure fun w₈ _ n hn => ?_
    obtain ⟨hnum, -⟩ := hentry' n hn
    have hlive := h.tree.target_live d hd n (Namespace.mem_targets_of_lookup hn)
    have hlt := hlive.1
    rw [hnum]
    exact i32_of_lt (by omega)
  next hexists =>
    -- the name was not there, so any answer will do
    have hnone : ∀ n, v.tree.lookup d name ≠ some n := fun n hn => hexists (hentry n hn).2
    refine Company.Behaves.bind (behaves_newNode hd.1 ht.nul_free fun new w₆ hlen hfits hw₆ => ?_)
    refine Company.Behaves.bind (behaves_getFreeNodeBlock h.toCore (hw₆.keeps he₅)
      fun n w₇ hn hdead hw₇ hslots => ?_)
    dsimp only
    rw [hslot, readBlock_of_lt (show 2 + n < 3000 by omega)]
    refine Company.Behaves.bind (behaves_nodeToBlock hn hfits (fun hlive => absurd hlive hdead)
      fun w₈ hw₈ => ?_)
    have hlater₈ := later_trans hw₆ (later_trans hw₇ hw₈)
    have hroom := ((hl₅.later hw₆).records ht.state).2.1
    have hslots₈ := slotsUsed_mono hw₈.used
    refine Company.Behaves.bind (behaves_addDirectoryEntry h.toCore (hlater₈.keeps he₅) hd ht.state
      hsize (hl₅.later hlater₈) ?_ ht.name_ne ht.nul_free hlen n fun node' w₉ hw₉ hl' => ?_)
    · change node.fileSize ≤ _ at hroom
      omega
    · refine Company.Behaves.bind (behaves_nodeToBlock hn hfits (fun hlive => absurd hlive hdead)
        fun w₁₀ hw₁₀ => ?_)
      apply behaves_writeBack h.toCore hd (hl'.later hw₁₀) _
      intro w₁₁
      exact Company.Behaves.pure fun w₁₂ _ n hn => absurd hn (hnone n)

end Requests

/-! ## All of them -/

/-- The requests create in directories that have entries. -/
structure Racing {ι : Type} (v : View) (request : ι → CreateRequest) : Prop where
  inv : Inv v none
  target : ∀ i, ∃ d name, Target v (request i).path d name ∧ (v.inode d).fileSize ≠ 0

/-- What a request answers when the node `n` is at its path already. -/
def foundAnswer : CreateRequest → ℕ → ℤ
  | .sacMkdir _, _ => -1
  | .sacOpen _, n => n

section Racing

variable {ι : Type} {v w : View} {request : ι → CreateRequest} {m n : ℕ} {s : SacState}
  {as : List (ι × DiskStep)} {c : SacState × (ι → Thread ℤ)}

/-- INTERNAL: a node that is not a directory has the fields it had. -/
theorem Extends.inode (he : Extends v w) (hm : v.live m) (hstate : (v.inode m).state ≠ 2) :
    w.inode m = v.inode m := by
  have hl := he.node m hm
  rcases hl.size with heq | ⟨hdir, -, -⟩
  · rw [hl.rest, heq]
  · exact absurd hdir hstate

/-- INTERNAL: a file has the bytes it had. -/
theorem Extends.content (he : Extends v w) (h : Core v) (hm : v.live m)
    (hfile : (v.inode m).state = 1) : content w m = content v m := by
  have hne : (v.inode m).state ≠ 2 := by rw [hfile]; decide
  have hinode := he.inode hm hne
  have hdata : ∀ r, v.held m r → w.data (v.place m r) = v.data (v.place m r) :=
    fun r hr => funext fun i => he.data m r i hr fun hdir => absurd hdir hne
  refine content_of_held h hm hfile (by rw [hinode]) fun r hr => ⟨?_, hdata r hr⟩
  cases r with
  | ptr i => simp only [View.place, hinode]
  | data k =>
    have hptr := (h.node m hm).refers_ptr hr.2
    simp only [View.place, hinode]
    exact dataBlock_congr (hdata (.ptr (k / 1024)) ⟨hm, hptr⟩)

theorem Extends.objectOf (he : Extends v w) (h : Core v) (hm : v.live m) :
    objectOf w m = objectOf v m :=
  objectOf_congr h hm (he.node m hm).state fun hfile => he.content h hm hfile

/-- INTERNAL: a name that was in a directory leads where it led. -/
theorem Extends.lookup {x : List UInt8} (he : Extends v w) (h : Core v) (hm : v.live m)
    (hx : v.tree.lookup m x = some n) : w.tree.lookup m x = some n := by
  have hstate : (v.inode m).state = 2 := state_of_lookup (by rw [hx]; simp)
  have hl := he.node m hm
  obtain ⟨-, hrecords⟩ := hl.dir he h hm hstate
  rw [Namespace.lookup, entries_dir hm hstate] at hx
  obtain ⟨r, hr, rfl⟩ := Option.map_eq_some_iff.mp hx
  rw [Namespace.lookup, entries_dir (he.live hm) (hl.state.trans hstate),
    hrecords.find?_eq_some hr, Option.map_some]

/-- INTERNAL: **the paths lead where they led**, by induction on the pieces. -/
theorem Extends.walk (he : Extends v w) (h : Inv v none) {ps : List (List UInt8)}
    (hm : v.live m) (hwalk : v.tree.walk m ps = some n) : w.tree.walk m ps = some n := by
  induction ps generalizing m with
  | nil => exact hwalk
  | cons p ps ih =>
    rw [Namespace.walk] at hwalk ⊢
    cases hc : v.tree.lookup m p with
    | none =>
      rw [hc] at hwalk
      cases hwalk
    | some c =>
      rw [hc] at hwalk
      rw [he.lookup h.toCore hm hc]
      exact ih (h.tree.target_live _ hm _ (Namespace.mem_targets_of_lookup hc)) hwalk

/-- INTERNAL: each request among the others. -/
theorem Racing.behaves (h : Racing v request) (i : ι) :
    (racing v).Behaves (request i).thread (fun r _ => ∀ n,
      v.tree.walk 0 (stringSplit (request i).path.val) = some n → r = foundAnswer (request i) n)
      v := by
  obtain ⟨d, name, ht, hsize⟩ := h.target i
  have he := extends_refl h.inv
  have hwalk := ht.walk
  cases hrequest : request i with
  | sacMkdir path =>
    rw [hrequest] at ht hwalk
    rw [hwalk]
    exact behaves_sacMkdir h.inv he ht hsize
  | sacOpen path =>
    rw [hrequest] at ht hwalk
    rw [hwalk]
    exact behaves_sacOpen h.inv he ht hsize

/-- **No creation touches what was there**, however the steps of the requests mix and wherever the
run is broken off: each path that led to a node leads to it, a directory or a file with the bytes
that it had, and a request whose path was taken answers as it would alone. SRCLINE:
server.c:74-112, sacio.c:13-50, sacio.c:121-150, directory.c:40-56 -/
theorem creations_keep [DecidableEq ι] (h : Racing (viewOf s) request)
    (hrun : Run (Steps.Turn DiskStep.exec) (s, fun i => (request i).thread) as c) :
    (∀ ps n, leadsTo s ps = some n → leadsTo c.1 ps = some n ∧
      objectOf (viewOf c.1) n = objectOf (viewOf s) n) ∧
      ∀ i r n, c.2 i = .done r → leadsTo s (stringSplit (request i).path.val) = some n →
        r = foundAnswer (request i) n := by
  obtain ⟨hlater, hanswers⟩ := Company.behaves_run (C := racing (viewOf s)) h.behaves hrun
  have he := hlater.keeps (extends_refl h.inv)
  have hroot := h.inv.live_root
  refine ⟨fun ps n hps => ⟨he.walk h.inv hroot hps, ?_⟩, fun i r n hdone => hanswers i r hdone n⟩
  exact he.objectOf h.inv.toCore (h.inv.tree.walk_live hroot hps)

/-- The statement for `mkdir /b` and then `mkdir /a` on a disk that has `/a`. -/
theorem creations_keep_two : ∃ (s : SacState) (as : List (Bool × DiskStep))
    (c : SacState × (Bool → Thread ℤ)) (n : ℕ), leadsTo s (stringSplit aPath.val) = some n ∧
      Run (Steps.Turn DiskStep.exec) (s, fun i => (twoRequests i).thread) as c ∧
        c.2 true = .done 0 ∧ c.2 false = .done (-1) ∧
          leadsTo c.1 (stringSplit aPath.val) = some n := by
  have hfresh := fresh_of_formatted formatted_newDisk
  have hinv := hfresh.plain.toInv
  obtain ⟨n, s, date, -, hc⟩ := exists_mkdir hinv (aPath_target hinv.toCore) (by decide)
    (hfresh.lookup_eq_none 0 _) (by omega) hfresh.spare
  have hlookup := hc.lookup hinv.live_root (hfresh.lookup_eq_none 0 [97])
  have hta := aPath_target hc.inv.toCore
  have htb := bPath_target hc.inv.toCore
  have hfound : (viewOf s).tree.lookup 0 [97] = some n := by rw [hlookup, if_pos rfl]
  have hmissing : (viewOf s).tree.lookup 0 [98] = none := by
    rw [hlookup, if_neg (by decide)]
    exact hfresh.lookup_eq_none 0 _
  have hsize : ((viewOf s).inode 0).fileSize ≠ 0 := by
    intro hzero
    have hmem := Namespace.lookup_eq_some hfound
    rw [entries_dir hc.inv.live_root hc.inv.root, View.records, hzero] at hmem
    cases hmem
  have hracing : Racing (viewOf s) twoRequests := by
    refine ⟨hc.inv, fun i => ?_⟩
    cases i
    · exact ⟨0, _, hta, hsize⟩
    · exact ⟨0, _, htb, hsize⟩
  -- `mkdir /b`, and then `mkdir /a`, which finds its name taken
  obtain ⟨m, s₁, date', hok, hc₁⟩ := exists_mkdir hc.inv htb (by decide) hmissing (k := 28)
    (by omega) (hc.spare hfresh.spare)
  have hfound₁ : (viewOf s₁).tree.lookup 0 [97] = some n := by
    rw [hc₁.lookup hc.inv.live_root hmissing, if_neg (by decide)]
    exact hfound
  have hrefused : vwp (sacMkdir aPath) (fun r _ => r = -1) (fun _ _ => False) (viewOf s₁) :=
    vwp_sacMkdir hc₁.inv (aPath_target hc₁.inv.toCore) (fun hnone => by
      rw [hfound₁] at hnone
      cases hnone) (fun _ => rfl) (fun hnone => by
      rw [hfound₁] at hnone
      cases hnone) fun hnone => by
      rw [hfound₁] at hnone
      cases hnone
  obtain ⟨r, s₂, hok₁, rfl⟩ := exists_ok_of_wp (hrefused s₁ rfl) fun _ _ hf => hf
  rw [← Threaded.run_sacMkdir] at hok hok₁
  obtain ⟨as₁, hrun₁, -⟩ := Steps.exists_run_alone (i := true)
    (t := fun i => (twoRequests i).thread) rfl hok
  obtain ⟨as₂, hrun₂, -⟩ := Steps.exists_run_alone (i := false)
    (t := Function.update (fun i => (twoRequests i).thread) true (.done 0)) rfl hok₁
  have hrun := hrun₁.append hrun₂
  have hleads : leadsTo s (stringSplit aPath.val) = some n := hta.walk.trans hfound
  exact ⟨s, _, _, n, hleads, hrun, rfl, rfl, ((creations_keep hracing hrun).1 _ n hleads).1⟩

end Racing

end LinuseFs.Analysis
