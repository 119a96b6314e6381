import LinuseFs.Analysis.NameRuns

/-!
# What a removal takes away

`sac_remove` releases the pointer blocks of a file up to the first zero pointer.  A truncation
can leave a pointer behind a zero one, and the blocks behind it are not released then; in all
other cases a removal takes exactly one node, its name and its blocks.
-/

set_option autoImplicit false

namespace LinuseFs.Analysis

open LinuseFs.Computation LinuseFs.Model LinuseFs.Interface

/-- The pointer blocks and the data blocks of a node. -/
def blocksOf (v : View) (n : ℕ) : Set ℕ := {b | ∃ r, v.held n r ∧ v.place n r = b}

/-- There is no pointer behind a zero one. -/
def NoGap (nd : Inode) : Prop := ∀ i j, i ≤ j → nd.ptr j ≠ 0 → nd.ptr i ≠ 0

/-- From `s` to `s'` the path, its node `n`, and the blocks in `F` are gone. -/
structure Removes (s s' : SacState) (path : CString) (n : ℕ) (F : Set ℕ) : Prop where
  gone : leadsTo s' (stringSplit path.val) = none
  others : ∀ ps, ¬ stringSplit path.val <+: ps → leadsTo s' ps = leadsTo s ps
  used : ∀ b, s'.used b = true ↔ s.used b = true ∧ b ≠ 2 + n ∧ b ∉ F
  files : ∀ m, m ≠ n → (viewOf s).live m → ((viewOf s).inode m).state = 1 →
    (viewOf s').live m ∧ (viewOf s').inode m = (viewOf s).inode m ∧
      content (viewOf s') m = content (viewOf s) m
  search : ∀ path', Passable (viewOf s') 0 (stringSplit path') →
    ∃ e s'', searchPath path' s' = .ok e s'' ∧ foundNode e = leadsTo s' (stringSplit path')

/-- What `sac_remove` and `sac_rmdir` do with a path: the one removes a file, the other an empty
directory, and nothing changes otherwise. -/
structure DeletesOneNode (s : SacState) (path : CString) : Prop where
  file : ∀ n, leadsTo s (stringSplit path.val) = some n → ((viewOf s).inode n).state = 1 →
    ∃ s', sacRemove path s = .ok 0 s' ∧ Removes s s' path n (blocksOf (viewOf s) n)
  notFile : (∀ n, leadsTo s (stringSplit path.val) = some n → ((viewOf s).inode n).state ≠ 1) →
    ∃ s', sacRemove path s = .ok (-1) s' ∧ viewOf s' = viewOf s
  empty : ∀ n, leadsTo s (stringSplit path.val) = some n → ((viewOf s).inode n).state = 2 →
    (viewOf s).tree.entries n = [] →
    ∃ s', sacRmdir path s = .ok 0 s' ∧ Removes s s' path n ∅
  full : ∀ n, leadsTo s (stringSplit path.val) = some n → ((viewOf s).inode n).state = 2 →
    (viewOf s).tree.entries n ≠ [] →
    ∃ s', sacRmdir path s = .ok (-2) s' ∧ viewOf s' = viewOf s
  notDirectory : (∀ n, leadsTo s (stringSplit path.val) = some n →
    ((viewOf s).inode n).state ≠ 2) →
    ∃ s', sacRmdir path s = .ok (-1) s' ∧ viewOf s' = viewOf s

/-! ## The blocks that are released -/

section Freed

variable {v : View} {n : ℕ}

/-- INTERNAL: the pointers up to the first zero one, for a node on the disk. -/
theorem leadingPointers_inode (nd : Inode) :
    leadingPointers nd ≤ 1000 ∧ (∀ i < leadingPointers nd, nd.ptr i ≠ 0) ∧
      (leadingPointers nd < 1000 → nd.ptr (leadingPointers nd) = 0) :=
  leadingPointers_spec ⟨0, fun _ => 0, 0, 0, 0, 0, nd.ptr⟩

/-- INTERNAL: a pointer is reached by the scan when none before it is zero. -/
theorem lt_leadingPointers_iff {nd : Inode} (hfits : nd.Fits) {j : ℕ} :
    j < leadingPointers nd ↔ ∀ i ≤ j, nd.ptr i ≠ 0 := by
  obtain ⟨hle, hbefore, hend⟩ := leadingPointers_inode nd
  constructor
  · intro hj i hi
    exact hbefore i (by omega)
  · intro hall
    by_contra hge
    by_cases hlt : leadingPointers nd < 1000
    · exact hall _ (by omega) (hend hlt)
    · exact hall j le_rfl (hfits.ptr_past j (by omega))

/-- INTERNAL: without a stray pointer there is no gap. -/
theorem NoStray.noGap {nd : Inode} (h : NoStray nd) (hfile : FileOk nd) (hptr : nd.ptr 0 ≠ 0) :
    NoGap nd := by
  intro i j hij hj
  have hlast : j ≤ (nd.fileSize / 4096 + 1) / 1024 := by
    by_contra hlt
    exact hj (h j (not_le.mp hlt))
  by_cases hi : i ≤ nd.fileSize / 4096 / 1024
  · exact hfile.ptr hptr i hi
  · obtain rfl : i = j := by omega
    exact hj

/-- INTERNAL: **without a gap all blocks of the file are released.** -/
theorem freedByRemove_of_noGap (h : Core v) (hn : v.live n) (hstate : (v.inode n).state = 1)
    (hgap : NoGap (v.inode n)) : freedByRemove v (v.inode n) = blocksOf v n := by
  have hnode := h.node n hn
  have hleading := fun j => lt_leadingPointers_iff hnode.fits (j := j)
  ext b
  constructor
  · exact held_of_freed hn hstate (leadingPointers_inode _).2.1
  · rintro ⟨r, hr, rfl⟩
    cases r with
    | ptr i => exact Or.inl ⟨i, Nat.zero_le i, (hleading i).mpr fun j hj => hgap j i hj hr.2, rfl⟩
    | data k =>
      have hptr := hnode.refers_ptr hr.2
      have hfirst := hgap 0 _ (Nat.zero_le _) hptr
      have hk := hr.2
      rw [Inode.refers, blocks_file hstate hfirst] at hk
      exact Or.inr ⟨k, Nat.zero_le _, hk, (hleading _).mpr fun j hj => hgap j _ hj hptr, rfl⟩

/-- INTERNAL: a pointer behind a zero one is not released. -/
theorem notMem_freedByRemove (h : Core v) (hn : v.live n) (hstate : (v.inode n).state = 1)
    {i j : ℕ} (hij : i ≤ j) (hzero : (v.inode n).ptr i = 0) (hj : (v.inode n).ptr j ≠ 0) :
    (v.inode n).ptr j ∉ freedByRemove v (v.inode n) := by
  have hheld : v.held n (.ptr j) := ⟨hn, hj⟩
  obtain ⟨-, hbefore, -⟩ := leadingPointers_inode (v.inode n)
  rintro (⟨l, -, hl, e⟩ | ⟨k, -, hk, hkl, e⟩)
  · have hlj := (h.own.inj n (.ptr l) n (.ptr j) ⟨hn, hbefore l hl⟩ hheld e).2
    cases hlj
    exact hbefore i (by omega) hzero
  · have hkheld : v.held n (.data k) := by
      refine ⟨hn, ?_⟩
      rw [Inode.refers, blocks_file hstate (hbefore 0 (by omega))]
      exact hk
    have hkj := (h.own.inj n (.data k) n (.ptr j) hkheld hheld e).2
    cases hkj

end Freed

/-! ## The paths after a removal -/

section Removes

variable {s s' : SacState} {path : CString} {d n : ℕ} {name : List UInt8} {F : Set ℕ}

/-- INTERNAL: **a removal as seen from the paths.** -/
theorem Deleted.removes (hk : Deleted (viewOf s) (viewOf s') d n F) (h : Inv (viewOf s) none)
    (hnames : (viewOf s).tree.DistinctNames) (ht : Target (viewOf s) path d name)
    (hlookup : (viewOf s).tree.lookup d name = some n) : Removes s s' path n F := by
  obtain ⟨t, hunlinked, hdead⟩ := hk.tree
  obtain ⟨front, hpath, hfront⟩ := ht.cut
  have hsplit := stringSplit_append front ht.slash_free ht.name_ne
  rw [← hpath] at hsplit
  have hwalk := Namespace.walk_removed h.tree hnames hunlinked hdead (ht.live h) hfront hlookup
  refine ⟨?_, fun ps hps => ?_, hk.used, fun m hmn hm hstate => ?_, fun path' hpass => ?_⟩
  · rw [leadsTo, hwalk, hsplit, if_pos (List.prefix_refl _)]
  · rw [hsplit] at hps
    rw [leadsTo, hwalk, if_neg hps, leadsTo]
  · have hmd : m ≠ d := by
      rintro rfl
      rw [ht.state] at hstate
      exact absurd hstate (by decide)
    have hinode := hk.inode m hmn hmd
    refine ⟨(hdead.live m).mpr ⟨(hunlinked.live m).mpr hm, hmn⟩, hinode, ?_⟩
    exact content_of_held h.toCore hm hstate (by rw [hinode]) fun r hr => (hk.held m r hmn hmd hr).2
  · obtain ⟨e, s'', hok, -, hfound⟩ := exists_searchPath hk.inv hpass
    exact ⟨e, s'', hok, hfound⟩

end Removes

/-! ## The operations -/

section Operations

variable {s : SacState} {path : CString} {d n : ℕ} {name : List UInt8}

/-- INTERNAL: what `sac_remove` does to a file. -/
theorem exists_remove (h : Inv (viewOf s) none) (ht : Target (viewOf s) path d name)
    (hlookup : (viewOf s).tree.lookup d name = some n)
    (hstate : ((viewOf s).inode n).state = 1) :
    ∃ s', sacRemove path s = .ok 0 s' ∧
      Deleted (viewOf s) (viewOf s') d n (freedByRemove (viewOf s) ((viewOf s).inode n)) := by
  have hwp : vwp (sacRemove path) (fun r w => r = 0 ∧
      Deleted (viewOf s) w d n (freedByRemove (viewOf s) ((viewOf s).inode n)))
      (fun _ _ => False) (viewOf s) := by
    refine vwp_sacRemove h ht (fun hnofile => absurd hstate (hnofile n hlookup))
      fun m w hm _ hk => ⟨rfl, ?_⟩
    rw [hlookup] at hm
    cases hm
    exact hk
  obtain ⟨r, s', hok, rfl, hk⟩ := exists_ok_of_wp (hwp s rfl) fun _ _ hf => hf
  exact ⟨s', hok, hk⟩

/-- INTERNAL: what `sac_remove` does to what is not a file. -/
theorem exists_remove_notFile (h : Inv (viewOf s) none) (ht : Target (viewOf s) path d name)
    (hnofile : ∀ n, (viewOf s).tree.lookup d name = some n → ((viewOf s).inode n).state ≠ 1) :
    ∃ s', sacRemove path s = .ok (-1) s' ∧ viewOf s' = viewOf s := by
  have hwp : vwp (sacRemove path) (fun r w => r = -1 ∧ w = viewOf s) (fun _ _ => False)
      (viewOf s) :=
    vwp_sacRemove h ht (fun _ => ⟨rfl, rfl⟩) fun m _ hm hstate _ => absurd hstate (hnofile m hm)
  obtain ⟨r, s', hok, rfl, hview⟩ := exists_ok_of_wp (hwp s rfl) fun _ _ hf => hf
  exact ⟨s', hok, hview⟩

/-- INTERNAL: a directory has no entries when its size says so. -/
theorem entries_eq_nil_iff (h : Core (viewOf s)) (hn : (viewOf s).live n)
    (hstate : ((viewOf s).inode n).state = 2) :
    (viewOf s).tree.entries n = [] ↔ ((viewOf s).inode n).fileSize = 0 := by
  have hsize := ((h.node n hn).dir hstate).size
  rw [entries_dir hn hstate, ← List.length_eq_zero_iff, length_records]
  omega

/-- INTERNAL: **what `sac_rmdir` does** in each of its cases. -/
theorem exists_rmdir (h : Inv (viewOf s) none) (ht : Target (viewOf s) path d name) :
    ∃ r s', sacRmdir path s = .ok r s' ∧
      ((r = -1 ∧ viewOf s' = viewOf s ∧ ∀ n, (viewOf s).tree.lookup d name = some n →
          ((viewOf s).inode n).state ≠ 2) ∨
        ∃ n, (viewOf s).tree.lookup d name = some n ∧ ((viewOf s).inode n).state = 2 ∧
          ((r = -2 ∧ viewOf s' = viewOf s ∧ (viewOf s).tree.entries n ≠ []) ∨
            (r = 0 ∧ (viewOf s).tree.entries n = [] ∧ Deleted (viewOf s) (viewOf s') d n ∅))) := by
  have hentries : ∀ n, (viewOf s).tree.lookup d name = some n → ((viewOf s).inode n).state = 2 →
      ((viewOf s).tree.entries n = [] ↔ ((viewOf s).inode n).fileSize = 0) :=
    fun n hn => entries_eq_nil_iff h.toCore (parentBlock_of_lookup h (ht.live h) hn).1
  have hwp : vwp (sacRmdir path) (fun r w =>
      (r = -1 ∧ w = viewOf s ∧ ∀ n, (viewOf s).tree.lookup d name = some n →
          ((viewOf s).inode n).state ≠ 2) ∨
        ∃ n, (viewOf s).tree.lookup d name = some n ∧ ((viewOf s).inode n).state = 2 ∧
          ((r = -2 ∧ w = viewOf s ∧ (viewOf s).tree.entries n ≠ []) ∨
            (r = 0 ∧ (viewOf s).tree.entries n = [] ∧ Deleted (viewOf s) w d n ∅)))
      (fun _ _ => False) (viewOf s) := by
    refine vwp_sacRmdir h ht (fun hnodir => Or.inl ⟨rfl, rfl, hnodir⟩)
      (fun n hn hstate hsize => Or.inr ⟨n, hn, hstate, Or.inl ⟨rfl, rfl, fun hnil => ?_⟩⟩)
      fun n w hn hstate hsize hk => Or.inr ⟨n, hn, hstate, Or.inr ⟨rfl, ?_, hk⟩⟩
    · exact hsize ((hentries n hn hstate).mp hnil)
    · exact (hentries n hn hstate).mpr hsize
  exact exists_ok_of_wp (hwp s rfl) fun _ _ hf => hf

/-- **A removal takes exactly one node if and only if** the path leads to no file or to one
whose pointers have no gap. SRCLINE: sacio.c:434-488, sacio.c:52-119 -/
theorem deletes_one_node_iff (h : Inv (viewOf s) none) (hnames : (viewOf s).tree.DistinctNames)
    (hpath : isValidPath path.val = true ∧ path.val ≠ [slash])
    (hparent : leadsTo s (stringSplit path.val).dropLast = some d)
    (hdir : ((viewOf s).inode d).state = 2) :
    DeletesOneNode s path ↔ ∀ n, leadsTo s (stringSplit path.val) = some n →
      ((viewOf s).inode n).state = 1 → NoGap ((viewOf s).inode n) := by
  have ht := exists_target hpath.1 hpath.2 hparent hdir
  have hwalk : leadsTo s (stringSplit path.val) =
      (viewOf s).tree.lookup d ((stringSplit path.val).getLastD []) := ht.walk
  constructor
  · intro hdel n hfound hstate i j hij hj hzero
    obtain ⟨s', hok, hremoves⟩ := hdel.file n hfound hstate
    rw [hwalk] at hfound
    obtain ⟨s'', hok', hdeleted⟩ := exists_remove h ht hfound hstate
    obtain rfl : s' = s'' := by
      rw [hok] at hok'
      exact (EStateM.Result.ok.inj hok').2
    have hn := (parentBlock_of_lookup h (ht.live h) hfound).1
    -- the block behind the gap stays used, and it was a block of the file
    have hheld : (viewOf s).held n (.ptr j) := ⟨hn, hj⟩
    obtain ⟨hge, -, hused⟩ := h.inData hheld
    have hkept : (viewOf s').used ((viewOf s).place n (.ptr j)) = true := by
      rw [hdeleted.used]
      have hlt := hn.1
      exact ⟨hused, by omega, notMem_freedByRemove h.toCore hn hstate hij hzero hj⟩
    exact ((hremoves.used _).mp hkept).2.2 ⟨.ptr j, hheld, rfl⟩
  · intro hgap
    obtain ⟨r, s', hok, hcases⟩ := exists_rmdir h ht
    refine ⟨fun n hfound hstate => ?_, fun hnofile => ?_, fun n hfound hstate hempty => ?_,
      fun n hfound hstate hfull => ?_, fun hnodir => ?_⟩
    · have hlookup := hfound
      rw [hwalk] at hlookup
      obtain ⟨s'', hok', hdeleted⟩ := exists_remove h ht hlookup hstate
      have hn := (parentBlock_of_lookup h (ht.live h) hlookup).1
      rw [freedByRemove_of_noGap h.toCore hn hstate (hgap n hfound hstate)] at hdeleted
      exact ⟨s'', hok', hdeleted.removes h hnames ht hlookup⟩
    · rw [hwalk] at hnofile
      exact exists_remove_notFile h ht hnofile
    · rw [hwalk] at hfound
      rcases hcases with ⟨-, -, hnodir⟩ | ⟨m, hm, -, hcase⟩
      · exact absurd hstate (hnodir n hfound)
      · rw [hfound] at hm
        cases hm
        rcases hcase with ⟨-, -, hfull⟩ | ⟨rfl, -, hdeleted⟩
        · exact absurd hempty hfull
        · exact ⟨s', hok, hdeleted.removes h hnames ht hfound⟩
    · rw [hwalk] at hfound
      rcases hcases with ⟨-, -, hnodir⟩ | ⟨m, hm, -, hcase⟩
      · exact absurd hstate (hnodir n hfound)
      · rw [hfound] at hm
        cases hm
        rcases hcase with ⟨rfl, hview, -⟩ | ⟨-, hempty, -⟩
        · exact ⟨s', hok, hview⟩
        · exact absurd hempty hfull
    · rw [hwalk] at hnodir
      rcases hcases with ⟨rfl, hview, -⟩ | ⟨m, hm, hstate, -⟩
      · exact ⟨s', hok, hview⟩
      · exact absurd hstate (hnodir m hm)

/-- The statement for a file with one byte. -/
theorem deletes_one_node_one_byte : ∃ (s : SacState) (n : ℕ), OneFile s n 1 ∧
    (DeletesOneNode s aPath ↔ ∀ m, leadsTo s (stringSplit aPath.val) = some m →
      ((viewOf s).inode m).state = 1 → NoGap ((viewOf s).inode m)) := by
  obtain ⟨n, -, s, -, -, hs, -⟩ := exists_oneFile [1] Nat.one_pos (by decide)
  exact ⟨s, n, hs, deletes_one_node_iff hs.toInv hs.names (by decide) rfl hs.root⟩

end Operations

/-! ## A file with a gap -/

section Gap

variable {s : SacState} {i n b : ℕ}

/-- The state after the file `n` got the block `b` as its pointer `i`. -/
def withPointer (s : SacState) (n i b : ℕ) : SacState :=
  (s.take b).setBlock (2 + n) (memcpy (s.disk (2 + n)) (96 + 4 * i) (leBytes b) 4)

theorem viewOf_withPointer (hn : n < 32) (hi : i < 1000) (hb : b < 2 ^ 32) :
    viewOf (withPointer s n i b) = ((viewOf s).setUsed b true).setInode n
      { (viewOf s).inode n with ptr := Function.update ((viewOf s).inode n).ptr i b } := by
  rw [withPointer, viewOf_setBlock_node _ _ hn, viewOf_take, viewOf_inode hn]
  congr 1
  simp only [inodeOf, Inode.mk.injEq]
  refine ⟨memcpy_outside (by omega), cstr_memcpy_outside (by omega),
    leNat_memcpy_outside (by omega), leNat_memcpy_outside (by omega),
    leNat_memcpy_outside (by omega), leNat_memcpy_outside (by omega), ?_⟩
  funext j
  rw [Function.update_apply]
  by_cases hji : j = i
  · subst hji
    rw [if_pos hi, if_pos rfl, leNat_memcpy_leBytes, Nat.mod_eq_of_lt (show b < 256 ^ 4 from hb)]
  · rw [if_neg hji]
    split
    · rw [leNat_memcpy_outside (by omega)]
    · rfl

/-- INTERNAL: a pointer to a free block, behind those that the size asks for, keeps the file
system well formed. -/
theorem withPointer_inv (h : Inv (viewOf s) none) (hn : (viewOf s).live n)
    (hstate : ((viewOf s).inode n).state = 1) (hi : i < 1000) (hi0 : i ≠ 0)
    (hpast : ((viewOf s).inode n).ptr i = 0) (hb : 34 ≤ b) (hb' : b < 3000)
    (hfree : (viewOf s).used b = false) :
    Inv (viewOf (withPointer s n i b)) none ∧
      (viewOf (withPointer s n i b)).tree = (viewOf s).tree := by
  have hview := viewOf_withPointer (s := s) hn.1 hi (show b < 2 ^ 32 by omega)
  generalize viewOf (withPointer s n i b) = w at *
  have hinode : w.inode n = { (viewOf s).inode n with
      ptr := Function.update ((viewOf s).inode n).ptr i b } := by
    rw [hview, View.setInode_same]
  have hused : ∀ c, w.used c = if c = b then true else (viewOf s).used c := by
    intro c
    rw [hview, View.setInode_used]
    by_cases hc : c = b
    · rw [if_pos hc, hc, View.setUsed_same]
    · rw [if_neg hc, View.setUsed_ne _ hc]
  have hdata : w.data = (viewOf s).data := by
    rw [hview]
    rfl
  have hothers : Others n (viewOf s) w := by
    apply Others.of_touched h.toCore hn.1 (fun c => c = b)
    · rintro c rfl
      exact Or.inr ⟨hb, Or.inl hfree⟩
    · intro m hm
      rw [hview, View.setInode_ne _ hm]
      rfl
    · intro c hc
      rw [hused, if_neg hc]
    · intro c _
      rw [hdata]
  have hlive : ∀ m, w.live m ↔ (viewOf s).live m := by
    intro m
    unfold View.live
    by_cases hm : m < 32
    · rw [hused, if_neg (by omega)]
    · simp only [hm, false_and]
  have hstate' : (w.inode n).state = ((viewOf s).inode n).state := by rw [hinode]
  have hparent : (w.inode n).parentBlock = ((viewOf s).inode n).parentBlock := by rw [hinode]
  have hptr : ∀ j, j ≠ i → (w.inode n).ptr j = ((viewOf s).inode n).ptr j := by
    intro j hj
    rw [hinode]
    exact Function.update_of_ne hj ..
  have hptri : (w.inode n).ptr i = b := by
    rw [hinode]
    exact Function.update_self ..
  have hnode := h.node n hn
  have hfile := hnode.file hstate
  have hrefers : ∀ r, (w.inode n).refers r → r ≠ .ptr i → ((viewOf s).inode n).refers r := by
    intro r hr hne
    cases r with
    | ptr j =>
      have hj : j ≠ i := fun e => hne (by rw [e])
      simp only [Inode.refers, hptr j hj] at hr
      exact hr
    | data k =>
      simp only [Inode.refers, Inode.blocks, hptr 0 (Ne.symm hi0)] at hr
      rw [hinode] at hr
      exact hr
  have hplace : ∀ r, (viewOf s).held n r → r ≠ .ptr i → w.place n r = (viewOf s).place n r := by
    intro r hr hne
    cases r with
    | ptr j => exact hptr j fun e => hne (by rw [e])
    | data k =>
      have hne' : k / 1024 ≠ i := by
        intro e
        have := hnode.refers_ptr hr.2
        rw [e] at this
        exact this hpast
      simp only [View.place, View.dataBlock, View.slot, hptr _ hne', hdata]
  have hnode' : NodeOk w (w.inode n) := by
    have hfits := hnode.fits
    refine ⟨?_, Or.inl (hstate'.trans hstate), ?_, fun e => ?_, fun _ => ⟨fun e => ?_, ?_⟩⟩
    · rw [hinode]
      refine ⟨hfits.1, hfits.2, hfits.3, hfits.4, fun j => ?_, fun j hj => ?_⟩
      · dsimp only
        rw [Function.update_apply]
        split
        · omega
        · exact hfits.ptr j
      · dsimp only
        rw [Function.update_of_ne (by omega)]
        exact hfits.ptr_past j hj
    · rw [hinode]
      exact hnode.named
    · rw [hstate', hstate] at e
      exact absurd e (by decide)
    · rw [hptr 0 (Ne.symm hi0)] at e
      rw [hinode]
      exact hfile.empty e
    · intro hne j hj
      by_cases hji : j = i
      · rw [hji, hptri]
        omega
      · rw [hptr 0 (Ne.symm hi0)] at hne
        rw [hptr j hji]
        apply hfile.ptr hne j
        rw [hinode] at hj
        exact hj
  have hcore : Core w := by
    refine h.toCore.change hothers (fun r => r = .ptr i) ?_ (fun _ => hnode') ?_ ?_ ?_ ?_
    · rintro rfl
      rw [h.root] at hstate
      exact absurd hstate (by decide)
    · intro _ hn0
      rw [hparent]
      exact h.parent n hn hn0
    · intro r hr hne
      have hheld : (viewOf s).held n r := ⟨hn, hrefers r hr.2 hne⟩
      obtain ⟨h1, h2, h3⟩ := h.inData hheld
      refine ⟨hheld, hplace r hheld hne, h1, h2, ?_⟩
      rw [hused]
      split
      · rfl
      · exact h3
    · rintro r - rfl
      have hp : w.place n (.ptr i) = b := hptri
      rw [hp]
      exact ⟨not_inData hfree, hb, hb', by rw [hused, if_pos rfl]⟩
    · rintro r q - rfl - rfl -
      rfl
  have htree := tree_of_others hothers h.toCore hlive (by rw [hstate]; decide) hstate' hparent
  refine ⟨⟨hcore, ?_⟩, htree⟩
  rw [htree]
  exact h.tree

/-- A file of one byte with a pointer behind a zero one: `sac_remove` answers 0, and the block of
that pointer stays used. SRCLINE: sacio.c:459 -/
theorem remove_keeps_block_behind_gap : ∃ (t : SacState) (n b : ℕ) (s' : SacState),
    OneFile t n 1 ∧
    (Inv (viewOf (withPointer t n 2 b)) none ∧ (viewOf (withPointer t n 2 b)).tree.DistinctNames) ∧
    sacRemove aPath (withPointer t n 2 b) = .ok 0 s' ∧
    b ∈ blocksOf (viewOf (withPointer t n 2 b)) n ∧ s'.used b = true ∧
    ¬ DeletesOneNode (withPointer t n 2 b) aPath := by
  have hlen : [(1 : UInt8)].length = 1 := rfl
  obtain ⟨n, -, t, -, -, ht, hroom, -⟩ := exists_oneFile [1] Nat.one_pos (by decide)
  obtain ⟨b, hb, hb', hfree⟩ : ∃ b, 34 ≤ b ∧ b < 3000 ∧ t.used b = false := by
    by_contra hnone
    have hzero : freeCount t.used 34 3000 = 0 := by
      rw [freeCount_eq_zero_iff]
      intro b hb hb'
      by_contra hne
      exact hnone ⟨b, hb, hb', Bool.eq_false_iff.mpr hne⟩
    omega
  have hpast : ∀ i, 0 < i → ((viewOf t).inode n).ptr i = 0 := by
    intro i hi
    apply ht.noStray i
    rw [ht.size_eq]
    exact hi
  obtain ⟨hinv, htree⟩ := withPointer_inv ht.toInv ht.live ht.state (by decide) (by decide)
    (hpast 2 (by decide)) hb hb' hfree
  have hview := viewOf_withPointer (s := t) (n := n) (i := 2) (b := b) ht.live.1 (by decide)
    (show b < 2 ^ 32 by omega)
  have hinode : (viewOf (withPointer t n 2 b)).inode n = { (viewOf t).inode n with
      ptr := Function.update ((viewOf t).inode n).ptr 2 b } := by
    rw [hview, View.setInode_same]
  have hlookup := ht.found
  rw [leadsTo, ← htree, (aPath_target hinv.toCore).walk] at hlookup
  have hstate : ((viewOf (withPointer t n 2 b)).inode n).state = 1 := by
    rw [hinode]
    exact ht.state
  have hn := (parentBlock_of_lookup hinv hinv.live_root hlookup).1
  have hptr : ((viewOf (withPointer t n 2 b)).inode n).ptr 2 = b := by
    simp only [hinode, Function.update_self]
  have hzero : ((viewOf (withPointer t n 2 b)).inode n).ptr 1 = 0 := by
    have hne : (1 : ℕ) ≠ 2 := by decide
    simp only [hinode, Function.update_of_ne hne]
    exact hpast 1 (by decide)
  have hptr0 : ((viewOf (withPointer t n 2 b)).inode n).ptr 2 ≠ 0 := by
    rw [hptr]
    omega
  have hheld : (viewOf (withPointer t n 2 b)).held n (.ptr 2) := ⟨hn, hptr0⟩
  have hmem : b ∈ blocksOf (viewOf (withPointer t n 2 b)) n := ⟨_, hheld, hptr⟩
  obtain ⟨s', hok, hdeleted⟩ := exists_remove hinv (aPath_target hinv.toCore) hlookup hstate
  have hkept : s'.used b = true := by
    have hlt := hn.1
    have hnot := notMem_freedByRemove hinv.toCore hn hstate (show 1 ≤ 2 by decide) hzero hptr0
    rw [hptr] at hnot
    have hused := (hinv.inData hheld).2.2
    change (viewOf _).used (((viewOf (withPointer t n 2 b)).inode n).ptr 2) = true at hused
    rw [hptr] at hused
    exact (hdeleted.used b).mpr ⟨hused, by omega, hnot⟩
  refine ⟨t, n, b, s', ht, ⟨hinv, by rw [htree]; exact ht.names⟩, hok, hmem, hkept,
    fun hdel => ?_⟩
  have hfound : leadsTo (withPointer t n 2 b) (stringSplit aPath.val) = some n := by
    rw [leadsTo, htree]
    exact ht.found
  obtain ⟨s'', hok', hremoves⟩ := hdel.file n hfound hstate
  rw [hok] at hok'
  obtain rfl : s' = s'' := (EStateM.Result.ok.inj hok').2
  exact ((hremoves.used b).mp hkept).2.2 hmem

end Gap

end LinuseFs.Analysis
