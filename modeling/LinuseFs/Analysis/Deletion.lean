import LinuseFs.Analysis.Creation

/-!
# Removing directories and files

`sac_rmdir` and `sac_remove` take the record out of the directory, clear the state of the
node and release its slot; `sac_remove` releases the blocks of the file before all of that.
Between the two the node is an orphan.
-/

set_option autoImplicit false

namespace LinuseFs.Analysis

open LinuseFs.Computation LinuseFs.Model LinuseFs.Interface

section Killed

variable {v w u : View} {d n : ℕ} {name : List UInt8}

/-- INTERNAL: **the orphan goes**: its slot is released, and of the data region only blocks
that it held. -/
theorem killed (h : Inv v (some n)) (hn : n < 32) (hn0 : n ≠ 0) (hempty : v.tree.entries n = [])
    (hinode : ∀ m, m ≠ n → w.inode m = v.inode m) (hdata : w.data = v.data)
    (hused : ∀ b, w.used b = true → v.used b = true)
    (hkept : ∀ b, v.used b = true → w.used b = false →
      b = 2 + n ∨ ∃ r, v.held n r ∧ v.place n r = b)
    (hbit : w.used (2 + n) = false) :
    Inv w none ∧ Namespace.Dead v.tree w.tree n ∧ Others n v w := by
  have hothers : Others n v w := by
    refine Others.of_touched h.toCore hn (fun b => w.used b ≠ v.used b) ?_ hinode ?_ ?_
    · intro b hb
      have hvb : v.used b = true := by
        by_contra hv
        rw [Bool.not_eq_true] at hv
        have hwb : w.used b = true := by
          cases hwb : w.used b with
          | true => rfl
          | false => exact absurd (hwb.trans hv.symm) hb
        rw [hused b hwb] at hv
        cases hv
      have hwb : w.used b = false := by
        rw [hvb] at hb
        simpa using hb
      rcases hkept b hvb hwb with e | ⟨r, hr, e⟩
      · exact Or.inl e
      · exact Or.inr ⟨e ▸ (h.inData hr).1, Or.inr ⟨r, hr, e⟩⟩
    · intro b hb
      exact not_not.mp hb
    · intro b _
      rw [hdata]
  have hdead : ¬ w.live n := by
    rintro ⟨-, hlive⟩
    rw [hbit] at hlive
    cases hlive
  have hcore : Core w :=
    h.toCore.change hothers (fun _ => False) (fun e => absurd e hn0) (fun hl => absurd hl hdead)
      (fun hl => absurd hl hdead) (fun r hr => absurd hr.1 hdead) (fun r hr => absurd hr.1 hdead)
      (fun r _ hr => absurd hr.1 hdead)
  have hkilled : Namespace.Dead v.tree w.tree n := by
    refine ⟨fun m => ?_, fun m hm => (hothers.entries h.toCore hm).1,
      fun m hm => (hothers.entries h.toCore hm).2⟩
    by_cases hm : m = n
    · subst hm
      exact ⟨fun hl => absurd hl hdead, fun hl => absurd rfl hl.2⟩
    · exact (hothers.live m hm).trans ⟨fun hl => ⟨hl, hm⟩, fun hl => hl.1⟩
  exact ⟨⟨hcore, h.tree.dead hkilled hn0 hempty⟩, hkilled, hothers⟩

/-- INTERNAL: what taking a record out does to the namespace. -/
theorem Removed.tree (hr : Removed v w d name n) (h : Core v) (hd : v.live d)
    (hstate : (v.inode d).state = 2) : Namespace.Unlinked v.tree w.tree d n := by
  refine ⟨hr.live, fun m hm => (hr.others.entries h hm).1, ?_, fun m _ => ?_⟩
  · obtain ⟨l₁, l₂, hbefore, -, hafter⟩ := hr.records
    refine ⟨name, l₁, l₂, ?_, ?_⟩
    · rw [entries_dir hd hstate, hbefore]
    · rw [entries_dir ((hr.live d).mpr hd) (hr.state.trans hstate), hafter]
  · by_cases hm : m = d
    · subst hm
      simp only [View.tree, hr.parentBlock]
    · exact (hr.others.entries h hm).2

/-- From `v` to `w` the directory `d` lost its entry for the node `n`, and `n` is gone, with the
blocks in `F`. -/
structure Deleted (v w : View) (d n : ℕ) (F : Set ℕ) : Prop where
  inv : Inv w none
  tree : ∃ t, Namespace.Unlinked v.tree t d n ∧ Namespace.Dead t w.tree n
  dead : ¬ w.live n
  dir : (w.inode d).state = 2
  inode : ∀ m, m ≠ n → m ≠ d → w.inode m = v.inode m
  held : ∀ m r, m ≠ n → m ≠ d → v.held m r →
    w.held m r ∧ w.place m r = v.place m r ∧ w.data (v.place m r) = v.data (v.place m r)
  used : ∀ b, w.used b = true ↔ v.used b = true ∧ b ≠ 2 + n ∧ b ∉ F
  metadata : w.metadata = v.metadata
  own : (v.inode d).fileSize ≠ 128 → ∀ r, v.held d r → w.held d r ∧ w.place d r = v.place d r

/-- INTERNAL: **taking the record out and releasing the node complete a removal.** -/
theorem deleted {F : Set ℕ} (h : Inv v none) (hd : v.live d) (hstate : (v.inode d).state = 2)
    (hr : Removed v u d name n) (hempty : v.tree.entries n = [])
    (hinode : ∀ m, m ≠ n → w.inode m = u.inode m) (hdata : w.data = u.data)
    (hmetadata : w.metadata = u.metadata)
    (hused : ∀ b, w.used b = true ↔ u.used b = true ∧ b ≠ 2 + n ∧ b ∉ F)
    (hF : ∀ b ∈ F, ∃ r, v.held n r ∧ v.place n r = b) : Deleted v w d n F := by
  have hbit : w.used (2 + n) = false := by
    rw [Bool.eq_false_iff]
    exact fun hb => ((hused _).mp hb).2.1 rfl
  have hunlinked := hr.tree h.toCore hd hstate
  obtain ⟨l₁, l₂, hrecords, -, -⟩ := hr.records
  have hmem : n ∈ v.tree.targets d := by
    rw [Namespace.targets, entries_dir hd hstate, hrecords]
    simp
  have hdn : d ≠ n := by
    rintro rfl
    simp [Namespace.targets, hempty] at hmem
  have hn := h.tree.target_live d hd n hmem
  have hn0 := h.tree.target_ne_root d hd n hmem
  have hu : Inv u (some n) := ⟨hr.core, h.tree.unlinked hunlinked hd⟩
  have hempty' : u.tree.entries n = [] := by rw [hunlinked.entries n (Ne.symm hdn), hempty]
  have hkept' : ∀ b, u.used b = true → w.used b = false →
      b = 2 + n ∨ ∃ r, u.held n r ∧ u.place n r = b := by
    intro b hub hwb
    by_cases hbn : b = 2 + n
    · exact Or.inl hbn
    · by_cases hbF : b ∈ F
      · obtain ⟨r, hheld, hplace⟩ := hF b hbF
        obtain ⟨hheld', hplace'⟩ := hr.others.place h.toCore (Ne.symm hdn) hheld
        exact Or.inr ⟨r, hheld', hplace'.trans hplace⟩
      · rw [(hused b).mpr ⟨hub, hbn, hbF⟩] at hwb
        cases hwb
  obtain ⟨hw, hkilled, hothers⟩ :=
    killed hu hn.1 hn0 hempty' hinode hdata (fun b hb => ((hused b).mp hb).1) hkept' hbit
  refine ⟨hw, ⟨_, hunlinked, hkilled⟩, ?_, ?_, ?_, ?_, ?_, ?_, ?_⟩
  · rintro ⟨-, hlive⟩
    rw [hbit] at hlive
    cases hlive
  · rw [hinode d hdn, hr.state, hstate]
  · intro m hmn hmd
    rw [hinode m hmn, hr.others.inode m hmd]
  · intro m r hmn hmd hheld
    obtain ⟨hheld', hplace⟩ := hr.others.place h.toCore hmd hheld
    obtain ⟨hheld'', hplace'⟩ := hothers.place hu.toCore hmn hheld'
    refine ⟨hheld'', hplace'.trans hplace, ?_⟩
    rw [hdata]
    exact hr.others.data m r hmd hheld
  · intro b
    rw [hused, hr.used]
  · rw [hmetadata, hr.metadata]
  · intro hmore r hheld
    obtain ⟨hheld', hplace⟩ := hr.own hmore r hheld
    obtain ⟨hheld'', hplace'⟩ := hothers.place hu.toCore hdn hheld'
    exact ⟨hheld'', hplace'.trans hplace⟩

end Killed

/-! ## The release loops of sac_remove -/

section Release

variable {v : View} {E : Fault → View → Prop} {node : Node}

theorem released_slot (F : Set ℕ) (p j : ℕ) : (v.released F).slot p j = v.slot p j := rfl

/-- INTERNAL: the inner loop releases the numbers in the slots it visits.
SRCLINE: sacio.c:461-465 -/
theorem vwp_liberarDatos {Q : ℕ → View → Prop} {p : ℕ} (hp : 34 ≤ p) (hp' : p < 3000)
    (n j c : ℕ) (hn : j + n ≤ 1024)
    (hslot : ∀ i, j ≤ i → i < j + n → i < j + c → v.slot p i < 3000)
    (h : Q (c - n)
      (v.released {b | ∃ i, j ≤ i ∧ i < j + n ∧ i < j + c ∧ v.slot p i = b})) :
    vwp (liberarDatos p n j c) Q E v := by
  induction n generalizing v j c with
  | zero =>
    have hempty : {b | ∃ i, j ≤ i ∧ i < j + 0 ∧ i < j + c ∧ v.slot p i = b} = ∅ := by
      rw [Set.eq_empty_iff_forall_notMem]
      rintro b ⟨i, h1, h2, -⟩
      omega
    rw [hempty, View.released_empty] at h
    exact vwp_pure h
  | succ n ih =>
    unfold liberarDatos
    by_cases hc : c > 0
    · rw [if_pos hc]
      refine vwp_bind (vwp_bytesToInt32 hp hp' (by omega) ?_)
      refine vwp_bind (vwp_bitarrayCleanBit (hslot j le_rfl (by omega) (by omega)) ?_)
      rw [View.setUsed_false]
      refine ih (j + 1) (c - 1) (by omega)
        (fun i h1 h2 h3 => hslot i (by omega) (by omega) (by omega)) ?_
      rw [View.released_released, show c - 1 - n = c - (n + 1) by omega]
      have hset : {leNat (v.data p) (j * 4) 4} ∪
          {b | ∃ i, j + 1 ≤ i ∧ i < j + 1 + n ∧ i < j + 1 + (c - 1) ∧ v.slot p i = b} =
          {b | ∃ i, j ≤ i ∧ i < j + (n + 1) ∧ i < j + c ∧ v.slot p i = b} := by
        ext b
        constructor
        · rintro (rfl | ⟨i, h1, h2, h3, rfl⟩)
          · exact ⟨j, le_rfl, by omega, by omega, rfl⟩
          · exact ⟨i, by omega, by omega, by omega, rfl⟩
        · rintro ⟨i, h1, h2, h3, rfl⟩
          by_cases hij : i = j
          · subst hij
            exact Or.inl rfl
          · exact Or.inr ⟨i, by omega, by omega, by omega, rfl⟩
      simp only [released_slot]
      rw [hset]
      exact h
    · rw [if_neg hc]
      have hempty : {b | ∃ i, j ≤ i ∧ i < j + (n + 1) ∧ i < j + c ∧ v.slot p i = b} = ∅ := by
        rw [Set.eq_empty_iff_forall_notMem]
        rintro b ⟨i, h1, h2, h3, -⟩
        omega
      rw [hempty, View.released_empty, show c - (n + 1) = c by omega] at h
      exact vwp_pure h

/-- The blocks that the loops release from pointer `i` on: the pointer blocks before the
first zero pointer, and the data blocks up to the count. -/
def freedFrom (v : View) (nd : Inode) (leading cant i : ℕ) : Set ℕ :=
  {b | (∃ l, i ≤ l ∧ l < leading ∧ nd.ptr l = b) ∨
    ∃ k, 1024 * i ≤ k ∧ k < cant ∧ k / 1024 < leading ∧ v.dataBlock nd k = b}

/-- INTERNAL: **the outer loop** releases the pointer blocks before the first zero pointer
and as many data blocks as the count says. SRCLINE: sacio.c:459-469 -/
theorem vwp_liberarPunteros {Q : Unit → View → Prop} (leading : ℕ) {cant : ℕ}
    (hend : leading < 1000 → node.indirectPointerBlock leading = 0) (hleading : leading ≤ 1000)
    (hptr : ∀ l < leading, 34 ≤ node.indirectPointerBlock l ∧ node.indirectPointerBlock l < 3000)
    (hdata : ∀ k < cant, k / 1024 < leading → v.dataBlock (inodeOfNode node) k < 3000)
    (n i : ℕ) (hn : i + n = 1000) (hi : i ≤ leading)
    (h : Q () (v.released (freedFrom v (inodeOfNode node) leading cant i))) :
    vwp (liberarPunteros node n i (cant - 1024 * i)) Q E v := by
  have hempty : i = leading → freedFrom v (inodeOfNode node) leading cant i = ∅ := by
    rintro rfl
    rw [Set.eq_empty_iff_forall_notMem]
    rintro b (⟨l, h1, h2, -⟩ | ⟨k, h1, -, h2, -⟩) <;> omega
  induction n generalizing v i with
  | zero =>
    rw [hempty (by omega), View.released_empty] at h
    exact vwp_pure h
  | succ n ih =>
    unfold liberarPunteros
    by_cases hil : i = leading
    · rw [if_neg (by rw [hil]; exact not_not.mpr (hend (by omega)))]
      rw [hempty hil, View.released_empty] at h
      exact vwp_pure h
    · obtain ⟨hp, hp'⟩ := hptr i (by omega)
      rw [if_pos (by omega), readBlock_of_lt hp']
      -- slot j of this pointer block is data block 1024 * i + j of the file
      have hslot : ∀ j < 1024, v.slot (node.indirectPointerBlock i) j =
          v.dataBlock (inodeOfNode node) (1024 * i + j) := by
        intro j hj
        rw [View.dataBlock, show (1024 * i + j) / 1024 = i by omega,
          show (1024 * i + j) % 1024 = j by omega]
        rfl
      refine vwp_bind (vwp_liberarDatos hp hp' 1024 0 _ (by omega) ?_ ?_)
      · intro j _ hj hjc
        rw [hslot j (by omega)]
        exact hdata _ (by omega) (by omega)
      refine vwp_bind (vwp_bitarrayCleanBit hp' ?_)
      rw [View.setUsed_false, View.released_released,
        show cant - 1024 * i - 1024 = cant - 1024 * (i + 1) by omega]
      apply ih (v := v.released _) hdata (i + 1) (by omega) (by omega)
      · rw [View.released_released]
        have hset : {b | ∃ j, 0 ≤ j ∧ j < 0 + 1024 ∧ j < 0 + (cant - 1024 * i) ∧
            v.slot (node.indirectPointerBlock i) j = b} ∪ {node.indirectPointerBlock i} ∪
            freedFrom v (inodeOfNode node) leading cant (i + 1) =
            freedFrom v (inodeOfNode node) leading cant i := by
          ext b
          constructor
          · rintro ((⟨j, -, h1, h2, rfl⟩ | rfl) | (⟨l, h1, h2, rfl⟩ | ⟨k, h1, h2, h3, rfl⟩))
            · exact Or.inr ⟨1024 * i + j, by omega, by omega, by omega, (hslot j (by omega)).symm⟩
            · exact Or.inl ⟨i, le_rfl, by omega, rfl⟩
            · exact Or.inl ⟨l, by omega, h2, rfl⟩
            · exact Or.inr ⟨k, by omega, h2, h3, rfl⟩
          · rintro (⟨l, h1, h2, rfl⟩ | ⟨k, h1, h2, h3, rfl⟩)
            · by_cases hl : l = i
              · subst hl
                exact Or.inl (Or.inr rfl)
              · exact Or.inr (Or.inl ⟨l, by omega, h2, rfl⟩)
            · by_cases hk : k < 1024 * (i + 1)
              · refine Or.inl (Or.inl ⟨k - 1024 * i, by omega, by omega, by omega, ?_⟩)
                rw [hslot _ (by omega), show 1024 * i + (k - 1024 * i) = k by omega]
              · exact Or.inr (Or.inr ⟨k, by omega, h2, h3, rfl⟩)
        have hfreed : ∀ F, freedFrom (v.released F) (inodeOfNode node) leading cant (i + 1) =
            freedFrom v (inodeOfNode node) leading cant (i + 1) := fun F => rfl
        rw [hfreed, hset]
        exact h
      · rintro e
        rw [Set.eq_empty_iff_forall_notMem]
        rintro b (⟨l, h1, h2, -⟩ | ⟨k, h1, -, h2, -⟩) <;> omega

end Release

/-! ## The operations -/

section Operations

variable {v : View} {path : CString} {d n : ℕ} {name : List UInt8}

theorem DirBlocks.released {nd : Inode} (h : DirBlocks v nd) (F : Set ℕ) :
    DirBlocks (v.released F) nd :=
  ⟨⟨h.ok.size, h.ok.size_le, h.ok.ptr_zero, h.ok.ptr, h.ok.name⟩, h.ptr, h.data⟩

/-- INTERNAL: a node that an entry leads to records the directory of the entry.
SRCLINE: utils.c:88-99 -/
theorem parentBlock_of_lookup (h : Inv v none) (hd : v.live d)
    (hlookup : v.tree.lookup d name = some n) :
    v.live n ∧ n ≠ 0 ∧ (v.inode n).parentBlock = 2 + d := by
  have hmem := Namespace.mem_targets_of_lookup hlookup
  have hlive := h.tree.target_live d hd n hmem
  have hn0 := h.tree.target_ne_root d hd n hmem
  have hparent : (v.inode n).parentBlock - 2 = d := h.tree.target_parent d hd n hmem
  have hge := h.parent n hlive hn0
  exact ⟨hlive, hn0, by omega⟩

/-- The number of pointers before the first zero one. -/
def leadingPointers (nd : Inode) : ℕ :=
  (firstFree (fun i => nd.ptr i != 0) pointersPerNode 0).getD pointersPerNode

theorem leadingPointers_eq (node : Node) :
    node.leadingPointers = leadingPointers (inodeOfNode node) := rfl

/-- The blocks that `sac_remove` releases before it touches the directory. -/
def freedByRemove (v : View) (nd : Inode) : Set ℕ :=
  freedFrom v nd (leadingPointers nd) (nd.fileSize / 4096 + 1) 0

/-- INTERNAL: **what `sac_remove` releases was held by the file.** SRCLINE: sacio.c:455-469 -/
theorem held_of_freed (hn : v.live n) (hstate : (v.inode n).state = 1)
    (hleading : ∀ i < leadingPointers (v.inode n), (v.inode n).ptr i ≠ 0) {b : ℕ}
    (hb : b ∈ freedByRemove v (v.inode n)) : ∃ r, v.held n r ∧ v.place n r = b := by
  rcases hb with ⟨i, -, hi, rfl⟩ | ⟨k, -, hk, hkl, rfl⟩
  · exact ⟨.ptr i, ⟨hn, hleading i hi⟩, rfl⟩
  · have hptr : (v.inode n).ptr 0 ≠ 0 := hleading 0 (by omega)
    refine ⟨.data k, ⟨hn, ?_⟩, rfl⟩
    rw [Inode.refers, blocks_file hstate hptr]
    exact hk

/-- INTERNAL: **`sac_remove`** removes the file under the name, and answers -1 when there is no
file. SRCLINE: sacio.c:434-488 -/
theorem vwp_sacRemove {Q : ℤ → View → Prop} {E : Fault → View → Prop} (h : Inv v none)
    (ht : Target v path d name)
    (hnofile : (∀ n, v.tree.lookup d name = some n → (v.inode n).state ≠ 1) → Q (-1) v)
    (hdeleted : ∀ n w, v.tree.lookup d name = some n → (v.inode n).state = 1 →
      Deleted v w d n (freedByRemove v (v.inode n)) → Q 0 w) :
    vwp (sacRemove path) Q E v := by
  have hd := ht.live h
  unfold sacRemove
  rw [if_neg (by simp [ht.valid])]
  refine vwp_bind (vwp_searchPath_target h ht ?_ ?_)
  · rintro e n hlookup rfl hvalid -
    obtain ⟨hn, hn0, hparent⟩ := parentBlock_of_lookup h hd hlookup
    generalize e.nodeNum = n at hlookup hn hn0 hparent ⊢
    rw [if_neg (by simp [hvalid])]
    refine vwp_bind (vwp_readNode hn.1 (h.node n hn).named fun file hfile => ?_)
    have hfile_state : file.state = (v.inode n).state := by rw [← hfile]; rfl
    dsimp only
    by_cases hstate : (v.inode n).state = 1
    · rw [if_neg (by rw [hfile_state, hstate]; decide)]
      obtain ⟨hle, hleading, hend⟩ := leadingPointers_spec file
      have hfs : file.fileSize = (v.inode n).fileSize := by rw [← hfile]; rfl
      have hptr : file.indirectPointerBlock = (v.inode n).ptr := by rw [← hfile]; rfl
      have hcount : file.leadingPointers = leadingPointers (v.inode n) := by
        rw [leadingPointers_eq, hfile]
      rw [hcount, hptr] at hleading hend
      rw [hcount] at hle
      have hfreed := fun b => held_of_freed (b := b) hn hstate hleading
      have hlt : ∀ b ∈ freedByRemove v (v.inode n), 34 ≤ b ∧ b < 3000 := by
        intro b hb
        obtain ⟨r, hr, rfl⟩ := hfreed b hb
        exact ⟨(h.inData hr).1, (h.inData hr).2.1⟩
      -- the blocks of the file
      refine vwp_bind (vwp_liberarPunteros (leadingPointers (v.inode n)) (by rw [hptr]; exact hend) hle
        ?_ ?_ 1000 0 rfl (Nat.zero_le _) ?_)
      · intro l hl
        exact hlt _ (Or.inl ⟨l, Nat.zero_le _, hl, by rw [hptr]⟩)
      · intro k hk hkl
        rw [hfs] at hk
        rw [hfile]
        exact (hlt _ (Or.inr ⟨k, Nat.zero_le _, hk, hkl, rfl⟩)).2
      have hset : freedFrom v (inodeOfNode file) (leadingPointers (v.inode n))
          (file.fileSize / blockSize + 1) 0 = freedByRemove v (v.inode n) := by
        rw [hfile, hfs]
        rfl
      rw [hset]
      -- the record in the directory
      have hdn : d ≠ n := by
        rintro rfl
        rw [ht.state] at hstate
        exact absurd hstate (by decide)
      have hlt' := hd.1
      have hblock : readBlock file.parentBlock = 2 + d := by
        have hpb : file.parentBlock = 2 + d := by
          rw [← hparent, ← hfile]
          rfl
        rw [hpb, readBlock_of_lt (show 2 + d < 3000 by omega)]
      rw [hblock]
      refine vwp_bind (vwp_blockToNode hd.1 (h.node d hd).named fun parent hparentNode => ?_)
      obtain ⟨front, hpath, -⟩ := ht.cut
      obtain ⟨-, hlast, -, -⟩ := cut_at_last_slash front ht.slash_free ht.name_ne
      rw [hpath, hlast]
      refine vwp_bind (vwp_pure (vwp_bind ?_))
      have hdir := (dirBlocks h.toCore hd ht.state).released (freedByRemove v (v.inode n))
      apply vwp_deleteDirectoryEntry ht.state hdir hparentNode ht.name_ne
      · intro parent' l₁ m l₂ hrecords hfirst hparent'
        have hm := lookup_of_first hd ht.state hrecords hfirst
        rw [hlookup] at hm
        cases hm
        have hremoved := removed h.toCore hd ht.state hrecords hfirst
        have hfits : (inodeOfNode parent').Fits := by
          have := (hremoved.core.node d ((hremoved.live d).mpr hd)).fits
          rw [takenOut, View.setInode_same] at this
          rwa [hparent']
        refine vwp_bind (vwp_unmapAndDestroyNode hd.1 hfits ?_)
        have hfits' : (inodeOfNode { file with state := 0 }).Fits := by
          have := (h.node n hn).fits
          rw [← hfile] at this
          exact ⟨this.1, this.2, this.3, this.4, this.5, this.6⟩
        refine vwp_bind (vwp_unmapAndDestroyNode hn.1 hfits' ?_)
        have hbit : getBlockNumFromNodeNum n = 2 + n := rfl
        have hnlt := hn.1
        rw [hbit]
        refine vwp_bind (vwp_bitarrayCleanBit (by omega) (vwp_pure ?_))
        refine hdeleted n _ hlookup hstate (deleted h hd ht.state hremoved
          (entries_of_state_ne (by rw [hstate]; decide)) ?_ rfl rfl (fun b => ?_)
          fun b hb => hfreed b hb)
        · intro m hm
          rw [View.setUsed_inode, View.setInode_ne _ hm, hparent']
          rfl
        · rw [View.setUsed_false, View.released_used, Set.mem_singleton_iff]
          have hrel := View.released_used (v := v) (freedByRemove v (v.inode n)) b
          have hsame : (takenOut v d l₁.length).used b = v.used b := rfl
          rw [hsame]
          exact ⟨fun hb => ⟨(hrel.mp hb.1).1, hb.2, (hrel.mp hb.1).2⟩,
            fun hb => ⟨hrel.mpr ⟨hb.1, hb.2.2⟩, hb.2.1⟩⟩
      · intro hnone
        have := lookup_of_none hd ht.state hnone
        rw [hlookup] at this
        cases this
    · rw [if_pos (by rw [hfile_state]; exact hstate)]
      refine vwp_bind (vwp_unmapAndDestroyNode hn.1 (hfile ▸ (h.node n hn).fits) (vwp_pure ?_))
      rw [hfile, View.setInode_self]
      apply hnofile
      intro m hm
      rw [hlookup] at hm
      cases hm
      exact hstate
  · intro e hmissing hinvalid _
    rw [if_pos (by simp [hinvalid])]
    refine vwp_pure (hnofile fun m hm => ?_)
    rw [hmissing] at hm
    cases hm

/-- INTERNAL: at the end of the list the loop stops. SRCLINE: sacio.c:93-99 -/
theorem listarHijos_end {rounds i : ℕ} {lista : List DirEntry} (hrounds : 0 < rounds)
    (hi : lista.length ≤ i) : listarHijos rounds i lista = pure lista := by
  obtain ⟨rounds, rfl⟩ := Nat.exists_eq_add_of_lt hrounds
  rw [Nat.zero_add, listarHijos, List.getElem?_eq_none hi]

/-- INTERNAL: an empty directory adds nothing to the list. SRCLINE: directory.c:319-335 -/
theorem vwp_addChildsToList_empty {Q : List DirEntry → View → Prop} {E : Fault → View → Prop}
    {e : DirEntry} {orphan : Option ℕ} (h : Inv v orphan) (hn : v.live e.nodeNum)
    (hstate : (v.inode e.nodeNum).state = 2) (hsize : (v.inode e.nodeNum).fileSize = 0)
    (lista : List DirEntry) (hQ : Q lista v) : vwp (addChildsToList lista e) Q E v := by
  refine vwp_bind (vwp_readNode hn.1 (h.node _ hn).named fun node hnode => ?_)
  have hdir : DirBlocks v (inodeOfNode node) := by
    rw [hnode]
    exact dirBlocks h.toCore hn hstate
  have hnode_state : node.state = 2 := by
    rw [← hstate, ← hnode]
    rfl
  refine vwp_bind (vwp_iteratePointersBlocks hnode_state hdir lista fun e' _ _ _ _ => ?_)
  have hrecords : v.records (inodeOfNode node) = [] := by simp [View.records, hnode, hsize]
  rw [hrecords]
  refine vwp_bind (vwp_unmapAndDestroyNode hn.1 (hnode ▸ (h.node _ hn).fits) (vwp_pure ?_))
  rw [hnode, View.setInode_self]
  exact hQ

/-- INTERNAL: a node without pointers has no pointer block to free. SRCLINE: directory.c:85-96 -/
theorem vwp_deleteAllDirectoryEntries_empty {Q : Unit → View → Prop} {E : Fault → View → Prop}
    {orphan : Option ℕ} (h : Inv v orphan) (hn : v.live n) (hptr : (v.inode n).ptr 0 = 0)
    (hQ : Q () v) : vwp (deleteAllDirectoryEntries n) Q E v := by
  refine vwp_bind (vwp_readNode hn.1 (h.node _ hn).named fun node hnode => ?_)
  have hzero : node.indirectPointerBlock 0 = 0 := by
    rw [← hnode] at hptr
    exact hptr
  have hnone : freePointersBlocks node pointersPerNode 0 = pure () := by
    rw [freePointersBlocks, if_neg (not_not.mpr hzero)]
  dsimp only
  rw [hnone]
  refine vwp_bind (vwp_pure (vwp_unmapAndDestroyNode hn.1 (hnode ▸ (h.node _ hn).fits) ?_))
  rw [hnode, View.setInode_self]
  exact hQ

/-- INTERNAL: **`delete_node`** clears the state of the node and releases its slot.
SRCLINE: node.c:26-43 -/
theorem vwp_deleteNode {Q : Unit → View → Prop} {E : Fault → View → Prop}
    {orphan : Option ℕ} (h : Inv v orphan) (hn : v.live n)
    (hQ : ∀ nd, Q () ((v.setInode n nd).setUsed (2 + n) false)) :
    vwp (deleteNode n) Q E v := by
  refine vwp_bind (vwp_readNode hn.1 (h.node _ hn).named fun node hnode => ?_)
  have hfits := (h.node n hn).fits
  rw [← hnode] at hfits
  refine vwp_bind (vwp_unmapAndDestroyNode hn.1 ?_ ?_)
  · exact ⟨hfits.1, hfits.2, hfits.3, hfits.4, hfits.5, hfits.6⟩
  · have hlt := hn.1
    exact vwp_bitarrayCleanBit (show 2 + n < 3000 by omega) (hQ _)

/-- INTERNAL: **`delete_parent_entry`** takes the record of the node out of its directory.
SRCLINE: utils.c:202-218 -/
theorem vwp_deleteParentEntry {Q : Unit → View → Prop} {E : Fault → View → Prop} {e : DirEntry}
    (h : Inv v none) (hd : v.live d) (hstate : (v.inode d).state = 2) (hname : name ≠ [])
    (hlookup : v.tree.lookup d name = some e.nodeNum) (he : e.name = name)
    (hQ : ∀ u, Removed v u d name e.nodeNum → Q () u) : vwp (deleteParentEntry e) Q E v := by
  obtain ⟨hn, -, hparent⟩ := parentBlock_of_lookup h hd hlookup
  refine vwp_bind (vwp_readNode hn.1 (h.node _ hn).named fun node hnode => ?_)
  have hlt := hd.1
  have hblock : readBlock node.parentBlock = 2 + d := by
    have hpb : node.parentBlock = 2 + d := by
      rw [← hparent, ← hnode]
      rfl
    rw [hpb, readBlock_of_lt (show 2 + d < 3000 by omega)]
  dsimp only
  rw [hblock, he]
  refine vwp_bind (vwp_blockToNode hd.1 (h.node d hd).named fun parent hparentNode => ?_)
  refine vwp_bind (vwp_deleteDirectoryEntry hstate (dirBlocks h.toCore hd hstate) hparentNode
    hname (fun parent' l₁ m l₂ hrecords hfirst hparent' => ?_) fun hnone => ?_)
  · have hm := lookup_of_first hd hstate hrecords hfirst
    rw [hlookup] at hm
    cases hm
    have hremoved := removed h.toCore hd hstate hrecords hfirst
    have hfits := (hremoved.core.node d ((hremoved.live d).mpr hd)).fits
    rw [takenOut, View.setInode_same, ← hparent'] at hfits
    refine vwp_bind (vwp_unmapAndDestroyNode hn.1 (hnode ▸ (h.node _ hn).fits) ?_)
    have hself : inodeOfNode node =
        (moveDown v (v.dataBlock (v.inode d) 0) l₁.length).inode e.nodeNum := hnode
    rw [hself, View.setInode_self]
    apply vwp_unmapAndDestroyNode hd.1 hfits
    rw [hparent']
    exact hQ _ hremoved
  · have := lookup_of_none hd hstate hnone
    rw [hlookup] at this
    cases this

/-- INTERNAL: **`sac_rmdir`** removes the empty directory under the name, answers -2 when it is
not empty and -1 when there is no directory. SRCLINE: sacio.c:52-119 -/
theorem vwp_sacRmdir {Q : ℤ → View → Prop} {E : Fault → View → Prop} (h : Inv v none)
    (ht : Target v path d name)
    (hnodir : (∀ n, v.tree.lookup d name = some n → (v.inode n).state ≠ 2) → Q (-1) v)
    (hfull : ∀ n, v.tree.lookup d name = some n → (v.inode n).state = 2 →
      (v.inode n).fileSize ≠ 0 → Q (-2) v)
    (hdeleted : ∀ n w, v.tree.lookup d name = some n → (v.inode n).state = 2 →
      (v.inode n).fileSize = 0 → Deleted v w d n ∅ → Q 0 w) :
    vwp (sacRmdir path) Q E v := by
  have hd := ht.live h
  obtain ⟨front, hpath, -⟩ := ht.cut
  obtain ⟨hlast, -, -, -⟩ := cut_at_last_slash front ht.slash_free ht.name_ne
  rw [← hpath] at hlast
  unfold sacRmdir
  rw [if_neg (by simp [ht.valid]), hlast]
  refine vwp_bind (vwp_pure (vwp_bind (vwp_searchPath_target h ht ?_ ?_)))
  · rintro e n hlookup rfl hvalid hename
    obtain ⟨hn, hn0, hparent⟩ := parentBlock_of_lookup h hd hlookup
    rw [if_neg (by simp [hvalid])]
    refine vwp_bind (vwp_bind (vwp_readNode hn.1 (h.node _ hn).named fun node hnode => ?_))
    have hnode_state : node.state = (v.inode e.nodeNum).state := by rw [← hnode]; rfl
    apply vwp_pure
    by_cases hstate : (v.inode e.nodeNum).state = 2
    · rw [if_neg (by simp [hnode_state, hstate])]
      refine vwp_bind (vwp_readNode hn.1 (h.node _ hn).named fun dir hdir => ?_)
      have hfs : dir.fileSize = (v.inode e.nodeNum).fileSize := by rw [← hdir]; rfl
      dsimp only
      by_cases hsize : (v.inode e.nodeNum).fileSize = 0
      · rw [if_neg (by omega)]
        have hempty : v.tree.entries e.nodeNum = [] := by
          rw [entries_dir hn hstate]
          simp [View.records, hsize]
        refine vwp_bind (vwp_deleteParentEntry h hd ht.state ht.name_ne hlookup hename
          fun u hremoved => ?_)
        have hunlinked := hremoved.tree h.toCore hd ht.state
        have hu : Inv u (some e.nodeNum) := ⟨hremoved.core, h.tree.unlinked hunlinked hd⟩
        have hnd : e.nodeNum ≠ d := by
          rintro rfl
          have := Namespace.lookup_eq_some hlookup
          rw [hempty] at this
          cases this
        have hun : u.live e.nodeNum := (hremoved.live _).mpr hn
        have hinode := hremoved.others.inode e.nodeNum hnd
        have hptr := ((h.node _ hn).dir hstate).ptr_zero.mpr hsize
        -- the list of nodes to delete is the directory itself
        refine vwp_bind (vwp_addChildsToList_empty hu hun (by rw [hinode, hstate])
          (by rw [hinode, hsize]) [e] ?_)
        rw [listarHijos_end (by decide) (by simp)]
        refine vwp_bind (vwp_pure (vwp_bind ?_))
        refine vwp_bind (vwp_deleteAllDirectoryEntries_empty hu hun (by rw [hinode, hptr]) ?_)
        refine vwp_bind (vwp_deleteNode hu hun fun nd => ?_)
        refine vwp_pure (vwp_pure (hdeleted _ _ hlookup hstate hsize
          (deleted h hd ht.state hremoved hempty ?_ rfl rfl (fun b => ?_) fun _ hb => hb.elim)))
        · intro m hm
          rw [View.setUsed_inode, View.setInode_ne _ hm]
        · rw [View.setUsed_false, View.released_used, Set.mem_singleton_iff]
          simp
      · rw [if_pos (by omega)]
        refine vwp_bind (vwp_unmapAndDestroyNode hn.1 (hdir ▸ (h.node _ hn).fits) (vwp_pure ?_))
        rw [hdir, View.setInode_self]
        exact hfull _ hlookup hstate hsize
    · rw [if_pos (by simp [hnode_state, hstate])]
      refine vwp_pure (hnodir fun m hm => ?_)
      rw [hlookup] at hm
      cases hm
      exact hstate
  · intro e hmissing hinvalid _
    rw [if_pos (by simp [hinvalid])]
    refine vwp_pure (hnodir fun m hm => ?_)
    rw [hmissing] at hm
    cases hm

/-- INTERNAL: what is not there is not removed. SRCLINE: sacio.c:434-443 -/
theorem vwp_sacRemove_missing {Q : ℤ → View → Prop} {E : Fault → View → Prop} {orphan : Option ℕ}
    (h : Inv v orphan) (hvalid : isValidPath path.val = true)
    (hpass : Passable v 0 (stringSplit path.val))
    (hnone : v.tree.walk 0 (stringSplit path.val) = none) (hQ : Q (-1) v) :
    vwp (sacRemove path) Q E v := by
  unfold sacRemove
  rw [if_neg (by simp [hvalid])]
  refine vwp_bind (vwp_searchPath_missing h hpass hnone fun e hinvalid => ?_)
  rw [if_pos (by simp [hinvalid])]
  exact vwp_pure hQ

/-- INTERNAL: a directory that is not there is not removed. SRCLINE: sacio.c:52-70 -/
theorem vwp_sacRmdir_missing {Q : ℤ → View → Prop} {E : Fault → View → Prop} {orphan : Option ℕ}
    (h : Inv v orphan) (hvalid : isValidPath path.val = true) (hroot : path.val ≠ [slash])
    (hpass : Passable v 0 (stringSplit path.val))
    (hnone : v.tree.walk 0 (stringSplit path.val) = none) (hQ : Q (-1) v) :
    vwp (sacRmdir path) Q E v := by
  obtain ⟨front, name, hpath, hslash, hname⟩ := exists_last_piece hvalid hroot
  obtain ⟨hlast, -, -, -⟩ := cut_at_last_slash front hslash hname
  rw [← hpath] at hlast
  unfold sacRmdir
  rw [if_neg (by simp [hvalid]), hlast]
  refine vwp_bind (vwp_pure (vwp_bind (vwp_searchPath_missing h hpass hnone
    fun e hinvalid => ?_)))
  rw [if_pos (by simp [hinvalid])]
  exact vwp_pure hQ

end Operations

end LinuseFs.Analysis
