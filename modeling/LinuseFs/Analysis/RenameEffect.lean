import LinuseFs.Analysis.NameRuns

/-!
# What a rename does to the names

`sac_rename` appends the record of the node under its new name without looking whether the name
is there.  When it is not, exactly one name has moved; when it is, the old record comes first
and keeps the name.  A name of more than 70 bytes is written to the record as well, and no
reader finds its end.
-/

set_option autoImplicit false

namespace LinuseFs.Analysis

open LinuseFs.Computation LinuseFs.Model LinuseFs.Interface

/-- From `s` to `s'` the node `n` went from the old path to the new one, and nothing else did. -/
structure MovesOneName (s s' : SacState) (oldPath newPath : CString) (n : ℕ) : Prop where
  found : leadsTo s' (stringSplit newPath.val) = some n
  gone : leadsTo s' (stringSplit oldPath.val) = none
  others : ∀ ps, ¬ stringSplit oldPath.val <+: ps → ¬ stringSplit newPath.val <+: ps →
    leadsTo s' ps = leadsTo s ps
  parent : ∃ d, leadsTo s' (stringSplit newPath.val).dropLast = some d ∧
    ((viewOf s').inode n).parentBlock = 2 + d
  names : (viewOf s').tree.DistinctNames
  search : ∀ path, Passable (viewOf s') 0 (stringSplit path) →
    ∃ e s'', searchPath path s' = .ok e s'' ∧ foundNode e = leadsTo s' (stringSplit path)

/-- When `sac_rename` returns 0 the node has moved; only the allocator may stop it before. -/
def RenamesRight (s : SacState) (oldPath newPath : CString) (n : ℕ) : Prop :=
  wp (sacRename oldPath newPath) (fun r s' => r = 0 → MovesOneName s s' oldPath newPath n)
    (fun e _ => e.IsAlloc) s

/-- The record has no room in the directory: there is no other one, and there are no two free
data blocks. -/
def NoRoom (v : View) (d d' : ℕ) : Prop :=
  (if d' = d then (v.inode d).fileSize - 128 else (v.inode d').fileSize) = 0 ∧
    freeCount v.used 34 3000 ≤ 1

/-! ## What does not allocate -/

/-- The function does not stop for lack of blocks. -/
def NoAlloc {α : Type} (x : Sac α) : Prop :=
  ∀ s, wp x (fun _ _ => True) (fun e _ => ¬ e.IsAlloc) s

section NoAlloc

variable {α β : Type} {x : Sac α} {f : α → Sac β} {v : View}

theorem NoAlloc.vwp (h : NoAlloc x) : vwp x (fun _ _ => True) (fun e _ => ¬ e.IsAlloc) v :=
  fun s _ => h s

theorem NoAlloc.bind (hx : NoAlloc x) (hf : ∀ a, NoAlloc (f a)) : NoAlloc (x >>= f) :=
  fun s => wp_bind_of (hx s) (fun a s' _ => hf a s') fun _ _ he => he

theorem noAlloc_pure (a : α) : NoAlloc (pure a : Sac α) := fun _ => trivial

theorem noAlloc_memory : NoAlloc (throw .memory : Sac α) := fun _ => not_isAlloc_memory

theorem noAlloc_malloc : NoAlloc malloc := fun _ => malloc_wp fun _ _ => trivial

theorem noAlloc_load (block pos len : ℕ) : NoAlloc (load block pos len) := by
  intro s
  by_cases h : block < totalBlocks ∧ pos + len ≤ blockSize
  · exact load_wp h.1 h.2 trivial
  · simp only [load, wp_bind, wp_get]
    rw [if_neg h]
    exact not_isAlloc_memory

theorem noAlloc_store (block pos : ℕ) (src : Bytes) (len : ℕ) :
    NoAlloc (store block pos src len) := by
  intro s
  by_cases h : block < totalBlocks ∧ pos + len ≤ blockSize
  · exact store_wp h.1 h.2 trivial
  · simp only [store, wp_bind, wp_get]
    rw [if_neg h]
    exact not_isAlloc_memory

theorem noAlloc_unmapAndDestroyNode (node : Node) (block : ℕ) :
    NoAlloc (unmapAndDestroyNode node block) :=
  (noAlloc_load _ _ _).bind fun _ => noAlloc_store _ _ _ _

theorem noAlloc_createNode (state : UInt8) (name : List UInt8) (a b c d : ℕ) (ptr : ℕ → ℕ) :
    NoAlloc (createNode state name a b c d ptr) := by
  apply noAlloc_malloc.bind
  intro fresh
  split
  · exact noAlloc_pure _
  · exact noAlloc_memory

theorem noAlloc_readNode (n : ℕ) : NoAlloc (readNode n) := by
  refine NoAlloc.bind ((noAlloc_load _ _ _).bind fun bytes => ?_) fun _ => noAlloc_pure _
  dsimp only
  split
  · exact noAlloc_memory
  · exact noAlloc_createNode _ _ _ _ _ _ _

end NoAlloc

/-! ## The second half of a rename -/

section EnterNew

variable {u : View} {d n : ℕ} {name : List UInt8} {orphan : Option ℕ}

/-- INTERNAL: **with room for the record the rename is answered with 0**, whatever the name,
unless the name overruns a buffer. SRCLINE: directory.c:40-56 -/
theorem vwp_enterNew_answers (h : Inv u orphan) (hd : u.live d) (hstate : (u.inode d).state = 2)
    (hroom : name.length < 124 → (u.inode d).fileSize = 0 → 2 ≤ freeCount u.used 34 3000) :
    vwp (enterNew d name n) (fun r _ => r = 0) (fun e _ => ¬ e.IsAlloc) u := by
  have hsize := ((h.node d hd).dir hstate).size_le
  -- nothing allocates behind the search for the data block
  let tail : Node → ℕ → Sac ℤ := fun node block => do
    unmapAndDestroyNode node block
    let r ← readNode n
    unmapAndDestroyNode { r.1 with parentBlock := u32 (d + nodeTableInitialBlock) } r.2
    return 0
  have htail : ∀ (node : Node) (block : ℕ) (w : View),
      vwp (tail node block) (fun r _ => r = 0) (fun e _ => ¬ e.IsAlloc) w := by
    intro node block w
    apply vwp_bind_of (noAlloc_unmapAndDestroyNode _ _).vwp (fun _ _ he => he)
    intro _ _ _
    apply vwp_bind_of (noAlloc_readNode n).vwp (fun _ _ he => he)
    intro _ _ _
    apply vwp_bind_of (noAlloc_unmapAndDestroyNode _ _).vwp (fun _ _ he => he)
    intro _ _ _
    exact vwp_pure rfl
  unfold enterNew
  refine vwp_bind (vwp_readNode hd.1 (h.node d hd).named fun node hnode => ?_)
  refine vwp_bind (vwp_bind (vwp_malloc fun stack => ?_))
  by_cases hlen : name.length < 124
  · rw [if_pos hlen, getNextWritePosition_dir hnode hsize]
    have hstores : ∀ (b : ℕ) (node' : Node) (w : View), vwp (do
        store b (u.inode d).fileSize (leBytes n) 4
        store b ((u.inode d).fileSize + 4)
          (memcpy stack 0 (ofList (name ++ [0])) (name.length + 1)) 124
        return { node' with fileSize := u32 (node'.fileSize + 128) })
        (fun node'' w' =>
          vwp (tail node'' (2 + d)) (fun r _ => r = 0) (fun e _ => ¬ e.IsAlloc) w')
        (fun e _ => ¬ e.IsAlloc) w := by
      intro b node' w
      apply vwp_bind_of (noAlloc_store _ _ _ _).vwp (fun _ _ he => he)
      intro _ _ _
      apply vwp_bind_of (noAlloc_store _ _ _ _).vwp (fun _ _ he => he)
      intro _ w' _
      exact vwp_pure (htail _ _ w')
    refine vwp_bind (vwp_readNextDataBlock h.toCore hd hstate hnode _ (fun _ => hstores _ _ _)
      (fun _ x y _ _ _ _ _ _ _ => hstores _ _ _) fun e _ hno => ?_)
    have := hroom hlen hno.empty
    have := hno.full
    omega
  · rw [if_neg hlen]
    exact vwp_throw not_isAlloc_memory

/-- INTERNAL: **without room the allocator stops the server.** SRCLINE: directory.c:194-213 -/
theorem vwp_enterNew_noRoom (h : Inv u orphan) (hd : u.live d) (hstate : (u.inode d).state = 2)
    (hlen : name.length < 124) (hzero : (u.inode d).fileSize = 0)
    (hcount : freeCount u.used 34 3000 ≤ 1) :
    vwp (enterNew d name n) (fun _ _ => False) (fun e _ => e.IsAlloc) u := by
  unfold enterNew
  refine vwp_bind (vwp_readNode hd.1 (h.node d hd).named fun node hnode => ?_)
  refine vwp_bind (vwp_bind (vwp_malloc fun stack => ?_))
  rw [if_pos hlen, getNextWritePosition_dir hnode (by omega)]
  refine vwp_bind (vwp_readNextDataBlock h.toCore hd hstate hnode _ (fun hne => absurd hzero hne)
    (fun _ x y hx hx' hy hy' hxy hxfree hyfree => ?_) fun e _ hno => hno.alloc)
  have := two_le_freeCount hx hx' hy hy' hxy hxfree hyfree
  omega

end EnterNew

/-! ## The paths after a rename -/

section Moves

variable {s s' : SacState} {oldPath newPath : CString} {d d' n : ℕ} {name name' : List UInt8}

/-- INTERNAL: **a rename to a name that was free** moves one name. -/
theorem Renamed.movesOneName (hr : Renamed (viewOf s) (viewOf s') d d' name' n)
    (h : Inv (viewOf s) none) (hnames : (viewOf s).tree.DistinctNames)
    (ht : Target (viewOf s) oldPath d name) (ht' : Target (viewOf s) newPath d' name')
    (hlookup : (viewOf s).tree.lookup d name = some n)
    (hbelow : ¬ stringSplit oldPath.val <+: stringSplit newPath.val)
    (hfree : (viewOf s).tree.lookup d' name' = none) :
    MovesOneName s s' oldPath newPath n := by
  obtain ⟨t, hunlinked, hlinked⟩ := hr.tree
  have hd := ht.live h
  have hd' := ht'.live h
  obtain ⟨front, hpath, hfront⟩ := ht.cut
  obtain ⟨front', hpath', hfront'⟩ := ht'.cut
  have hsplit := stringSplit_append front ht.slash_free ht.name_ne
  have hsplit' := stringSplit_append front' ht'.slash_free ht'.name_ne
  rw [← hpath] at hsplit
  rw [← hpath'] at hsplit'
  have hne : ¬ (d' = d ∧ name' = name) := by
    rintro ⟨rfl, rfl⟩
    rw [hfree] at hlookup
    cases hlookup
  rw [hsplit, hsplit'] at hbelow
  refine ⟨?_, ?_, fun ps hold hnew => ?_, ⟨d', ?_, ?_⟩, ?_, fun path hpass => ?_⟩
  · rw [leadsTo, hsplit', Namespace.walk_moved_new h.tree hnames hunlinked hlinked hd hfront
      hfront' hlookup hbelow, hfree, Option.none_or]
  · rw [leadsTo, hsplit]
    exact Namespace.walk_moved_old h.tree hnames hunlinked hlinked hd hfront hfront' hlookup
      hbelow hfree
  · rw [hsplit] at hold
    rw [hsplit'] at hnew
    exact Namespace.walk_moved h.tree hnames hunlinked hlinked hd hfront hfront' hlookup hne hold
      hnew
  · rw [leadsTo, hsplit', List.dropLast_concat, ← hfront']
    exact Namespace.walk_moved h.tree hnames hunlinked hlinked hd hfront hfront' hlookup hne
      (fun hp => hbelow (hp.trans (List.prefix_append _ _)))
      (Namespace.not_concat_below _ _)
  · obtain ⟨hn, hn0, -⟩ := parentBlock_of_lookup h hd hlookup
    have hparent : ((viewOf s').inode n).parentBlock - 2 = d' := hlinked.parent_new
    have hlive : (viewOf s').live n := (hlinked.live n).mpr ((hunlinked.live n).mpr hn)
    have hge := hr.inv.parent n hlive hn0
    omega
  · apply (hnames.unlinked hunlinked).linked hlinked ((hunlinked.live d').mpr hd')
    rw [← Namespace.lookup_eq_none_iff, hunlinked.lookup h.tree hnames hd hlookup, if_neg hne]
    exact hfree
  · obtain ⟨e, s'', hok, -, hfound⟩ := exists_searchPath hr.inv hpass
    exact ⟨e, s'', hok, hfound⟩

/-- INTERNAL: one path cannot be both the old and the new one. -/
theorem MovesOneName.ne (hm : MovesOneName s s' oldPath newPath n) :
    stringSplit oldPath.val ≠ stringSplit newPath.val := by
  intro e
  have hgone := hm.gone
  rw [e, hm.found] at hgone
  cases hgone

end Moves

/-! ## When exactly one name moves -/

section RenamesRight

variable {s : SacState} {oldPath newPath : CString} {d d' n : ℕ} {name name' : List UInt8}

/-- INTERNAL: a rename to a free name that fits a node. -/
theorem renamesRight_of_free (h : Inv (viewOf s) none)
    (hnames : (viewOf s).tree.DistinctNames) (ht : Target (viewOf s) oldPath d name)
    (ht' : Target (viewOf s) newPath d' name')
    (hlookup : (viewOf s).tree.lookup d name = some n)
    (hbelow : ¬ stringSplit oldPath.val <+: stringSplit newPath.val)
    (hfree : (viewOf s).tree.lookup d' name' = none) (hlen : name'.length ≤ 70) :
    RenamesRight s oldPath newPath n := by
  have hwp : vwp (sacRename oldPath newPath)
      (fun _ w => Renamed (viewOf s) w d d' name' n) (fun e _ => e.IsAlloc) (viewOf s) :=
    vwp_sacRename h ht ht' hlookup hlen (fun _ hr => hr) fun _ _ he _ _ => he
  exact wp_mono (hwp s rfl)
    (fun _ _ hr _ => hr.movesOneName h hnames ht ht' hlookup hbelow hfree) fun _ _ he => he

/-- INTERNAL: a rename into a directory without room does not answer. -/
theorem vwp_sacRename_noRoom {v : View} (h : Inv v none) (ht : Target v oldPath d name)
    (ht' : Target v newPath d' name') (hlookup : v.tree.lookup d name = some n)
    (hlen : name'.length < 124) (hroom : NoRoom v d d') :
    vwp (sacRename oldPath newPath) (fun _ _ => False) (fun e _ => e.IsAlloc) v := by
  obtain ⟨hsize, hcount⟩ := hroom
  apply vwp_sacRename_removed h ht ht' hlookup
  intro u hremoved hu hstate
  apply vwp_enterNew_noRoom hu ((hremoved.live d').mpr (ht'.live h)) hstate hlen
  · rw [fileSize_removed hremoved, hsize]
  · rw [hremoved.used]
    exact hcount

theorem renamesRight_of_noRoom (h : Inv (viewOf s) none) (ht : Target (viewOf s) oldPath d name)
    (ht' : Target (viewOf s) newPath d' name')
    (hlookup : (viewOf s).tree.lookup d name = some n) (hlen : name'.length < 124)
    (hroom : NoRoom (viewOf s) d d') : RenamesRight s oldPath newPath n :=
  wp_mono (vwp_sacRename_noRoom h ht ht' hlookup hlen hroom s rfl) (fun _ _ hf => hf.elim)
    fun _ _ he => he

/-- INTERNAL: **with room the rename answers**, if it is right. -/
theorem RenamesRight.exists_moves (hright : RenamesRight s oldPath newPath n)
    (h : Inv (viewOf s) none) (ht : Target (viewOf s) oldPath d name)
    (ht' : Target (viewOf s) newPath d' name')
    (hlookup : (viewOf s).tree.lookup d name = some n)
    (hroom : name'.length < 124 → ¬ NoRoom (viewOf s) d d') :
    ∃ s', sacRename oldPath newPath s = .ok 0 s' ∧ MovesOneName s s' oldPath newPath n := by
  have hwp : vwp (sacRename oldPath newPath) (fun r _ => r = 0) (fun e _ => ¬ e.IsAlloc)
      (viewOf s) := by
    apply vwp_sacRename_removed h ht ht' hlookup
    intro u hremoved hu hstate
    refine vwp_enterNew_answers hu ((hremoved.live d').mpr (ht'.live h)) hstate
      fun hlen hsize => ?_
    rw [fileSize_removed hremoved] at hsize
    rw [hremoved.used]
    have := hroom hlen
    simp only [NoRoom, hsize, true_and, not_le] at this
    exact this
  obtain ⟨r, s', hok, rfl, hmoves⟩ :=
    exists_ok_of_wp (wp_and (hwp s rfl) hright) fun _ _ he => he.1 he.2
  exact ⟨s', hok, hmoves rfl⟩

/-- INTERNAL: **a name that is taken stays with its node.** -/
theorem Renamed.found_taken {s' : SacState} {k : ℕ}
    (hr : Renamed (viewOf s) (viewOf s') d d' name' n) (h : Inv (viewOf s) none)
    (hnames : (viewOf s).tree.DistinctNames) (ht : Target (viewOf s) oldPath d name)
    (ht' : Target (viewOf s) newPath d' name')
    (hlookup : (viewOf s).tree.lookup d name = some n)
    (hbelow : ¬ stringSplit oldPath.val <+: stringSplit newPath.val)
    (htaken : (viewOf s).tree.lookup d' name' = some k) :
    leadsTo s' (stringSplit newPath.val) = some k := by
  obtain ⟨t, hunlinked, hlinked⟩ := hr.tree
  obtain ⟨front, hpath, hfront⟩ := ht.cut
  obtain ⟨front', hpath', hfront'⟩ := ht'.cut
  have hsplit := stringSplit_append front ht.slash_free ht.name_ne
  have hsplit' := stringSplit_append front' ht'.slash_free ht'.name_ne
  rw [← hpath] at hsplit
  rw [← hpath'] at hsplit'
  rw [hsplit, hsplit'] at hbelow
  rw [leadsTo, hsplit', Namespace.walk_moved_new h.tree hnames hunlinked hlinked (ht.live h) hfront
    hfront' hlookup hbelow, htaken, Option.some_or]

/-- **A rename moves exactly one name if and only if the new name is free and fits a node**,
unless the server stops in the allocator before it answers.  In every other case it answers 0,
or the name overruns a buffer. SRCLINE: sacio.c:383-432, directory.c:40-56 -/
theorem renames_right_iff (h : Inv (viewOf s) none) (hnames : (viewOf s).tree.DistinctNames)
    (hold : isValidPath oldPath.val = true ∧ oldPath.val ≠ [slash])
    (hnew : isValidPath newPath.val = true ∧ newPath.val ≠ [slash])
    (hfound : leadsTo s (stringSplit oldPath.val) = some n)
    (hparent : leadsTo s (stringSplit oldPath.val).dropLast = some d)
    (hparent' : leadsTo s (stringSplit newPath.val).dropLast = some d')
    (hdir : ((viewOf s).inode d').state = 2)
    (hbelow : stringSplit oldPath.val <+: stringSplit newPath.val →
      stringSplit newPath.val = stringSplit oldPath.val) :
    RenamesRight s oldPath newPath n ↔
      (leadsTo s (stringSplit newPath.val) = none ∧
        ((stringSplit newPath.val).getLastD []).length ≤ 70) ∨
      (((stringSplit newPath.val).getLastD []).length < 124 ∧ NoRoom (viewOf s) d d') := by
  have hstate := state_of_found hold.1 hold.2 hfound hparent
  have ht := exists_target hold.1 hold.2 hparent hstate
  have ht' := exists_target hnew.1 hnew.2 hparent' hdir
  have hlookup := hfound
  rw [leadsTo, ht.walk] at hlookup
  rw [leadsTo, ht'.walk]
  constructor
  · intro hright
    by_contra hnot
    rw [not_or] at hnot
    obtain ⟨hfree, hroom⟩ := hnot
    obtain ⟨s', hok, hmoves⟩ := hright.exists_moves h ht ht' hlookup fun hlen hno =>
      hroom ⟨hlen, hno⟩
    -- the new path leads to the node, so that its last piece is short
    have hpassed := hmoves.found
    obtain ⟨front', hpath', -⟩ := ht'.cut
    have hsplit' := stringSplit_append front' ht'.slash_free ht'.name_ne
    rw [← hpath'] at hsplit'
    rw [leadsTo, hsplit', Namespace.walk_concat, Option.bind_eq_some_iff] at hpassed
    obtain ⟨c, -, hlast⟩ := hpassed
    have hlen := length_le_of_lookup hlast
    cases htaken : (viewOf s).tree.lookup d' ((stringSplit newPath.val).getLastD []) with
    | none => exact hfree ⟨htaken, hlen⟩
    | some k =>
      have hne := hmoves.ne
      have hbelow' : ¬ stringSplit oldPath.val <+: stringSplit newPath.val :=
        fun hp => hne (hbelow hp).symm
      have hwp : vwp (sacRename oldPath newPath)
          (fun _ w => Renamed (viewOf s) w d d' _ n) (fun _ _ => True) (viewOf s) :=
        vwp_sacRename h ht ht' hlookup hlen (fun _ hr => hr) fun _ _ _ _ _ => trivial
      have hrenamed := wp_of_ok (Q := fun _ s' => Renamed (viewOf s) (viewOf s') d d' _ n)
        (hwp s rfl) hok
      have hkept := hrenamed.found_taken h hnames ht ht' hlookup hbelow' htaken
      rw [hmoves.found] at hkept
      cases hkept
      -- two paths to one node are equal
      have hwalk : (viewOf s).tree.walk 0 (stringSplit newPath.val) = some n := by
        rw [ht'.walk, htaken]
      exact hne (h.tree.walk_unique hfound hwalk)
  · rintro (⟨hfree, hlen⟩ | ⟨hlen, hroom⟩)
    · refine renamesRight_of_free h hnames ht ht' hlookup (fun hp => ?_) hfree hlen
      have hwalk := hbelow hp
      rw [← ht'.walk, hwalk] at hfree
      rw [leadsTo, hfree] at hfound
      cases hfound
    · exact renamesRight_of_noRoom h ht ht' hlookup hlen hroom

/-- The path `/b`. -/
def bPath : CString := ⟨[47, 98], by decide⟩

/-- The statement for a new file `/a` that is renamed to `/b`. -/
theorem renames_right_new_file : ∃ (s : SacState) (n : ℕ),
    sacOpen aPath newDisk = .ok (n : ℤ) s ∧ (RenamesRight s aPath bPath n ↔
      (leadsTo s (stringSplit bPath.val) = none ∧
        ((stringSplit bPath.val).getLastD []).length ≤ 70) ∨
      (((stringSplit bPath.val).getLastD []).length < 124 ∧ NoRoom (viewOf s) 0 0)) := by
  have hfresh := fresh_of_formatted formatted_newDisk
  obtain ⟨n, s, hok, hnew, hplain, -⟩ := exists_newNode aPath hfresh.plain rfl
    (by decide) (by decide) (by decide) (hfresh.leadsTo_eq_none (by decide)) hfresh.spare
  exact ⟨s, n, hok, renames_right_iff hplain.toInv hplain.names ⟨by decide, by decide⟩
    ⟨by decide, by decide⟩ hnew.found rfl rfl hplain.root (by decide)⟩

/-- The new files `/a` and `/b`: after the first is renamed to the second, the name leads to the
node it led to before. SRCLINE: sacio.c:414-418 -/
theorem rename_keeps_taken_name : ∃ (s₁ s s' : SacState) (n k : ℕ),
    sacOpen aPath newDisk = .ok (n : ℤ) s₁ ∧ sacOpen bPath s₁ = .ok (k : ℤ) s ∧
    (Inv (viewOf s) none ∧ (viewOf s).tree.DistinctNames) ∧
    leadsTo s (stringSplit aPath.val) = some n ∧ k ≠ n ∧
    sacRename aPath bPath s = .ok 0 s' ∧ leadsTo s' (stringSplit bPath.val) = some k ∧
    ¬ MovesOneName s s' aPath bPath n := by
  have hfresh := fresh_of_formatted formatted_newDisk
  obtain ⟨n, s₁, hok₁, hnew₁, hplain₁, hspare₁⟩ := exists_newNode aPath hfresh.plain rfl
    (by decide) (by decide) (by decide) (hfresh.leadsTo_eq_none (by decide)) hfresh.spare
  have hfree : leadsTo s₁ (stringSplit bPath.val) = none := by
    rw [hnew₁.others _ (by decide)]
    exact hfresh.leadsTo_eq_none (by decide)
  obtain ⟨k, s, hok, hnew, hplain, hspare⟩ := exists_newNode bPath hplain₁ rfl
    (by decide) (by decide) (by decide) hfree hspare₁
  have hfound : leadsTo s (stringSplit aPath.val) = some n := by
    rw [hnew.others _ (by decide), hnew₁.found]
  have hne : k ≠ n := by
    rintro rfl
    exact hnew.free hnew₁.live
  have ht := aPath_target hplain.toCore
  have ht' : Target (viewOf s) bPath 0 [98] :=
    root_target hplain.toCore rfl (by decide) (by decide)
  have hlookup := hfound
  rw [leadsTo, ht.walk] at hlookup
  have htaken := hnew.found
  rw [leadsTo, ht'.walk] at htaken
  have hwp : vwp (sacRename aPath bPath)
      (fun r w => r = 0 ∧ Renamed (viewOf s) w 0 0 [98] n) (fun _ _ => False) (viewOf s) := by
    refine vwp_sacRename hplain.toInv ht ht' hlookup (by decide) (fun _ hr => ⟨rfl, hr⟩)
      fun _ _ _ _ hcount => ?_
    have := hspare.2
    omega
  obtain ⟨r, s', hrename, rfl, hrenamed⟩ := exists_ok_of_wp (hwp s rfl) fun _ _ hf => hf
  have hkept := hrenamed.found_taken hplain.toInv hplain.names ht ht' hlookup (by decide) htaken
  refine ⟨s₁, s, s', n, k, hok₁, hok, ⟨hplain.toInv, hplain.names⟩, hfound, hne, hrename, hkept,
    fun hmoves => ?_⟩
  rw [hmoves.found] at hkept
  exact hne (Option.some.inj hkept).symm

end RenamesRight

end LinuseFs.Analysis
