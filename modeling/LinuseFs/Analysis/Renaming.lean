import LinuseFs.Analysis.Deletion

/-!
# Renaming

`sac_rename` takes the record out of the old directory, appends one to the new directory and
then stores the new parent in the node.  Nothing replaces a node that has the new name
already: afterwards the directory lists both.
-/

set_option autoImplicit false

namespace LinuseFs.Analysis

open LinuseFs.Computation LinuseFs.Model LinuseFs.Interface

section Reparented

variable {v w u : View} {d d' n : ℕ} {name name' : List UInt8}

/-- The view after the node `n` recorded the directory `d`. -/
def reparented (v : View) (n d : ℕ) : View :=
  v.setInode n { v.inode n with parentBlock := 2 + d }

/-- INTERNAL: **recording another parent** changes that field and nothing else.
SRCLINE: sacio.c:422-424 -/
theorem reparented_spec (h : Core v) (hn : v.live n) (hn0 : n ≠ 0) (hd : d < 32) :
    Core (reparented v n d) ∧ Others n v (reparented v n d) ∧
      (∀ r, v.held n r → (reparented v n d).held n r ∧
        (reparented v n d).place n r = v.place n r) ∧
      (∀ m, (reparented v n d).tree.entries m = v.tree.entries m) ∧
      (∀ m, m ≠ n → (reparented v n d).tree.parent m = v.tree.parent m) ∧
      (reparented v n d).tree.parent n = d := by
  have hinode : (reparented v n d).inode n = { v.inode n with parentBlock := 2 + d } :=
    View.setInode_same ..
  have hothers : Others n v (reparented v n d) :=
    Others.of_touched h hn.1 (fun _ => False) (fun _ hf => hf.elim)
      (fun m hm => View.setInode_ne _ hm) (fun _ _ => rfl) fun _ _ => rfl
  have hrefers : ∀ r, ((reparented v n d).inode n).refers r ↔ (v.inode n).refers r := by
    intro r
    rw [hinode]
    cases r <;> rfl
  have hplace : ∀ r, (reparented v n d).place n r = v.place n r := by
    intro r
    cases r with
    | ptr i => simp only [View.place, hinode]
    | data k =>
      simp only [View.place, hinode]
      rfl
  have hnode := h.node n hn
  have hnode' : NodeOk (reparented v n d) ((reparented v n d).inode n) := by
    rw [hinode]
    have hfits := hnode.fits
    refine ⟨⟨?_, hfits.2, hfits.3, hfits.4, hfits.5, hfits.6⟩, hnode.kind, hnode.named,
      fun hstate => ?_, fun hstate => ?_⟩
    · show 2 + d < 2 ^ 32
      omega
    · have hdir := hnode.dir hstate
      exact ⟨hdir.size, hdir.size_le, hdir.ptr_zero, hdir.ptr, hdir.name⟩
    · have hfile := hnode.file hstate
      exact ⟨hfile.empty, hfile.ptr⟩
  have hcore : Core (reparented v n d) := by
    apply h.change hothers (fun _ => False) (fun e => absurd e hn0) (fun _ => hnode')
    · intro _ _
      rw [hinode]
      exact Nat.le_add_right 2 d
    · rintro r ⟨hl, hr⟩ -
      have hheld : v.held n r := ⟨hl, (hrefers r).mp hr⟩
      exact ⟨hheld, hplace r, h.inData hheld⟩
    · exact fun _ _ hf => hf.elim
    · exact fun _ _ _ hf => hf.elim
  refine ⟨hcore, hothers, fun r hr => ⟨⟨hr.1, (hrefers r).mpr hr.2⟩, hplace r⟩, ?_, ?_, ?_⟩
  · intro m
    by_cases hm : m = n
    · subst hm
      simp only [View.tree, hinode]
      rfl
    · exact (hothers.entries h hm).1
  · exact fun m hm => (hothers.entries h hm).2
  · simp only [View.tree, hinode]
    omega

/-- From `v` to `w` the node `n` went from the directory `d` to the end of `d'`, under the name
`name'`. -/
structure Renamed (v w : View) (d d' : ℕ) (name' : List UInt8) (n : ℕ) : Prop where
  inv : Inv w none
  tree : ∃ t, Namespace.Unlinked v.tree t d n ∧ Namespace.Linked t w.tree d' name' n
  state : ∀ m, (w.inode m).state = (v.inode m).state
  inode : ∀ m, m ≠ n → m ≠ d → m ≠ d' → w.inode m = v.inode m
  file : n ≠ d → n ≠ d' → (w.inode n).ptr = (v.inode n).ptr ∧
    (w.inode n).fileSize = (v.inode n).fileSize
  held : ∀ m r, m ≠ d → m ≠ d' → v.held m r →
    w.held m r ∧ w.place m r = v.place m r ∧ w.data (v.place m r) = v.data (v.place m r)
  metadata : w.metadata = v.metadata
  used : (if d' = d then (v.inode d).fileSize - 128 else (v.inode d').fileSize) ≠ 0 →
    w.used = v.used
  own : (v.inode d).fileSize ≠ 128 → ∀ m r, v.held m r → w.held m r ∧ w.place m r = v.place m r
  gained : ∀ c, w.used c = true → v.used c = true ∨ ∃ r, w.held d' r ∧ w.place d' r = c

/-- INTERNAL: **the three writes of a rename** keep the tree. -/
theorem renamed (h : Inv v none) (hd : v.live d) (hstate : (v.inode d).state = 2)
    (hd' : v.live d') (hstate' : (v.inode d').state = 2) (hn : v.live n) (hn0 : n ≠ 0)
    (hr : Removed v u d name n) (ha : Appended u w d' name' n) :
    Renamed v (reparented w n d') d d' name' n := by
  have hunlinked := hr.tree h.toCore hd hstate
  have hu : Inv u (some n) := ⟨hr.core, h.tree.unlinked hunlinked hd⟩
  have hud' := (hr.live d').mpr hd'
  have hstate_u : ∀ m, (u.inode m).state = (v.inode m).state := by
    intro m
    by_cases hm : m = d
    · subst hm
      exact hr.state
    · rw [hr.others.inode m hm]
  have hstate_w : ∀ m, (w.inode m).state = (u.inode m).state := by
    intro m
    by_cases hm : m = d'
    · subst hm
      exact ha.state
    · rw [ha.others.inode m hm]
  obtain ⟨hlive, hentries, hentries_dir, hparent⟩ :=
    ha.tree hu.toCore hud' ((hstate_u d').trans hstate')
  have hun := (hr.live n).mpr hn
  have hwn := (ha.live n).mpr hun
  obtain ⟨hcore, hothers, hheld, hentries', hparent', hparent_new⟩ :=
    reparented_spec ha.core hwn hn0 hd'.1
  have hlinked : Namespace.Linked u.tree (reparented w n d').tree d' name' n := by
    refine ⟨hlive, ?_, ?_, ?_, hparent_new⟩
    · exact fun m hm => (hentries' m).trans (hentries m hm)
    · exact (hentries' d').trans hentries_dir
    · exact fun m hm => (hparent' m hm).trans (hparent m)
  have hsame : ∀ {m r}, w.held m r →
      (reparented w n d').held m r ∧ (reparented w n d').place m r = w.place m r := by
    intro m r hm
    by_cases hmn : m = n
    · subst hmn
      exact hheld r hm
    · exact hothers.place ha.core hmn hm
  refine ⟨⟨hcore, hu.tree.linked hlinked hud' hun hn0⟩, ⟨_, hunlinked, hlinked⟩, ?_, ?_, ?_, ?_, ?_,
    ?_, ?_, ?_⟩
  · intro m
    rw [← hstate_u m, ← hstate_w m]
    by_cases hm : m = n
    · subst hm
      simp only [reparented, View.setInode_same]
    · rw [hothers.inode m hm]
  · intro m hmn hmd hmd'
    rw [hothers.inode m hmn, ha.others.inode m hmd', hr.others.inode m hmd]
  · intro hnd hnd'
    simp only [reparented, View.setInode_same, ha.others.inode n hnd', hr.others.inode n hnd,
      and_self]
  · intro m r hmd hmd' hm
    obtain ⟨hm', hplace⟩ := hr.others.place h.toCore hmd hm
    obtain ⟨hm'', hplace'⟩ := ha.others.place hu.toCore hmd' hm'
    have hdata : (reparented w n d').data (v.place m r) = v.data (v.place m r) := by
      rw [← hr.others.data m r hmd hm, ← hplace]
      exact ha.others.data m r hmd' hm'
    obtain ⟨h1, h2⟩ := hsame hm''
    exact ⟨h1, h2.trans (hplace'.trans hplace), hdata⟩
  · show w.metadata = v.metadata
    rw [ha.metadata, hr.metadata]
  · intro hsize
    show w.used = v.used
    rw [← hr.used]
    apply ha.used
    by_cases hdd : d' = d
    · subst hdd
      rw [if_pos rfl] at hsize
      rwa [hr.fileSize]
    · rw [if_neg hdd] at hsize
      rwa [hr.others.inode d' hdd]
  · intro hmore m r hm
    have hu_held : u.held m r ∧ u.place m r = v.place m r := by
      by_cases hmd : m = d
      · subst hmd
        exact hr.own hmore r hm
      · exact hr.others.place h.toCore hmd hm
    obtain ⟨hm', hplace⟩ := hu_held
    have hw_held : w.held m r ∧ w.place m r = u.place m r := by
      by_cases hmd : m = d'
      · subst hmd
        exact ha.own r hm'
      · exact ha.others.place hu.toCore hmd hm'
    obtain ⟨hm'', hplace'⟩ := hw_held
    obtain ⟨h1, h2⟩ := hsame hm''
    exact ⟨h1, h2.trans (hplace'.trans hplace)⟩
  · intro c hc
    rcases ha.gained c hc with hused | ⟨r, hr', hplace⟩
    · rw [hr.used] at hused
      exact Or.inl hused
    · obtain ⟨h1, h2⟩ := hsame hr'
      exact Or.inr ⟨r, h1, h2.trans hplace⟩

end Reparented

/-! ## The operation -/

section Operation

variable {v : View} {oldPath newPath : CString} {d d' n : ℕ} {name name' : List UInt8}

/-- What `sac_rename` does after the old directory has lost the record. SRCLINE:
sacio.c:413-427 -/
def enterNew (d : ℕ) (name : List UInt8) (n : ℕ) : Sac ℤ := do
  let (preDirNode, preDirNodeBlock) ← readNode d
  let preDirNode ← addDirectoryEntry preDirNode name n
  unmapAndDestroyNode preDirNode preDirNodeBlock
  let (fileNode, fileNodeBlock) ← readNode n
  let fileNode := { fileNode with parentBlock := u32 (d + nodeTableInitialBlock) }
  unmapAndDestroyNode fileNode fileNodeBlock
  return 0

/-- What `sac_rename` does with the old directory: the record of the name, if there is one, goes,
and the number of its node is kept. SRCLINE: sacio.c:406-412 -/
def takeEntry (d : ℕ) (name : List UInt8) : Sac ℕ := do
  let (preDirNode, preDirNodeBlock) ← readNode d
  let oldFileEntry ← getEntry preDirNode name
  let preDirNode ← deleteDirectoryEntry preDirNode oldFileEntry.name
  unmapAndDestroyNode preDirNode preDirNodeBlock
  return oldFileEntry.nodeNum

/-- INTERNAL: **`sac_rename` looks for the two directories**, and answers -1 when one is missing.
SRCLINE: sacio.c:383-432 -/
theorem vwp_sacRename_parents {Q : ℤ → View → Prop} {E : Fault → View → Prop}
    {orphan : Option ℕ} (h : Inv v orphan)
    (hold : isValidPath oldPath.val = true ∧ oldPath.val ≠ [slash])
    (hnew : isValidPath newPath.val = true ∧ newPath.val ≠ [slash])
    (hpass : Passable v 0 (stringSplit oldPath.val).dropLast)
    (hpass' : Passable v 0 (stringSplit newPath.val).dropLast)
    (hmissing : v.tree.walk 0 (stringSplit oldPath.val).dropLast = none ∨
      v.tree.walk 0 (stringSplit newPath.val).dropLast = none → Q (-1) v)
    (hboth : ∀ d d', v.tree.walk 0 (stringSplit oldPath.val).dropLast = some d →
      v.tree.walk 0 (stringSplit newPath.val).dropLast = some d' →
      vwp (takeEntry d ((stringSplit oldPath.val).getLastD []) >>=
        enterNew d' ((stringSplit newPath.val).getLastD [])) Q E v) :
    vwp (sacRename oldPath newPath) Q E v := by
  obtain ⟨front, name, hpath, hslash, hname⟩ := exists_last_piece hold.1 hold.2
  obtain ⟨front', name', hpath', hslash', hname'⟩ := exists_last_piece hnew.1 hnew.2
  obtain ⟨hlast, -, hpre, -⟩ := cut_at_last_slash front hslash hname
  obtain ⟨hlast', -, hpre', -⟩ := cut_at_last_slash front' hslash' hname'
  have hsplit := stringSplit_append front hslash hname
  have hsplit' := stringSplit_append front' hslash' hname'
  unfold sacRename
  rw [if_neg (by simp [hold.1, hnew.1])]
  rw [hpath, hsplit, List.dropLast_concat] at hpass hmissing hboth
  rw [hpath', hsplit', List.dropLast_concat] at hpass' hmissing hboth
  rw [List.getLastD_concat, List.getLastD_concat] at hboth
  rw [hpath, hpath', hlast, hlast']
  refine vwp_bind (vwp_pure (vwp_bind (vwp_pure ?_)))
  dsimp only
  rw [hpre, hpre']
  refine vwp_bind (vwp_searchPath_passable h (by rw [stringSplit_slash]; exact hpass) fun e he => ?_)
  refine vwp_bind (vwp_searchPath_passable h (by rw [stringSplit_slash]; exact hpass')
    fun e' he' => ?_)
  rw [stringSplit_slash] at he he'
  rcases he with ⟨hwalk, hvalid, -⟩ | ⟨hnone, hinvalid, -⟩
  · rcases he' with ⟨hwalk', hvalid', -⟩ | ⟨hnone', hinvalid', -⟩
    · rw [if_pos (by simp [hvalid, hvalid'])]
      have hrest := hboth _ _ hwalk hwalk'
      simp only [takeEntry, bind_assoc, pure_bind] at hrest
      exact hrest
    · rw [if_neg (by simp [hinvalid'])]
      exact vwp_pure (hmissing (Or.inr hnone'))
  · rw [if_neg (by simp [hinvalid])]
    exact vwp_pure (hmissing (Or.inl hnone))

/-- INTERNAL: **the record leaves the old directory**, and the node is an orphan. SRCLINE:
sacio.c:406-412 -/
theorem vwp_takeEntry {Q : ℕ → View → Prop} {E : Fault → View → Prop} (h : Inv v none)
    (hd : v.live d) (hstate : (v.inode d).state = 2) (hname : name ≠ [])
    (hlookup : v.tree.lookup d name = some n)
    (hQ : ∀ u, Removed v u d name n → Inv u (some n) → Q n u) :
    vwp (takeEntry d name) Q E v := by
  refine vwp_bind (vwp_readNode hd.1 (h.node d hd).named fun node hnode => ?_)
  have hnode_state : node.state = 2 := by
    rw [← hstate, ← hnode]
    rfl
  refine vwp_bind (vwp_getEntry hnode_state (by rw [hnode]; exact dirBlocks h.toCore hd hstate)
    hname fun e he => ?_)
  rw [hnode] at he
  obtain ⟨hen, hename⟩ : e.nodeNum = n ∧ e.name = name := by
    rcases he.tree hd hstate hname with ⟨hfound, -, hename⟩ | ⟨hnone, -, -⟩
    · rw [hlookup] at hfound
      exact ⟨(Option.some.inj hfound).symm, hename⟩
    · rw [hlookup] at hnone
      cases hnone
  rw [hen, hename]
  refine vwp_bind (vwp_deleteDirectoryEntry hstate (dirBlocks h.toCore hd hstate) hnode
    hname (fun node' l₁ m l₂ hrecords hfirst hnode' => ?_) fun hnone => ?_)
  swap
  · have := lookup_of_none hd hstate hnone
    rw [hlookup] at this
    cases this
  have hm := lookup_of_first hd hstate hrecords hfirst
  rw [hlookup] at hm
  cases hm
  have hremoved := removed h.toCore hd hstate hrecords hfirst
  have hfits := (hremoved.core.node d ((hremoved.live d).mpr hd)).fits
  rw [takenOut, View.setInode_same, ← hnode'] at hfits
  refine vwp_bind (vwp_unmapAndDestroyNode hd.1 hfits (vwp_pure ?_))
  rw [hnode']
  have hunlinked := hremoved.tree h.toCore hd hstate
  exact hQ _ hremoved ⟨hremoved.core, h.tree.unlinked hunlinked hd⟩

/-- INTERNAL: the first half of **`sac_rename`**: the record leaves the old directory, and the
node is an orphan. SRCLINE: sacio.c:383-412 -/
theorem vwp_sacRename_removed {Q : ℤ → View → Prop} {E : Fault → View → Prop} (h : Inv v none)
    (ht : Target v oldPath d name) (ht' : Target v newPath d' name')
    (hlookup : v.tree.lookup d name = some n)
    (hQ : ∀ u, Removed v u d name n → Inv u (some n) → (u.inode d').state = 2 →
      vwp (enterNew d' name' n) Q E u) :
    vwp (sacRename oldPath newPath) Q E v := by
  obtain ⟨hparent, hlast⟩ := ht.split
  obtain ⟨hparent', hlast'⟩ := ht'.split
  refine vwp_sacRename_parents h ⟨ht.valid, ht.ne_root⟩ ⟨ht'.valid, ht'.ne_root⟩ ht.passable
    ht'.passable (fun hmissing => ?_) fun c c' hc hc' => ?_
  · rw [hparent, hparent'] at hmissing
    rcases hmissing with hnone | hnone <;> cases hnone
  · rw [hparent] at hc
    rw [hparent'] at hc'
    cases hc
    cases hc'
    rw [hlast, hlast']
    refine vwp_bind (vwp_takeEntry h (ht.live h) ht.state ht.name_ne hlookup
      fun u hremoved hu => hQ u hremoved hu ?_)
    by_cases hdd : d' = d
    · subst hdd
      rw [hremoved.state, ht.state]
    · rw [hremoved.others.inode d' hdd, ht'.state]

/-- INTERNAL: the size of the new directory before the record enters it. -/
theorem fileSize_removed {u : View} (hr : Removed v u d name n) (d' : ℕ) :
    (u.inode d').fileSize =
      if d' = d then (v.inode d).fileSize - 128 else (v.inode d').fileSize := by
  by_cases hdd : d' = d
  · subst hdd
    rw [if_pos rfl, hr.fileSize]
  · rw [if_neg hdd, hr.others.inode d' hdd]

/-- INTERNAL: **`sac_rename`** moves the node under the old name to the new one.  It takes blocks
only for a directory that has no other record. SRCLINE: sacio.c:383-432 -/
theorem vwp_sacRename {Q : ℤ → View → Prop} {E : Fault → View → Prop} (h : Inv v none)
    (ht : Target v oldPath d name) (ht' : Target v newPath d' name')
    (hlookup : v.tree.lookup d name = some n) (hlen : name'.length ≤ 70)
    (hQ : ∀ w, Renamed v w d d' name' n → Q 0 w)
    (hE : ∀ e w, e.IsAlloc →
      (if d' = d then (v.inode d).fileSize - 128 else (v.inode d').fileSize) = 0 →
      freeCount v.used 34 3000 ≤ 1 → E e w) :
    vwp (sacRename oldPath newPath) Q E v := by
  have hd := ht.live h
  have hd' := ht'.live h
  obtain ⟨hn, hn0, -⟩ := parentBlock_of_lookup h hd hlookup
  apply vwp_sacRename_removed h ht ht' hlookup
  intro u hremoved hu hstate'
  have hud' := (hremoved.live d').mpr hd'
  have hun := (hremoved.live n).mpr hn
  have hnlt := hn.1
  unfold enterNew
  refine vwp_bind (vwp_readNode hud'.1 (hu.node d' hud').named fun node hnode => ?_)
  refine vwp_bind (vwp_addDirectoryEntry hu.toCore hud' hstate'
    (size_le_of_orphan hu hun hn0 hud' hstate') hnode (by omega) ht'.name_ne ht'.nul_free
    (by omega) (fun node' w hw ha => ?_) fun e w hno => ?_)
  swap
  · have hcount := hno.full
    have hsize := hno.empty
    rw [hremoved.used] at hcount
    rw [fileSize_removed hremoved] at hsize
    exact hE e w hno.alloc hsize hcount
  have hfits' := (ha.core.node d' ((ha.live d').mpr hud')).fits
  rw [View.setInode_same] at hfits'
  refine vwp_bind (vwp_unmapAndDestroyNode hud'.1 hfits' ?_)
  generalize w.setInode d' (inodeOfNode node') = w' at ha ⊢
  have hwn := (ha.live n).mpr hun
  -- the node learns its new parent
  refine vwp_bind (vwp_readNode hwn.1 (ha.core.node n hwn).named fun file hfile => ?_)
  have hdlt' := hd'.1
  have hparent : u32 ((d' : ℤ) + nodeTableInitialBlock) = 2 + d' := by
    have hcast : (d' : ℤ) + nodeTableInitialBlock = (2 + d' : ℕ) := by
      simp only [nodeTableInitialBlock_eq]
      omega
    rw [hcast, u32_natCast_of_lt (by omega)]
  have hnew : inodeOfNode { file with parentBlock := 2 + d' } =
      { w'.inode n with parentBlock := 2 + d' } := by
    rw [← hfile]
    rfl
  dsimp only
  rw [hparent]
  have hrenamed := renamed h hd ht.state hd' ht'.state hn hn0 hremoved ha
  have hfits'' : (inodeOfNode { file with parentBlock := 2 + d' }).Fits := by
    have := (hrenamed.inv.node n hwn).fits
    rw [reparented, View.setInode_same] at this
    rwa [hnew]
  refine vwp_bind (vwp_unmapAndDestroyNode hwn.1 hfits'' (vwp_pure ?_))
  rw [hnew]
  exact hQ _ hrenamed

end Operation

end LinuseFs.Analysis
