import LinuseFs.Model.Sacio
import LinuseFs.Analysis.DirectoryUpdate
import LinuseFs.Analysis.Paths

/-!
# Creating directories and files

`sac_mkdir` and `sac_open` reserve a slot of the node table, write the new node there and
append its record to the directory.  Between the two the node is an orphan.
-/

set_option autoImplicit false

namespace LinuseFs.Analysis

open LinuseFs.Computation LinuseFs.Model LinuseFs.Interface

/-! ## The new node -/

/-- The node that is built for an entry of `d`. SRCLINE: directory.c:153-159, file.c:52-58 -/
def newInode (state : UInt8) (name : List UInt8) (d date : ℕ) : Inode where
  state := state
  name := some name
  parentBlock := 2 + d
  fileSize := 0
  creationDate := date
  modificationDate := date
  ptr := fun _ => 0

/-- The view after the slot `n` was reserved for the node `nd`. -/
def withNode (v : View) (n : ℕ) (nd : Inode) : View := (v.setUsed (2 + n) true).setInode n nd

section NewNode

variable {v w u : View} {d n date : ℕ} {name : List UInt8} {state : UInt8}

variable (name state) in
theorem newInode_fits (hd : d < 32) (hdate : date < 2 ^ 64) :
    (newInode state name d date).Fits where
  parentBlock := by simp only [newInode]; omega
  fileSize := by simp only [newInode]; omega
  creationDate := hdate
  modificationDate := hdate
  ptr := by intro i; simp only [newInode]; omega
  ptr_past := fun _ _ => rfl

theorem newInode_refers (r : Ref) : ¬ (newInode state name d date).refers r := by
  cases r with
  | ptr i => exact fun h => h rfl
  | data k =>
    simp [Inode.refers, Inode.blocks, newInode]

theorem newInode_nodeOk (hd : d < 32) (hdate : date < 2 ^ 64) (hstate : state = 1 ∨ state = 2) :
    NodeOk v (newInode state name d date) where
  fits := newInode_fits name state hd hdate
  kind := hstate
  named := rfl
  dir := fun _ => ⟨rfl, Nat.zero_le _, Iff.rfl, fun _ _ => rfl, fun k hk => by
    simp only [newInode] at hk
    omega⟩
  file := fun _ => ⟨fun _ => rfl, fun h => absurd rfl h⟩

theorem withNode_live (hn : n < 32) (m : ℕ) : (withNode v n (newInode state name d date)).live m ↔
    v.live m ∨ m = n := by
  simp only [withNode, View.live, View.setInode_used]
  by_cases hm : m = n
  · subst hm
    simp [hn]
  · rw [View.setUsed_ne _ (by omega)]
    simp [hm]

variable (name) in
/-- INTERNAL: **a node in a free slot** is an orphan, and nothing else changed.
SRCLINE: directory.c:161-179, file.c:31-35 -/
theorem born (h : Inv v none) (hn : n < 32) (hfree : v.used (2 + n) = false) (hd : v.live d)
    (hdate : date < 2 ^ 64) (hstate : state = 1 ∨ state = 2) :
    Inv (withNode v n (newInode state name d date)) (some n) ∧
      Namespace.Born v.tree (withNode v n (newInode state name d date)).tree n ∧
      Others n v (withNode v n (newInode state name d date)) := by
  have hdead : ¬ v.live n := by
    rintro ⟨-, hused⟩
    rw [hfree] at hused
    cases hused
  have hn0 : n ≠ 0 := by
    rintro rfl
    exact hdead h.live_root
  have hinode : (withNode v n (newInode state name d date)).inode n =
      newInode state name d date := View.setInode_same ..
  have hothers : Others n v (withNode v n (newInode state name d date)) := by
    apply Others.of_touched h.toCore hn (fun b => b = 2 + n) (fun b hb => Or.inl hb)
    · intro m hm
      exact View.setInode_ne _ hm
    · intro b hb
      exact View.setUsed_ne _ hb
    · intro b _
      rfl
  have hheld : ∀ r, ¬ (withNode v n (newInode state name d date)).held n r := by
    rintro r ⟨-, hr⟩
    rw [hinode] at hr
    exact newInode_refers r hr
  have hcore : Core (withNode v n (newInode state name d date)) := by
    apply h.toCore.change hothers (fun _ => False)
    · exact fun e => absurd e hn0
    · intro _
      rw [hinode]
      exact newInode_nodeOk hd.1 hdate hstate
    · intro _ _
      rw [hinode]
      exact Nat.le_add_right 2 d
    · exact fun r hr => absurd hr (hheld r)
    · exact fun r hr => absurd hr (hheld r)
    · exact fun r _ hr => absurd hr (hheld r)
  have hborn : Namespace.Born v.tree (withNode v n (newInode state name d date)).tree n := by
    refine ⟨withNode_live hn, ?_, ?_, ?_⟩
    · exact fun m hm => (hothers.entries h.toCore hm).1
    · simp only [View.tree, hinode]
      split
      · simp [View.records, newInode]
      · rfl
    · exact fun m hm => (hothers.entries h.toCore hm).2
  exact ⟨⟨hcore, h.tree.born hborn hdead⟩, hborn, hothers⟩

/-- INTERNAL: what appending a record does to the namespace. -/
theorem Appended.tree (ha : Appended v w d name n) (h : Core v) (hd : v.live d)
    (hstate : (v.inode d).state = 2) :
    (∀ m, w.tree.live m ↔ v.tree.live m) ∧ (∀ m, m ≠ d → w.tree.entries m = v.tree.entries m) ∧
      w.tree.entries d = v.tree.entries d ++ [(name, n)] ∧
      ∀ m, w.tree.parent m = v.tree.parent m := by
  refine ⟨ha.live, fun m hm => (ha.others.entries h hm).1, ?_, ?_⟩
  · rw [entries_dir hd hstate, entries_dir ((ha.live d).mpr hd) (ha.state.trans hstate), ha.records]
  · intro m
    by_cases hm : m = d
    · subst hm
      simp only [View.tree, ha.parentBlock]
    · exact (ha.others.entries h hm).2

/-- INTERNAL: the node of the directory, written back with the record, fits. -/
theorem Appended.fits {nd : Inode} (ha : Appended v (w.setInode d nd) d name n) (hd : v.live d) :
    nd.Fits := by
  have hfits := (ha.core.node d ((ha.live d).mpr hd)).fits
  rwa [View.setInode_same] at hfits

/-! ## The creation -/

/-- From `v` to `u` the directory `d` got the new entry `name`, which leads to the node
`nd` in the slot `n`. -/
structure Created (v u : View) (d : ℕ) (name : List UInt8) (n : ℕ) (nd : Inode) : Prop where
  inv : Inv u none
  slot : n < 32
  dead : ¬ v.live n
  tree : ∃ t, Namespace.Born v.tree t n ∧ Namespace.Linked t u.tree d name n
  node : u.inode n = nd
  dir : (u.inode d).state = 2
  inode : ∀ m, m ≠ n → m ≠ d → u.inode m = v.inode m
  held : ∀ m r, m ≠ d → v.held m r →
    u.held m r ∧ u.place m r = v.place m r ∧ u.data (v.place m r) = v.data (v.place m r)
  metadata : u.metadata = v.metadata
  taken : ∃ x y, ∀ c, c ≠ 2 + n → c ≠ x → c ≠ y → u.used c = v.used c
  own : ∀ r, v.held d r → u.held d r ∧ u.place d r = v.place d r
  gained : ∀ c, u.used c = true → v.used c = true ∨ c = 2 + n ∨ ∃ r, u.held d r ∧ u.place d r = c
  room : (v.inode d).fileSize = 0 → 2 ≤ freeCount v.used 34 3000

/-- INTERNAL: **the new node and its record complete a creation.** -/
theorem created (h : Inv v none) (hn : n < 32) (hfree : v.used (2 + n) = false) (hd : v.live d)
    (hstate : (v.inode d).state = 2) (hdate : date < 2 ^ 64) (hkind : state = 1 ∨ state = 2)
    (ha : Appended (withNode v n (newInode state name d date)) u d name n) :
    Created v u d name n (newInode state name d date) := by
  obtain ⟨hinv, hborn, hothers⟩ :=
    born name h hn hfree hd hdate hkind
  generalize hw : withNode v n (newInode state name d date) = w at ha hinv hborn hothers
  have hdead : ¬ v.live n := by
    rintro ⟨-, hused⟩
    rw [hfree] at hused
    cases hused
  have hdn : d ≠ n := by
    rintro rfl
    exact hdead hd
  have hn0 : n ≠ 0 := by
    rintro rfl
    exact hdead h.live_root
  have hd' : w.live d := (hborn.live d).mpr (Or.inl hd)
  have hn' : w.live n := (hborn.live n).mpr (Or.inr rfl)
  have hstate' : (w.inode d).state = 2 := by rw [hothers.inode d hdn, hstate]
  have hnode : u.inode n = newInode state name d date := by
    rw [ha.others.inode n (Ne.symm hdn), ← hw]
    exact View.setInode_same ..
  obtain ⟨hlive, hentries, hentries_dir, hparent⟩ := ha.tree hinv.toCore hd' hstate'
  have hlinked : Namespace.Linked w.tree u.tree d name n := by
    refine ⟨hlive, hentries, hentries_dir, fun m _ => hparent m, ?_⟩
    simp only [View.tree, hnode, newInode]
    omega
  refine ⟨⟨ha.core, hinv.tree.linked hlinked hd' hn' hn0⟩, hn, hdead, ⟨_, hborn, hlinked⟩, hnode,
    ha.state.trans hstate', ?_, ?_, ?_, ?_, ?_, ?_, ?_⟩
  · intro m hmn hmd
    rw [ha.others.inode m hmd, hothers.inode m hmn]
  · intro m r hmd hr
    have hmn : m ≠ n := by
      rintro rfl
      exact hdead hr.1
    obtain ⟨hr', hplace⟩ := hothers.place h.toCore hmn hr
    obtain ⟨hr'', hplace'⟩ := ha.others.place hinv.toCore hmd hr'
    refine ⟨hr'', hplace'.trans hplace, ?_⟩
    rw [← hothers.data m r hmn hr, ← hplace]
    exact ha.others.data m r hmd hr'
  · rw [ha.metadata, ← hw]
    rfl
  · obtain ⟨x, y, htaken⟩ := ha.taken
    refine ⟨x, y, fun c hcn hcx hcy => ?_⟩
    rw [htaken c hcx hcy, ← hw]
    exact View.setUsed_ne _ hcn
  · intro r hr
    obtain ⟨hr', hplace⟩ := hothers.place h.toCore hdn hr
    obtain ⟨hr'', hplace'⟩ := ha.own r hr'
    exact ⟨hr'', hplace'.trans hplace⟩
  · intro c hc
    by_cases hcn : c = 2 + n
    · exact Or.inr (Or.inl hcn)
    · refine (ha.gained c hc).imp (fun hwc => ?_) Or.inr
      rw [← hw] at hwc
      rwa [withNode, View.setInode_used, View.setUsed_ne _ hcn] at hwc
  · intro hzero
    refine (ha.room ?_).trans (freeCount_mono fun b _ _ hfree' => ?_)
    · rw [hothers.inode d hdn, hzero]
    · rw [← hw, withNode, View.setInode_used] at hfree'
      by_cases hbn : b = 2 + n
      · rw [hbn, hfree]
      · rwa [View.setUsed_ne _ hbn] at hfree'

end NewNode

/-! ## The operations -/

/-- The allocator stopped the creation of an entry of `d`: no slot of the node table is free, and
nothing has changed; or there are no two data blocks for the first record of `d`, and the slot of
the new node is taken already. -/
def OutOfBlocks (v : View) (d : ℕ) (e : Fault) (w : View) : Prop :=
  e.IsAlloc ∧ (freeCount v.used 2 34 = 0 ∧ w = v ∨
    (v.inode d).fileSize = 0 ∧ freeCount v.used 34 3000 ≤ 1 ∧
      ∃ n < 32, v.used (2 + n) = false ∧ w.used (2 + n) = true)

section Operations

variable {v : View} {path : CString} {d : ℕ} {name : List UInt8}

/-- INTERNAL: what was short when the allocator stopped. -/
theorem OutOfBlocks.full {w : View} {e : Fault} (h : OutOfBlocks v d e w) :
    freeCount v.used 2 34 = 0 ∨ freeCount v.used 34 3000 ≤ 1 :=
  h.2.imp And.left fun hrecord => hrecord.2.1

/-- INTERNAL: a directory has room for a record while a node is an orphan. -/
theorem size_le_of_orphan {w : View} {n : ℕ} (h : Inv w (some n)) (hn : w.live n) (hn0 : n ≠ 0)
    (hd : w.live d) (hstate : (w.inode d).state = 2) : (w.inode d).fileSize ≤ 3840 := by
  have hle := (h.records_le hd hstate).2 n rfl hn hn0
  have hmod := ((h.node d hd).dir hstate).size
  omega

theorem freeCount_withNode {n : ℕ} (hn : n < 32) (nd : Inode) :
    freeCount v.used 34 3000 ≤ freeCount (withNode v n nd).used 34 3000 := by
  apply freeCount_mono
  intro b hb _ hfree
  rw [withNode, View.setInode_used, View.setUsed_ne _ (by omega), hfree]

/-- INTERNAL: the directory has room for the record of the new node. -/
theorem dir_withNode {n date : ℕ} {state : UInt8} (name : List UInt8) (h : Inv v none)
    (hd : v.live d) (hstate : (v.inode d).state = 2) (hn : n < 32) (hfree : v.used (2 + n) = false)
    (hdate : date < 2 ^ 64) (hkind : state = 1 ∨ state = 2) :
    Core (withNode v n (newInode state name d date)) ∧
      (withNode v n (newInode state name d date)).live d ∧
      (withNode v n (newInode state name d date)).inode d = v.inode d ∧
      (v.inode d).fileSize ≤ 3840 := by
  obtain ⟨hinv, hborn, hothers⟩ := born name h hn hfree hd hdate hkind
  have hdn : d ≠ n := by
    rintro rfl
    rw [hd.2] at hfree
    cases hfree
  have hn0 : n ≠ 0 := by
    rintro rfl
    rw [h.metadata 2 le_rfl] at hfree
    cases hfree
  have hd' := (hborn.live d).mpr (Or.inl hd)
  have hinode := hothers.inode d hdn
  refine ⟨hinv.toCore, hd', hinode, ?_⟩
  have hsize := size_le_of_orphan hinv ((hborn.live n).mpr (Or.inr rfl)) hn0 hd'
    ((congrArg Inode.state hinode).trans hstate)
  rwa [hinode] at hsize

/-- INTERNAL: the record of the new node. SRCLINE: directory.c:178, file.c:38 -/
theorem vwp_addNewEntry {Q : Node → View → Prop} {E : Fault → View → Prop} {node : Node} {n : ℕ}
    {state : UInt8} {date : ℕ} (h : Inv v none) (hd : v.live d) (hstate : (v.inode d).state = 2)
    (hnode : inodeOfNode node = v.inode d) (hname : name ≠ []) (hnul : (0 : UInt8) ∉ name)
    (hlen : name.length ≤ 70) (hn : n < 32) (hfree : v.used (2 + n) = false)
    (hdate : date < 2 ^ 64) (hkind : state = 1 ∨ state = 2)
    (hQ : ∀ node' w, (inodeOfNode node').Fits → w.inode n = newInode state name d date →
      Created v (w.setInode d (inodeOfNode node')) d name n (newInode state name d date) →
      Q node' w)
    (hE : ∀ e w, OutOfBlocks v d e w → E e w) :
    vwp (addDirectoryEntry node name n) Q E (withNode v n (newInode state name d date)) := by
  obtain ⟨hcore, hd', hinode, hsize⟩ := dir_withNode name h hd hstate hn hfree hdate hkind
  refine vwp_addDirectoryEntry hcore hd' (by rw [hinode, hstate]) (by rw [hinode]; exact hsize)
    (hnode.trans hinode.symm) (by omega) hname hnul (by omega) ?_ ?_
  · intro node' w hw ha
    refine hQ node' w (ha.fits hd') ?_ (created h hn hfree hd hstate hdate hkind ha)
    rw [hw]
    exact View.setInode_same ..
  · intro e w hno
    refine hE e w ⟨hno.alloc, Or.inr ⟨hinode ▸ hno.empty, (freeCount_withNode hn _).trans hno.full,
      n, hn, hfree, hno.kept _ ?_⟩⟩
    exact View.setUsed_same ..

/-- INTERNAL: **`create_dir_node_and_add_entry`**, up to the write-back of the directory.
SRCLINE: directory.c:168-179 -/
theorem vwp_createDirNodeAndAddEntry {Q : Node → View → Prop} {E : Fault → View → Prop}
    {node : Node} (h : Inv v none) (hd : v.live d) (hstate : (v.inode d).state = 2)
    (hnode : inodeOfNode node = v.inode d) (hname : name ≠ []) (hnul : (0 : UInt8) ∉ name)
    (hlen : name.length ≤ 70)
    (hQ : ∀ node' w n date, (inodeOfNode node').Fits →
      Created v (w.setInode d (inodeOfNode node')) d name n (newInode 2 name d date) → Q node' w)
    (hE : ∀ e w, OutOfBlocks v d e w → E e w) :
    vwp (createDirNodeAndAddEntry node d name) Q E v := by
  refine vwp_bind (vwp_getFreeNodeBlock (fun n hn hfree _ => ?_)
    fun e he hcount => hE e _ ⟨he, Or.inl ⟨hcount, rfl⟩⟩)
  have hslot : 2 + n - nodeTableInitialBlock = n := Nat.add_sub_cancel_left 2 n
  rw [hslot]
  refine vwp_bind (vwp_bind (vwp_bind (vwp_time fun date hdate => ?_)))
  apply vwp_createNode (by omega) hnul
  intro new hnew
  have hfits : (inodeOfNode new).Fits := by
    rw [hnew]
    exact newInode_fits name 2 hd.1 hdate
  rw [readBlock_of_lt (show 2 + n < 3000 by omega)]
  refine vwp_bind (vwp_nodeToBlock hn hfits (vwp_unmapAndDestroyNode hn hfits ?_))
  rw [View.setInode_setInode, hnew]
  exact vwp_addNewEntry h hd hstate hnode hname hnul hlen hn hfree hdate (Or.inr rfl)
    (fun node' w hfits' _ hcreated => hQ node' w n date hfits' hcreated) hE

/-- INTERNAL: `create_and_save_file_node` returns the node that has the name, and goes on to the
new node when there is none. SRCLINE: file.c:15-30 -/
theorem vwp_createAndSaveFileNode_entry {Q : ℕ → View → Prop} {E : Fault → View → Prop}
    (h : Inv v none) (hd : v.live d) (hstate : (v.inode d).state = 2) (hname : name ≠ [])
    (hfound : ∀ n, v.tree.lookup d name = some n → Q n v)
    (hnew : v.tree.lookup d name = none → ∀ folder, inodeOfNode folder = v.inode d →
      vwp (do
        let newFileNode ← createFileNode name d
        let newBlockNum ← getFreeNodeBlock
        let newFileBlock := readBlock newBlockNum
        nodeToBlock newFileNode newFileBlock
        let folder ← addDirectoryEntry folder name (newBlockNum - nodeTableInitialBlock)
        unmapAndDestroyNode newFileNode newFileBlock
        unmapAndDestroyNode folder (2 + d)
        return newBlockNum - nodeTableInitialBlock) Q E v) :
    vwp (createAndSaveFileNode name d) Q E v := by
  have hfits := (h.node d hd).fits
  refine vwp_bind (vwp_readNode hd.1 (h.node d hd).named fun folder hfolder => ?_)
  have hdir : DirBlocks v (inodeOfNode folder) := by
    rw [hfolder]
    exact dirBlocks h.toCore hd hstate
  have hfolder_state : folder.state = 2 := by
    rw [← hstate, ← hfolder]
    rfl
  refine vwp_bind (vwp_existsEntry hfolder_state hdir hname fun e he => ?_)
  rw [hfolder] at he
  rcases he.tree hd hstate hname with ⟨hlookup, hvalid, -⟩ | ⟨hmissing, hinvalid, -⟩
  · rw [if_pos hvalid]
    refine vwp_bind (vwp_getEntry hfolder_state hdir hname fun e' he' => ?_)
    rw [hfolder] at he'
    refine vwp_bind (vwp_unmapAndDestroyNode hd.1 (hfolder ▸ hfits) (vwp_pure ?_))
    rw [hfolder, View.setInode_self]
    rcases he'.tree hd hstate hname with ⟨hlookup', -, -⟩ | ⟨hnone, -, -⟩
    · exact hfound _ hlookup'
    · rw [hnone] at hlookup
      cases hlookup
  · rw [if_neg (by rw [hinvalid]; decide)]
    exact hnew hmissing folder hfolder

/-- INTERNAL: **`create_and_save_file_node`** returns the node that has the name, and creates
it when there is none. SRCLINE: file.c:15-51 -/
theorem vwp_createAndSaveFileNode {Q : ℕ → View → Prop} {E : Fault → View → Prop}
    (h : Inv v none) (hd : v.live d) (hstate : (v.inode d).state = 2) (hname : name ≠ [])
    (hnul : (0 : UInt8) ∉ name) (hlen : v.tree.lookup d name = none → name.length ≤ 70)
    (hfound : ∀ n, v.tree.lookup d name = some n → Q n v)
    (hnew : v.tree.lookup d name = none → ∀ w n date,
      Created v w d name n (newInode 1 name d date) → Q n w)
    (hE : v.tree.lookup d name = none → ∀ e w, OutOfBlocks v d e w → E e w) :
    vwp (createAndSaveFileNode name d) Q E v := by
  apply vwp_createAndSaveFileNode_entry h hd hstate hname hfound
  intro hmissing folder hfolder
  have hlen := hlen hmissing
  refine vwp_bind (vwp_bind (vwp_time fun date hdate => ?_))
  apply vwp_createNode (by omega) hnul
  intro new hnode
  have hfits' : (inodeOfNode new).Fits := by
    rw [hnode]
    exact newInode_fits name 1 hd.1 hdate
  refine vwp_bind (vwp_getFreeNodeBlock (fun n hn hfree _ => ?_)
    fun e he hcount => hE hmissing e _ ⟨he, Or.inl ⟨hcount, rfl⟩⟩)
  have hslot : 2 + n - nodeTableInitialBlock = n := Nat.add_sub_cancel_left 2 n
  rw [hslot, readBlock_of_lt (show 2 + n < 3000 by omega)]
  refine vwp_bind (vwp_nodeToBlock hn hfits' ?_)
  rw [hnode]
  refine vwp_bind (vwp_addNewEntry h hd hstate hfolder hname hnul hlen hn hfree hdate
    (Or.inl rfl) (fun node' w hfits'' hw hcreated => ?_) (hE hmissing))
  refine vwp_bind (vwp_unmapAndDestroyNode hn hfits' ?_)
  have hself : inodeOfNode new = w.inode n := by rw [hnode, hw]; rfl
  rw [hself, View.setInode_self]
  exact vwp_bind (vwp_unmapAndDestroyNode hd.1 hfits'' (vwp_pure (hnew hmissing _ n date hcreated)))

/-- INTERNAL: `sac_mkdir` answers -1 when the name is taken, and goes on to the new node when it is
not. SRCLINE: sacio.c:13-40 -/
theorem vwp_sacMkdir_entry {Q : ℤ → View → Prop} {E : Fault → View → Prop} (h : Inv v none)
    (ht : Target v path d name) (hfound : (v.tree.lookup d name).isSome → Q (-1) v)
    (hnew : v.tree.lookup d name = none → ∀ node, inodeOfNode node = v.inode d →
      vwp (do
        let node ← createDirNodeAndAddEntry node d name
        unmapAndDestroyNode node (2 + d)
        return 0) Q E v) :
    vwp (sacMkdir path) Q E v := by
  obtain ⟨front, hpath, hwalk⟩ := ht.cut
  obtain ⟨hlast, -, hpre, -⟩ := cut_at_last_slash front ht.slash_free ht.name_ne
  have hd := ht.live h
  unfold sacMkdir
  rw [if_neg (by simp [ht.valid]), hpath, hlast]
  refine vwp_bind (vwp_pure ?_)
  dsimp only
  rw [hpre]
  refine vwp_bind (vwp_searchPath_dir h (by rw [stringSplit_slash]; exact hwalk) ?_)
  rintro e rfl hvalid
  rw [if_pos hvalid]
  refine vwp_bind (vwp_readNode hd.1 (h.node _ hd).named fun node hnode => ?_)
  have hdir : DirBlocks v (inodeOfNode node) := by
    rw [hnode]
    exact dirBlocks h.toCore hd ht.state
  have hnode_state : node.state = 2 := by
    rw [← ht.state, ← hnode]
    rfl
  refine vwp_bind (vwp_existsEntry hnode_state hdir ht.name_ne fun e' he' => ?_)
  rw [hnode] at he'
  rcases he'.tree hd ht.state ht.name_ne with ⟨hlookup, hvalid', -⟩ | ⟨hmissing, hinvalid, -⟩
  · rw [if_pos hvalid']
    refine vwp_bind (vwp_unmapAndDestroyNode hd.1 (hnode ▸ (h.node _ hd).fits) (vwp_pure ?_))
    rw [hnode, View.setInode_self]
    exact hfound (by rw [hlookup]; rfl)
  · rw [if_neg (by rw [hinvalid]; decide)]
    exact hnew hmissing node hnode

/-- INTERNAL: **`sac_mkdir`** creates the directory, or answers -1 when the name is taken.
SRCLINE: sacio.c:13-50 -/
theorem vwp_sacMkdir {Q : ℤ → View → Prop} {E : Fault → View → Prop} (h : Inv v none)
    (ht : Target v path d name) (hlen : v.tree.lookup d name = none → name.length ≤ 70)
    (hfound : (v.tree.lookup d name).isSome → Q (-1) v)
    (hnew : v.tree.lookup d name = none → ∀ w n date,
      Created v w d name n (newInode 2 name d date) → Q 0 w)
    (hE : v.tree.lookup d name = none → ∀ e w, OutOfBlocks v d e w → E e w) :
    vwp (sacMkdir path) Q E v := by
  have hd := ht.live h
  apply vwp_sacMkdir_entry h ht hfound
  intro hmissing node hnode
  refine vwp_bind (vwp_createDirNodeAndAddEntry h hd ht.state hnode ht.name_ne ht.nul_free
    (hlen hmissing) (fun node' w n date hfits hcreated => ?_) (hE hmissing))
  exact vwp_bind (vwp_unmapAndDestroyNode hd.1 hfits
    (vwp_pure (hnew hmissing _ n date hcreated)))

/-- INTERNAL: `sac_open` finds the directory of the path. SRCLINE: sacio.c:121-150 -/
theorem vwp_sacOpen_entry {Q : ℤ → View → Prop} {E : Fault → View → Prop} (h : Inv v none)
    (ht : Target v path d name)
    (hnode : vwp (createAndSaveFileNode name d) (fun n w => Q (i32 n) w) E v) :
    vwp (sacOpen path) Q E v := by
  obtain ⟨front, hpath, hwalk⟩ := ht.cut
  obtain ⟨-, hlast, -, hfolder⟩ := cut_at_last_slash front ht.slash_free ht.name_ne
  unfold sacOpen
  rw [if_neg (by simp [ht.valid]), hpath, hfolder, hlast]
  refine vwp_bind (vwp_pure (vwp_bind (vwp_searchPath_dir h hwalk ?_)))
  rintro e rfl hvalid
  rw [if_neg (by simp [hvalid])]
  exact vwp_bind (vwp_pure (vwp_bind (vwp_mono hnode (fun _ _ hQ => vwp_pure hQ)
    fun _ _ he => he)))

/-- INTERNAL: **`sac_open`** returns the node under the name, and creates a file when there is
none. SRCLINE: sacio.c:121-150 -/
theorem vwp_sacOpen {Q : ℤ → View → Prop} {E : Fault → View → Prop} (h : Inv v none)
    (ht : Target v path d name) (hlen : v.tree.lookup d name = none → name.length ≤ 70)
    (hfound : ∀ n : ℕ, n < 32 → v.tree.lookup d name = some n → Q n v)
    (hnew : v.tree.lookup d name = none → ∀ w (n : ℕ) date,
      Created v w d name n (newInode 1 name d date) → Q n w)
    (hE : v.tree.lookup d name = none → ∀ e w, OutOfBlocks v d e w → E e w) :
    vwp (sacOpen path) Q E v := by
  have hd := ht.live h
  refine vwp_sacOpen_entry h ht (vwp_createAndSaveFileNode h hd ht.state ht.name_ne ht.nul_free hlen
    (fun n hlookup => ?_) (fun hmissing w n date hcreated => ?_) hE)
  · have hn := (h.tree.target_live _ hd n (Namespace.mem_targets_of_lookup hlookup)).1
    rw [i32_of_lt (by omega)]
    exact hfound n hn hlookup
  · have hn := hcreated.slot
    rw [i32_of_lt (by omega)]
    exact hnew hmissing w n date hcreated

/-- INTERNAL: without the directory `sac_mkdir` answers -1. SRCLINE: sacio.c:13-50 -/
theorem vwp_sacMkdir_missing {Q : ℤ → View → Prop} {E : Fault → View → Prop} {orphan : Option ℕ}
    (h : Inv v orphan) (hvalid : isValidPath path.val = true) (hroot : path.val ≠ [slash])
    (hpass : Passable v 0 (stringSplit path.val))
    (hnone : v.tree.walk 0 (stringSplit path.val).dropLast = none) (hQ : Q (-1) v) :
    vwp (sacMkdir path) Q E v := by
  obtain ⟨front, name, hpath, hslash, hname⟩ := exists_last_piece hvalid hroot
  obtain ⟨hlast, -, hpre, -⟩ := cut_at_last_slash front hslash hname
  have hsplit := stringSplit_append front hslash hname
  rw [hpath, hsplit] at hpass hnone
  rw [List.dropLast_concat] at hnone
  unfold sacMkdir
  rw [if_neg (by simp [hvalid]), hpath, hlast]
  refine vwp_bind (vwp_pure ?_)
  dsimp only
  rw [hpre]
  refine vwp_bind (vwp_searchPath_missing h ?_ ?_ fun e hinvalid => ?_)
  · rw [stringSplit_slash]
    exact hpass.of_initial (List.prefix_append _ _)
  · rw [stringSplit_slash]
    exact hnone
  · rw [if_neg (by simp [hinvalid])]
    exact vwp_pure hQ

/-- INTERNAL: without the directory `sac_open` answers -1. SRCLINE: sacio.c:121-150 -/
theorem vwp_sacOpen_missing {Q : ℤ → View → Prop} {E : Fault → View → Prop} {orphan : Option ℕ}
    (h : Inv v orphan) (hvalid : isValidPath path.val = true) (hroot : path.val ≠ [slash])
    (hpass : Passable v 0 (stringSplit path.val))
    (hnone : v.tree.walk 0 (stringSplit path.val).dropLast = none) (hQ : Q (-1) v) :
    vwp (sacOpen path) Q E v := by
  obtain ⟨front, name, hpath, hslash, hname⟩ := exists_last_piece hvalid hroot
  obtain ⟨-, -, -, hfolder⟩ := cut_at_last_slash front hslash hname
  have hsplit := stringSplit_append front hslash hname
  rw [hpath, hsplit] at hpass hnone
  rw [List.dropLast_concat] at hnone
  unfold sacOpen
  rw [if_neg (by simp [hvalid]), hpath, hfolder]
  refine vwp_bind (vwp_pure (vwp_bind (vwp_searchPath_missing h
    (hpass.of_initial (List.prefix_append _ _)) hnone fun e hinvalid => ?_)))
  rw [if_pos (by simp [hinvalid])]
  exact vwp_pure hQ

end Operations

end LinuseFs.Analysis
