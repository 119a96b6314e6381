import LinuseFs.Analysis.LookupFrame
import LinuseFs.Analysis.RenameEffect

/-!
# What the disk holds when the blocks run out

The allocator ends the server in the middle of an operation, and what is on the disk then is what
the next server finds.  A creation stores the new node before it asks for the blocks of its record,
so nothing points to it yet; a rename has stored the old directory without the record by then, and
the node is lost.

The used bits are not on the disk at that point, so the namespace of the disk has every directory
that an entry leads to (`diskTree`).
-/

set_option autoImplicit false

namespace LinuseFs.Analysis

open LinuseFs.Computation LinuseFs.Model LinuseFs.Interface

/-- The namespace on the disk, whatever the bitmap says. -/
def diskTree (v : View) : Namespace ℕ (List UInt8) where
  live := fun n => n < 32
  entries := fun n => if n < 32 ∧ (v.inode n).state = 2 then v.records (v.inode n) else []
  parent := fun n => (v.inode n).parentBlock - 2

/-- On the disk of `s'` every node that a path of `s` led to is found by a path, with the contents
it had. -/
def KeepsNodes (s s' : SacState) : Prop :=
  ∀ ps n, leadsTo s ps = some n → ∃ ps', (diskTree (viewOf s')).walk 0 ps' = some n ∧
    (viewOf s').inode n = (viewOf s).inode n ∧ content (viewOf s') n = content (viewOf s) n

/-- The operation enters a name into a directory, and its paths pass no blocks of a file. -/
def EntersName (v : View) : Operation → Prop
  | .mkdir path => Passable v 0 (stringSplit path.val).dropLast
  | .open path => Passable v 0 (stringSplit path.val).dropLast
  | .rename oldPath newPath => Passable v 0 (stringSplit oldPath.val) ∧
      Passable v 0 (stringSplit newPath.val).dropLast
  | _ => False

/-- The operation renames something that is there. -/
def RenamesExisting (s : SacState) : Operation → Prop
  | .rename oldPath _ => leadsTo s (stringSplit oldPath.val) ≠ none
  | _ => False

/-! ## The namespace of the disk -/

/-- The nodes in use and the blocks of the data region are as they were. -/
structure Untouched (v w : View) : Prop where
  inode : ∀ n, v.live n → w.inode n = v.inode n
  data : w.data = v.data

section DiskTree

variable {v w : View} {n : ℕ} {orphan : Option ℕ} {ps : List (List UInt8)}

theorem Untouched.refl (v : View) : Untouched v v := ⟨fun _ _ => rfl, rfl⟩

theorem Untouched.entries (hu : Untouched v w) (hn : v.live n) :
    (diskTree w).entries n = v.tree.entries n := by
  have hrecords : w.records (v.inode n) = v.records (v.inode n) := by
    unfold View.records
    apply List.map_congr_left
    intro k _
    simp only [View.record, View.dataBlock, View.slot, hu.data]
  simp only [diskTree, View.tree, hu.inode n hn, hrecords, hn, hn.1, true_and]

/-- INTERNAL: **a path leads to the same node on the disk**, by induction on the pieces. -/
theorem Untouched.walk (hu : Untouched v w) (h : Inv v orphan) (hn : v.live n) :
    (diskTree w).walk n ps = v.tree.walk n ps := by
  induction ps generalizing n with
  | nil => rfl
  | cons p ps ih =>
    simp only [Namespace.walk, Namespace.lookup_congr (hu.entries hn)]
    cases hlookup : v.tree.lookup n p with
    | none => rfl
    | some m =>
      exact ih (h.tree.target_live n hn m (Namespace.mem_targets_of_lookup hlookup))

theorem Untouched.content (hu : Untouched v w) (hn : v.live n) : content w n = content v n := by
  have hbytes : byteAt w n = byteAt v n := by
    funext i
    simp only [byteAt, View.place, View.dataBlock, View.slot, hu.inode n hn, hu.data]
  simp only [Analysis.content, hu.inode n hn, hbytes]

/-- INTERNAL: no path leads to an orphan. -/
theorem walk_ne_orphan (h : Inv v (some n)) (hn0 : n ≠ 0) : v.tree.walk 0 ps ≠ some n := by
  intro hwalk
  rcases List.eq_nil_or_concat ps with rfl | ⟨qs, q, rfl⟩
  · exact hn0 (Option.some.inj hwalk).symm
  · rw [List.concat_eq_append, Namespace.walk_concat, Option.bind_eq_some_iff] at hwalk
    obtain ⟨m, hm, hlast⟩ := hwalk
    have hmem := Namespace.mem_targets_of_lookup hlast
    exact h.tree.target_ne_orphan m (h.tree.walk_live h.live_root hm) n hmem rfl

end DiskTree

/-! ## What only reads -/

section Quiet

variable {α τ : Type} {x : Sac α} {v : View} {process : ProcessEntry τ}

theorem noAlloc_pointerAt (node : Node) (i : ℕ) : NoAlloc (node.pointerAt i) := by
  unfold Node.pointerAt
  split
  · exact noAlloc_pure _
  · exact noAlloc_memory

theorem noAlloc_setPointer (node : Node) (i x : ℕ) : NoAlloc (node.setPointer i x) := by
  unfold Node.setPointer
  split
  · exact noAlloc_pure _
  · exact noAlloc_memory

theorem noAlloc_bytesToInt32 (block pos : ℕ) : NoAlloc (bytesToInt32 block pos) :=
  (noAlloc_load _ _ _).bind fun _ => noAlloc_pure _

theorem noAlloc_readDirectoryEntry (block pos : ℕ) : NoAlloc (readDirectoryEntry block pos) := by
  refine (noAlloc_bytesToInt32 _ _).bind fun nodeNum => (noAlloc_load _ _ _).bind fun bytes => ?_
  split
  · exact noAlloc_memory
  · exact noAlloc_pure _

theorem noAlloc_iterateBytesInBlock (dataBlock : ℕ) (isLast : Bool) (position : DataPosition)
    (n k : ℕ) (result : DirEntry) (acc : τ) :
    NoAlloc (iterateBytesInBlock process dataBlock isLast position n k result acc) := by
  induction n generalizing k result acc with
  | zero => exact noAlloc_memory
  | succ n ih =>
    unfold iterateBytesInBlock
    split
    · exact (noAlloc_readDirectoryEntry _ _).bind fun entry => ih _ _ _
    · exact noAlloc_pure _

theorem noAlloc_iterateBlocks (pointersBlock : ℕ) (isLast : Bool) (position : DataPosition)
    (n j nroBloque : ℕ) (result : DirEntry) (acc : τ) :
    NoAlloc (iterateBlocks process pointersBlock isLast position n j nroBloque result acc) := by
  induction n generalizing j nroBloque result acc with
  | zero => exact noAlloc_memory
  | succ n ih =>
    unfold iterateBlocks
    split
    · apply (noAlloc_bytesToInt32 _ _).bind
      intro number
      exact (noAlloc_iterateBytesInBlock _ _ _ _ _ _ _).bind fun r => ih _ _ _ _
    · exact noAlloc_pure _

theorem noAlloc_iteratePointers (node : Node) (position : DataPosition) (n i : ℕ)
    (result : DirEntry) (acc : τ) :
    NoAlloc (iteratePointers process node position n i result acc) := by
  induction n generalizing i result acc with
  | zero => exact noAlloc_memory
  | succ n ih =>
    unfold iteratePointers
    split
    · exact noAlloc_pure _
    · apply (noAlloc_pointerAt _ _).bind
      intro pointer
      split
      · exact (noAlloc_iterateBlocks _ _ _ _ _ _ _ _).bind fun r => ih _ _ _
      · exact noAlloc_pure _

theorem noAlloc_getEntry (node : Node) (name : List UInt8) : NoAlloc (getEntry node name) :=
  ((noAlloc_iteratePointers _ _ _ _ _ _).bind fun _ => noAlloc_pure _).bind fun _ => noAlloc_pure _

/-- INTERNAL: what only reads and does not allocate, as a step over views. -/
theorem vwp_quiet (hread : ReadOnly x) (halloc : NoAlloc x) :
    vwp x (fun _ w => w = v) (fun e _ => ¬ e.IsAlloc) v := by
  rintro s rfl
  exact wp_mono (wp_and (hread s) (halloc s)) (fun _ _ h => by rw [h.1]) fun _ _ h => h.2

/-- INTERNAL: the search for a name in any node. SRCLINE: directory.c:100-111 -/
theorem vwp_existsEntry_any (node : Node) (name : List UInt8) :
    vwp (existsEntry node name) (fun _ w => w = v) (fun e _ => ¬ e.IsAlloc) v :=
  vwp_quiet ((readOnly_getEntry node name).bind fun _ => ReadOnly.pure _)
    ((noAlloc_getEntry node name).bind fun _ => noAlloc_pure _)

end Quiet

/-! ## Where the allocator may stop -/

/-- When the allocator stops the function, the nodes in use and the data region are as in `v`. -/
def StopsUntouched {α : Type} (v : View) (x : Sac α) (w : View) : Prop :=
  vwp x (fun _ _ => True) (fun e u => e.IsAlloc → Untouched v u) w

section Stops

variable {α β : Type} {x : Sac α} {f : α → Sac β} {v w : View} {d n : ℕ} {name : List UInt8}

theorem NoAlloc.stops (h : NoAlloc x) : StopsUntouched v x w :=
  vwp_mono h.vwp (fun _ _ h => h) fun _ _ he halloc => absurd halloc he

/-- INTERNAL: behind a function that may be stopped nothing allocates. -/
theorem StopsUntouched.bind (hx : StopsUntouched v x w) (hf : ∀ a, NoAlloc (f a)) :
    StopsUntouched v (x >>= f) w :=
  vwp_bind_of hx (fun _ _ h => h) fun a _ _ => (hf a).stops

/-- INTERNAL: a function that does not allocate comes first. -/
theorem StopsUntouched.of_bind {R : α → View → Prop}
    (hx : vwp x R (fun e _ => ¬ e.IsAlloc) w)
    (hf : ∀ a u, R a u → StopsUntouched v (f a) u) : StopsUntouched v (x >>= f) w :=
  vwp_bind_of hx (fun _ _ he halloc => absurd halloc he) hf

theorem Untouched.setUsed (hu : Untouched v w) (b : ℕ) (x : Bool) :
    Untouched v (w.setUsed b x) := ⟨hu.inode, hu.data⟩

/-- INTERNAL: a node in a slot that was free is none of those in use. -/
theorem Untouched.newNode (hfree : v.used (2 + n) = false) (nd : Inode) :
    Untouched v ((v.setUsed (2 + n) true).setInode n nd) := by
  refine ⟨fun m hm => ?_, rfl⟩
  have hmn : m ≠ n := by
    rintro rfl
    rw [hm.2] at hfree
    cases hfree
  rw [View.setInode_ne _ hmn, View.setUsed_inode]

/-- INTERNAL: the search for the data block may stop, and has stored nothing by then.
SRCLINE: directory.c:194-213 -/
theorem stops_readNextDataBlock (node : Node) (position : DataPosition) (hu : Untouched v w) :
    StopsUntouched v (readNextDataBlock node position) w := by
  unfold readNextDataBlock
  apply StopsUntouched.of_bind (vwp_quiet (readOnly_pointerAt _ _) (noAlloc_pointerAt _ _))
  rintro pointer _ rfl
  split
  · refine vwp_bind (vwp_bind (vwp_getFreeDataBlock (fun y _ _ _ _ => ?_) fun e _ _ _ => hu))
    refine vwp_bind_of (vwp_quiet (readOnly_setPointer _ _ _) (noAlloc_setPointer _ _ _))
      (fun _ _ he halloc => absurd halloc he) ?_
    rintro node' _ rfl
    refine vwp_pure (StopsUntouched.bind (vwp_bind ?_) fun _ => noAlloc_pure _)
    refine vwp_getFreeDataBlock (fun x _ _ _ _ => ?_) fun e _ _ _ => hu.setUsed _ _
    exact ((noAlloc_pointerAt _ _).bind fun _ => (noAlloc_store _ _ _ _).bind fun _ =>
      noAlloc_pure _).stops
  · exact ((noAlloc_bytesToInt32 _ _).bind fun _ => noAlloc_pure _).stops

/-- INTERNAL: **a record that has no room leaves no trace.** SRCLINE: directory.c:40-56 -/
theorem stops_addDirectoryEntry (node : Node) (name : List UInt8) (n : ℕ) (hu : Untouched v w) :
    StopsUntouched v (addDirectoryEntry node name n) w := by
  refine vwp_bind (vwp_malloc fun stack => ?_)
  split
  · apply StopsUntouched.bind (stops_readNextDataBlock _ _ hu)
    intro r
    exact (noAlloc_store _ _ _ _).bind fun _ => (noAlloc_store _ _ _ _).bind fun _ => noAlloc_pure _
  · exact noAlloc_memory.stops

/-- INTERNAL: storing a node in a slot replaces what is there. SRCLINE: utils.c:146-161 -/
theorem vwp_nodeToBlock_any (node : Node) (hn : n < 32) :
    vwp (nodeToBlock node (2 + n)) (fun _ u => ∃ nd, u = w.setInode n nd)
      (fun e _ => ¬ e.IsAlloc) w := by
  rintro s rfl
  simp only [nodeToBlock, wp_bind]
  refine load_wp (by omega) (by decide) (store_wp (by omega) (by decide) ?_)
  exact ⟨_, viewOf_setBlock_node s _ hn⟩

/-! ## The operations -/

theorem vwp_createNode_any (state : UInt8) (name : List UInt8) (a b c d : ℕ) (ptr : ℕ → ℕ) :
    vwp (createNode state name a b c d ptr) (fun _ u => u = w) (fun e _ => ¬ e.IsAlloc) w := by
  refine vwp_bind (vwp_malloc fun fresh => ?_)
  split
  · exact vwp_pure rfl
  · exact vwp_throw not_isAlloc_memory

theorem vwp_createDirNode_any (name : List UInt8) (d : ℕ) :
    vwp (createDirNode name d) (fun _ u => u = w) (fun e _ => ¬ e.IsAlloc) w :=
  vwp_bind (vwp_time fun _ _ => vwp_createNode_any _ _ _ _ _ _ _)

theorem vwp_createFileNode_any (name : List UInt8) (d : ℕ) :
    vwp (createFileNode name d) (fun _ u => u = w) (fun e _ => ¬ e.IsAlloc) w :=
  vwp_bind (vwp_time fun _ _ => vwp_createNode_any _ _ _ _ _ _ _)

/-- INTERNAL: **`create_dir_node_and_add_entry`** may stop with the new node in its slot.
SRCLINE: directory.c:161-179 -/
theorem stops_createDirNodeAndAddEntry (node : Node) (d : ℕ) (name : List UInt8) :
    StopsUntouched v (createDirNodeAndAddEntry node d name) v := by
  refine vwp_bind (vwp_getFreeNodeBlock (fun n hn hfree _ => ?_) fun e _ _ _ => Untouched.refl v)
  have hslot : 2 + n - nodeTableInitialBlock = n := Nat.add_sub_cancel_left 2 n
  simp only [createAndSaveDirNode, hslot, bind_assoc, readBlock_of_lt (show 2 + n < 3000 by omega)]
  apply StopsUntouched.of_bind (vwp_createDirNode_any _ _)
  rintro new _ rfl
  apply StopsUntouched.of_bind (vwp_nodeToBlock_any _ hn)
  rintro _ _ ⟨nd, rfl⟩
  apply StopsUntouched.of_bind (vwp_nodeToBlock_any _ hn)
  rintro _ _ ⟨nd', rfl⟩
  rw [View.setInode_setInode]
  exact stops_addDirectoryEntry _ _ _ (Untouched.newNode hfree nd')

/-- INTERNAL: **`create_and_save_file_node`** may stop with the new node in its slot.
SRCLINE: file.c:15-51 -/
theorem stops_createAndSaveFileNode {orphan : Option ℕ} (h : Inv v orphan) (hd : v.live d)
    (name : List UInt8) : StopsUntouched v (createAndSaveFileNode name d) v := by
  refine vwp_bind (vwp_readNode hd.1 (h.node d hd).named fun folder _ => ?_)
  apply StopsUntouched.of_bind (vwp_existsEntry_any _ _)
  rintro found _ rfl
  split
  · exact ((noAlloc_getEntry _ _).bind fun _ => (noAlloc_unmapAndDestroyNode _ _).bind fun _ =>
      noAlloc_pure _).stops
  · apply StopsUntouched.of_bind (vwp_createFileNode_any _ _)
    rintro new _ rfl
    refine vwp_bind (vwp_getFreeNodeBlock (fun n hn hfree _ => ?_) fun e _ _ _ => Untouched.refl _)
    dsimp only
    rw [readBlock_of_lt (show 2 + n < 3000 by omega)]
    apply StopsUntouched.of_bind (vwp_nodeToBlock_any _ hn)
    rintro _ _ ⟨nd, rfl⟩
    apply StopsUntouched.bind (stops_addDirectoryEntry _ _ _ (Untouched.newNode hfree nd))
    exact fun _ => (noAlloc_unmapAndDestroyNode _ _).bind fun _ =>
      (noAlloc_unmapAndDestroyNode _ _).bind fun _ => noAlloc_pure _

/-- INTERNAL: **`sac_mkdir`** stops with the nodes as they were. SRCLINE: sacio.c:13-50 -/
theorem stops_sacMkdir {path : CString} {orphan : Option ℕ} (h : Inv v orphan)
    (hpass : Passable v 0 (stringSplit path.val).dropLast) :
    StopsUntouched v (sacMkdir path) v := by
  unfold sacMkdir
  by_cases hvalid : isValidPath path.val = true
  swap
  · rw [if_pos (by simp [hvalid])]
    exact (noAlloc_pure _).stops
  rw [if_neg (by simp [hvalid])]
  by_cases hroot : path.val = [slash]
  · apply vwp_bind
    rw [show getNewDirNameFromPath path.val = throw .memory by rw [hroot]; rfl]
    exact vwp_throw fun halloc => absurd halloc not_isAlloc_memory
  obtain ⟨front, name, hpath, hslash, hname⟩ := exists_last_piece hvalid hroot
  obtain ⟨hlast, -, hpre, -⟩ := cut_at_last_slash front hslash hname
  have hsplit := stringSplit_append front hslash hname
  rw [hpath, hsplit, List.dropLast_concat] at hpass
  rw [hpath, hlast]
  refine vwp_bind (vwp_pure ?_)
  dsimp only
  rw [hpre]
  refine vwp_bind (vwp_searchPath_passable h (by rw [stringSplit_slash]; exact hpass) fun e he => ?_)
  rcases he with ⟨hwalk, hvalid', -⟩ | ⟨-, hinvalid, -⟩
  · have hd := h.tree.walk_live h.live_root hwalk
    rw [if_pos hvalid']
    refine vwp_bind (vwp_readNode hd.1 (h.node _ hd).named fun node _ => ?_)
    apply StopsUntouched.of_bind (vwp_existsEntry_any _ _)
    rintro found _ rfl
    split
    · exact ((noAlloc_unmapAndDestroyNode _ _).bind fun _ => noAlloc_pure _).stops
    · exact (stops_createDirNodeAndAddEntry _ _ _).bind fun _ =>
        (noAlloc_unmapAndDestroyNode _ _).bind fun _ => noAlloc_pure _
  · rw [if_neg (by simp [hinvalid])]
    exact (noAlloc_pure _).stops

/-- INTERNAL: **`sac_open`** stops with the nodes as they were. SRCLINE: sacio.c:121-150 -/
theorem stops_sacOpen {path : CString} {orphan : Option ℕ} (h : Inv v orphan)
    (hpass : Passable v 0 (stringSplit path.val).dropLast) :
    StopsUntouched v (sacOpen path) v := by
  unfold sacOpen
  by_cases hvalid : isValidPath path.val = true
  swap
  · rw [if_pos (by simp [hvalid])]
    exact (noAlloc_pure _).stops
  rw [if_neg (by simp [hvalid])]
  by_cases hroot : path.val = [slash]
  · apply vwp_bind
    rw [show getFolderPathFromFilePath path.val = throw .memory by rw [hroot]; rfl]
    exact vwp_throw fun halloc => absurd halloc not_isAlloc_memory
  obtain ⟨front, name, hpath, hslash, hname⟩ := exists_last_piece hvalid hroot
  obtain ⟨-, hlast, -, hfolder⟩ := cut_at_last_slash front hslash hname
  have hsplit := stringSplit_append front hslash hname
  rw [hpath, hsplit, List.dropLast_concat] at hpass
  rw [hpath, hfolder, hlast]
  refine vwp_bind (vwp_pure (vwp_bind (vwp_searchPath_passable h hpass fun e he => ?_)))
  rcases he with ⟨hwalk, hvalid', -⟩ | ⟨-, hinvalid, -⟩
  · rw [if_neg (by simp [hvalid'])]
    refine vwp_bind (vwp_pure ?_)
    exact (stops_createAndSaveFileNode h (h.tree.walk_live h.live_root hwalk) _).bind fun _ =>
      noAlloc_pure _
  · rw [if_pos (by simp [hinvalid])]
    exact (noAlloc_pure _).stops

/-! ## Renames -/

/-- INTERNAL: no record has the empty name for `delete_directory_entry`. SRCLINE:
directory.c:58-71 -/
theorem vwp_deleteDirectoryEntry_nil (node : Node) :
    vwp (deleteDirectoryEntry node []) (fun node' u => node' = node ∧ u = w)
      (fun e _ => ¬ e.IsAlloc) w := by
  have hstep : ∀ (e : DirEntry) (acc : Unit), e.name.length ≤ 70 → ([] : List UInt8) = [] →
      (findEntry [] e acc).1.name = [] := by
    intro e acc _ _
    unfold findEntry
    split
    next hname => exact hname
    next => rfl
  have hquiet : vwp (iteratePointersBlocks (findEntry []) node ()) (fun _ u => u = w)
      (fun e _ => ¬ e.IsAlloc) w := vwp_quiet (readOnly_iteratePointersBlocks _ _)
    ((noAlloc_iteratePointers _ _ _ _ _ _).bind fun _ => noAlloc_pure _)
  have hnone : vwp (iteratePointersBlocks (findEntry []) node ()) (fun r _ => r.1.name = [])
      (fun _ _ => True) w :=
    kept_iteratePointersBlocks (fun name _ => name = []) hstep node () rfl
  unfold deleteDirectoryEntry
  rintro s rfl
  refine wp_bind_of (wp_and (hquiet s rfl) (hnone s rfl)) ?_
    fun _ _ he => he.1
  rintro ⟨entry, acc⟩ s' ⟨hview, hinvalid⟩
  dsimp only at hinvalid ⊢
  rw [if_neg (by simp [isValidEntry, hinvalid])]
  exact ⟨rfl, hview⟩

/-- INTERNAL: the second half of a rename stops before it stores a record. SRCLINE:
sacio.c:413-427 -/
theorem stops_enterNew {orphan : Option ℕ} (h : Inv w orphan) (hd : w.live d)
    (hu : Untouched v w) : StopsUntouched v (enterNew d name n) w := by
  refine vwp_bind (vwp_readNode hd.1 (h.node d hd).named fun folder _ => ?_)
  apply StopsUntouched.bind (stops_addDirectoryEntry _ _ _ hu)
  intro folder'
  exact (noAlloc_unmapAndDestroyNode _ _).bind fun _ => (noAlloc_readNode n).bind fun _ =>
    (noAlloc_unmapAndDestroyNode _ _).bind fun _ => noAlloc_pure _

/-- INTERNAL: a name that the directory does not list is not taken out of it. SRCLINE:
sacio.c:406-412 -/
theorem vwp_takeEntry_missing {orphan : Option ℕ} (h : Inv v orphan) (hd : v.live d)
    (hpass : (v.inode d).state = 2 ∨ (v.inode d).ptr 0 = 0) (hname : name ≠ [])
    (hlookup : v.tree.lookup d name = none) :
    vwp (takeEntry d name) (fun _ u => u = v) (fun e _ => ¬ e.IsAlloc) v := by
  refine vwp_bind (vwp_readNode hd.1 (h.node d hd).named fun node hnode => ?_)
  refine vwp_bind (vwp_getEntry_walk h.toCore hd hnode hpass hname
    (fun e hfound _ _ => ?_) fun e _ hinvalid _ => ?_)
  · rw [hlookup] at hfound
    cases hfound
  have hnil : e.name = [] := by simpa [isValidEntry] using hinvalid
  rw [hnil]
  apply vwp_bind_of (vwp_deleteDirectoryEntry_nil node) (fun _ _ he => he)
  rintro _ _ ⟨rfl, rfl⟩
  refine vwp_bind (vwp_unmapAndDestroyNode hd.1 (hnode ▸ (h.node d hd).fits) (vwp_pure ?_))
  rw [hnode, View.setInode_self]

/-- INTERNAL: **`sac_rename` of nothing** stops with the nodes as they were. SRCLINE:
sacio.c:383-432 -/
theorem stops_sacRename_missing {oldPath newPath : CString} {orphan : Option ℕ} (h : Inv v orphan)
    (hold : isValidPath oldPath.val = true ∧ oldPath.val ≠ [slash])
    (hnew : isValidPath newPath.val = true ∧ newPath.val ≠ [slash])
    (hpass : Passable v 0 (stringSplit oldPath.val))
    (hpass' : Passable v 0 (stringSplit newPath.val).dropLast)
    (hmissing : v.tree.walk 0 (stringSplit oldPath.val) = none) :
    StopsUntouched v (sacRename oldPath newPath) v := by
  obtain ⟨front, name, hpath, hslash, hname⟩ := exists_last_piece hold.1 hold.2
  have hsplit := stringSplit_append front hslash hname
  rw [← hpath] at hsplit
  refine vwp_sacRename_parents h hold hnew (hpass.of_initial (List.dropLast_prefix _)) hpass'
    (fun _ => trivial) fun d d' hd hd' => ?_
  rw [hsplit] at hpass hmissing hd ⊢
  rw [List.dropLast_concat] at hd
  rw [List.getLastD_concat]
  have hlive := h.tree.walk_live h.live_root hd
  have hhere := hpass _ d (List.prefix_append _ _) (by simp) hd
  rw [Namespace.walk_concat, hd] at hmissing
  apply StopsUntouched.of_bind (vwp_takeEntry_missing h hlive hhere hname hmissing)
  rintro n _ rfl
  exact stops_enterNew h (h.tree.walk_live h.live_root hd') (Untouched.refl _)

/-- INTERNAL: **`sac_rename` of something** stops with the node an orphan. SRCLINE:
sacio.c:383-432 -/
theorem stops_sacRename_found {oldPath newPath : CString} (h : Inv v none)
    (hold : isValidPath oldPath.val = true ∧ oldPath.val ≠ [slash])
    (hnew : isValidPath newPath.val = true ∧ newPath.val ≠ [slash])
    (hpass : Passable v 0 (stringSplit oldPath.val))
    (hpass' : Passable v 0 (stringSplit newPath.val).dropLast)
    (hfound : v.tree.walk 0 (stringSplit oldPath.val) = some n) :
    vwp (sacRename oldPath newPath) (fun _ _ => True)
      (fun e w => e.IsAlloc → ∃ u, n ≠ 0 ∧ Inv u (some n) ∧ Untouched u w) v := by
  obtain ⟨front, name, hpath, hslash, hname⟩ := exists_last_piece hold.1 hold.2
  have hsplit := stringSplit_append front hslash hname
  rw [← hpath] at hsplit
  refine vwp_sacRename_parents h hold hnew (hpass.of_initial (List.dropLast_prefix _)) hpass'
    (fun _ => trivial) fun d d' hd hd' => ?_
  rw [hsplit] at hfound hd ⊢
  rw [List.dropLast_concat] at hd
  rw [List.getLastD_concat]
  rw [Namespace.walk_concat, hd] at hfound
  have hlive := h.tree.walk_live h.live_root hd
  have hstate : (v.inode d).state = 2 := by
    by_contra hdir
    have hnone : v.tree.lookup d name = none := by
      rw [Namespace.lookup_eq_none_iff, entries_of_state_ne hdir]
      simp
    rw [Option.bind_some, hnone] at hfound
    cases hfound
  obtain ⟨-, hn0, -⟩ := parentBlock_of_lookup h hlive hfound
  refine vwp_bind (vwp_takeEntry h hlive hstate hname hfound fun u hremoved hu => ?_)
  have hlive' := (hremoved.live d').mpr (h.tree.walk_live h.live_root hd')
  exact vwp_mono (stops_enterNew hu hlive' (Untouched.refl u)) (fun _ _ h => h)
    fun e w hstop halloc => ⟨u, hn0, hu, hstop halloc⟩

/-- INTERNAL: a rename that is refused, or whose path has no last piece, does not allocate.
SRCLINE: sacio.c:383-396 -/
theorem vwp_sacRename_malformed {oldPath newPath : CString}
    (hbad : ¬ ((isValidPath oldPath.val = true ∧ oldPath.val ≠ [slash]) ∧
      isValidPath newPath.val = true ∧ newPath.val ≠ [slash])) :
    vwp (sacRename oldPath newPath) (fun _ _ => True) (fun e _ => ¬ e.IsAlloc) v := by
  have hroot : getNewDirNameFromPath [slash] = throw .memory := rfl
  have hlast : ∀ path, NoAlloc (getNewDirNameFromPath path) := by
    intro path
    unfold getNewDirNameFromPath
    split
    · exact noAlloc_memory
    · exact noAlloc_pure _
  unfold sacRename
  by_cases hvalid : isValidPath oldPath.val = true ∧ isValidPath newPath.val = true
  swap
  · have hrefused : (!isValidPath oldPath.val || !isValidPath newPath.val) = true := by
      rw [not_and_or] at hvalid
      simpa using hvalid
    rw [if_pos hrefused]
    exact vwp_pure trivial
  rw [if_neg (by simp [hvalid.1, hvalid.2])]
  by_cases hold : oldPath.val = [slash]
  · rw [hold, hroot]
    exact vwp_bind (vwp_throw not_isAlloc_memory)
  · have hnew : newPath.val = [slash] := by
      by_contra hnew
      exact hbad ⟨⟨hvalid.1, hold⟩, hvalid.2, hnew⟩
    rw [hnew, hroot]
    exact vwp_bind_of (hlast _).vwp (fun _ _ he => he) fun _ _ _ =>
      vwp_bind (vwp_throw not_isAlloc_memory)

end Stops

/-! ## What is found after the stop -/

section KeepsNodes

variable {s s' : SacState} {op : Operation} {e : Fault} {n : ℕ}

/-- INTERNAL: **what is as it was is found where it was.** -/
theorem Untouched.keepsNodes (hu : Untouched (viewOf s) (viewOf s')) (h : Inv (viewOf s) none) :
    KeepsNodes s s' := by
  intro ps n hwalk
  have hn := h.tree.walk_live h.live_root hwalk
  exact ⟨ps, (hu.walk h h.live_root).trans hwalk, hu.inode n hn, hu.content hn⟩

/-- INTERNAL: **the node of a rename that is stopped is lost.** -/
theorem not_keepsNodes {oldPath newPath : CString} (h : Inv (viewOf s) none)
    (hold : isValidPath oldPath.val = true ∧ oldPath.val ≠ [slash])
    (hnew : isValidPath newPath.val = true ∧ newPath.val ≠ [slash])
    (hop : EntersName (viewOf s) (.rename oldPath newPath))
    (hfound : leadsTo s (stringSplit oldPath.val) = some n)
    (hstop : sacRename oldPath newPath s = .error e s') (halloc : e.IsAlloc) :
    ¬ KeepsNodes s s' := by
  intro hk
  obtain ⟨u, hn0, hu, huntouched⟩ := wp_of_error
    (E := fun e s' => e.IsAlloc → ∃ u, n ≠ 0 ∧ Inv u (some n) ∧ Untouched u (viewOf s'))
    (stops_sacRename_found h hold hnew hop.1 hop.2 hfound s rfl) hstop halloc
  obtain ⟨ps, hps, -⟩ := hk _ n hfound
  rw [huntouched.walk hu hu.live_root] at hps
  exact walk_ne_orphan hu hn0 hps

/-- **A creation that the allocator stops keeps every file**, and so does the rename of nothing;
the rename of something loses it. SRCLINE: bitmap.c:29-38, directory.c:168-213, file.c:31-51,
sacio.c:400-424 -/
theorem keeps_nodes_iff (h : Inv (viewOf s) none) (hop : EntersName (viewOf s) op)
    (hstop : op.perform s = .error e s') (halloc : e.IsAlloc) :
    KeepsNodes s s' ↔ ¬ RenamesExisting s op := by
  have hkeeps : ∀ x : Sac ℤ, StopsUntouched (viewOf s) x (viewOf s) → x s = .error e s' →
      KeepsNodes s s' := by
    intro x hx hstop
    exact (wp_of_error (E := fun e s' => e.IsAlloc → Untouched (viewOf s) (viewOf s'))
      (hx s rfl) hstop halloc).keepsNodes h
  cases op with
  | mkdir path => exact iff_of_true (hkeeps _ (stops_sacMkdir h hop) hstop) fun hf => hf
  | «open» path => exact iff_of_true (hkeeps _ (stops_sacOpen h hop) hstop) fun hf => hf
  | rename oldPath newPath =>
    by_cases hgood : (isValidPath oldPath.val = true ∧ oldPath.val ≠ [slash]) ∧
        isValidPath newPath.val = true ∧ newPath.val ≠ [slash]
    swap
    · exact absurd halloc
        (wp_of_error (E := fun e _ => ¬ e.IsAlloc) (vwp_sacRename_malformed hgood s rfl) hstop)
    cases hwalk : (viewOf s).tree.walk 0 (stringSplit oldPath.val) with
    | none =>
      refine iff_of_true (hkeeps _ (stops_sacRename_missing h hgood.1 hgood.2 hop.1 hop.2 hwalk)
        hstop) fun hf => hf hwalk
    | some n =>
      refine iff_of_false (not_keepsNodes h hgood.1 hgood.2 hop hwalk hstop halloc)
        fun hno => hno fun hnone => ?_
      rw [leadsTo, hwalk] at hnone
      cases hnone
  | rmdir => exact hop.elim
  | remove => exact hop.elim
  | write => exact hop.elim
  | truncate => exact hop.elim

/-! ## A full disk -/

section Marked

variable {v w : View} {orphan : Option ℕ}

theorem tree_marked (hinode : w.inode = v.inode) (hdata : w.data = v.data)
    (hlow : ∀ b < 34, w.used b = v.used b) : w.live = v.live ∧ w.tree = v.tree := by
  have hlive : w.live = v.live := by
    funext m
    refine propext (and_congr_right fun hm => ?_)
    rw [hlow _ (by omega)]
  have hrecord : w.record = v.record := by
    funext b i
    simp only [View.record, hdata]
  refine ⟨hlive, ?_⟩
  simp only [View.tree, hlive, hinode, View.records, View.dataBlock, View.slot, hrecord, hdata]

/-- INTERNAL: **marking more blocks of the data region used** leaves a view well formed. -/
theorem Inv.marked (h : Inv v orphan) (hinode : w.inode = v.inode)
    (hdata : w.data = v.data) (hlow : ∀ b < 34, w.used b = v.used b)
    (hmore : ∀ b < 3000, v.used b = true → w.used b = true) : Inv w orphan := by
  obtain ⟨hlive, htree⟩ := tree_marked hinode hdata hlow
  have hplace : w.place = v.place := by
    funext m r
    cases r <;> simp only [View.place, View.dataBlock, View.slot, hinode, hdata]
  have hheld : w.held = v.held := by
    funext m r
    simp only [View.held, hlive, hinode]
  refine ⟨⟨fun b hb => hmore b (by omega) (h.metadata b hb), hinode ▸ h.root, fun m hm => ?_, fun m hm hm0 => ?_,
    ?_⟩, htree ▸ h.tree⟩
  · rw [hlive] at hm
    have hnode := h.node m hm
    rw [hinode]
    refine { hnode with dir := fun hstate => ?_ }
    exact (records_congr (hnode.dir hstate) (fun _ => by rw [hdata]) fun _ => by rw [hdata]).2
  · rw [hinode]
    exact h.parent m (hlive ▸ hm) hm0
  · rw [hplace, hheld]
    refine ⟨fun m r hr => ?_, h.own.inj⟩
    obtain ⟨h1, h2, h3⟩ := h.own.ok m r hr
    exact ⟨h1, h2, hmore _ h2 h3⟩

end Marked

/-- INTERNAL: the view with every block of the list marked used. -/
theorem viewOf_takeAll (l : List ℕ) (s : SacState) : viewOf (l.foldl SacState.take s) =
    { viewOf s with used := fun b => decide (b ∈ l) || (viewOf s).used b } := by
  induction l generalizing s with
  | nil =>
    simp only [List.foldl_nil, List.not_mem_nil, decide_false, Bool.false_or]
  | cons x l ih =>
    rw [List.foldl_cons, ih, viewOf_take]
    simp only [View.setUsed, View.mk.injEq, true_and, and_true]
    funext b
    by_cases hb : b = x <;> simp [hb]

/-- INTERNAL: the state with every block of the data region marked used. -/
theorem exists_full (h : Inv (viewOf s) none) : ∃ t, Inv (viewOf t) none ∧
    (viewOf t).tree = (viewOf s).tree ∧ freeCount (viewOf t).used 34 3000 = 0 := by
  have hview := viewOf_takeAll (List.range' 34 2966) s
  generalize (List.range' 34 2966).foldl SacState.take s = t at hview
  have hinode : (viewOf t).inode = (viewOf s).inode := by rw [hview]
  have hdata : (viewOf t).data = (viewOf s).data := by rw [hview]
  have hlow : ∀ b < 34, (viewOf t).used b = (viewOf s).used b := by
    intro b hb
    rw [hview, Bool.or_eq_right_iff_imp, decide_eq_true_eq, List.mem_range'_1]
    omega
  refine ⟨t, Inv.marked h hinode hdata hlow fun b _ hb => ?_, (tree_marked hinode hdata hlow).2, ?_⟩
  · rw [hview]
    simp only [hb, Bool.or_true]
  · rw [hview, freeCount_eq_zero_iff]
    intro b hb hb'
    have hmem : b ∈ List.range' 34 2966 := List.mem_range'_1.mpr ⟨hb, by omega⟩
    simp only [hmem, decide_true, Bool.true_or]

/-- INTERNAL: on a full disk whose only file is `/a`, its rename to `/b` is stopped. -/
theorem exists_stopped_rename : ∃ (n : ℕ) (s s' : SacState) (e : Fault),
    Inv (viewOf s) none ∧ EntersName (viewOf s) (.rename aPath bPath) ∧
      leadsTo s (stringSplit aPath.val) = some n ∧ sacRename aPath bPath s = .error e s' ∧
      e.IsAlloc := by
  have hfresh := fresh_of_formatted formatted_newDisk
  have hinv := hfresh.plain.toInv
  obtain ⟨n, s, date, -, hc⟩ := exists_open hinv (aPath_target hinv.toCore) (by decide)
    (hfresh.lookup_eq_none _ _) (by omega) hfresh.spare
  obtain ⟨t, hborn, hlinked⟩ := hc.tree
  have hentries : (viewOf s).tree.entries 0 = [([97], n)] := by
    have hdead : (0 : ℕ) ≠ n := by
      rintro rfl
      exact hc.dead hinv.live_root
    rw [hlinked.entries_dir, hborn.entries 0 hdead, hfresh.entries, List.nil_append]
  obtain ⟨full, hfull, htree, hcount⟩ := exists_full hc.inv
  have ht := aPath_target hfull.toCore
  have ht' : Target (viewOf full) bPath 0 [98] :=
    root_target hfull.toCore rfl (by decide) (by decide)
  have hlookup : (viewOf full).tree.lookup 0 [97] = some n := by
    rw [htree, Namespace.lookup, hentries]
    rfl
  -- the root has one record, so that it has none while the node moves
  have hsize : ((viewOf full).inode 0).fileSize = 128 := by
    have hlen := congrArg List.length (htree ▸ hentries)
    have hmod := ((hfull.node 0 hfull.live_root).dir hfull.root).size
    rw [entries_dir hfull.live_root hfull.root, length_records, List.length_singleton] at hlen
    omega
  obtain ⟨e, s', hstop, halloc⟩ := exists_error_of_wp
    (vwp_sacRename_noRoom hfull ht ht' hlookup (by decide)
      ⟨by rw [if_pos rfl, hsize], by rw [hcount]; omega⟩ full rfl)
  refine ⟨n, full, s', e, hfull, ⟨?_, ht'.passable⟩, ?_, hstop, halloc⟩
  · exact passable_of_dropLast fun _ => ⟨0, ht.split.1, hfull.root⟩
  · rw [leadsTo, ht.walk, hlookup]

/-- The statement on that disk. -/
theorem keeps_nodes_full_disk : ∃ (s s' : SacState) (e : Fault),
    (Operation.rename aPath bPath).perform s = .error e s' ∧ e.IsAlloc ∧
      (KeepsNodes s s' ↔ ¬ RenamesExisting s (.rename aPath bPath)) := by
  obtain ⟨n, s, s', e, h, hop, -, hstop, halloc⟩ := exists_stopped_rename
  exact ⟨s, s', e, hstop, halloc, keeps_nodes_iff h hop hstop halloc⟩

/-- **The file is gone**: the allocator stops the rename after the old record was taken out.
SRCLINE: sacio.c:408-418 -/
theorem stopped_rename_loses_file : ∃ (n : ℕ) (s s' : SacState) (e : Fault),
    Inv (viewOf s) none ∧ leadsTo s (stringSplit aPath.val) = some n ∧
      sacRename aPath bPath s = .error e s' ∧ e.IsAlloc ∧ ¬ KeepsNodes s s' := by
  obtain ⟨n, s, s', e, h, hop, hfound, hstop, halloc⟩ := exists_stopped_rename
  exact ⟨n, s, s', e, h, hfound, hstop, halloc,
    not_keepsNodes h ⟨by decide, by decide⟩ ⟨by decide, by decide⟩ hop hfound hstop halloc⟩

end KeepsNodes

end LinuseFs.Analysis
