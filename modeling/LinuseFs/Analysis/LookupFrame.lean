import LinuseFs.Model.Sacio
import LinuseFs.Interface.View

/-!
# Lookups leave the disk as it was

A lookup decodes each node on its way and stores it back.  What is stored is what was decoded,
byte for byte, but for the bytes of the name field behind its NUL: `strcpy` does not copy them,
and the copy of the node has uninitialised memory there.  The iteration over the records in
between only reads.

Nothing is assumed of the disk: a call that returns has found a NUL in each name field that it
decoded.
-/

set_option autoImplicit false

namespace LinuseFs.Analysis

open LinuseFs.Computation LinuseFs.Model LinuseFs.Interface

/-! ## What may change -/

/-- The block of a node has the same bytes, but for those behind the NUL of its name. -/
def Refreshed (d d' : Bytes) : Prop :=
  ∃ name, cstr d 1 71 = some name ∧ ∀ i, i ≤ 1 + name.length ∨ 72 ≤ i → d' i = d i

/-- From `s` to `s'` only the bytes behind the names of the visited nodes change. -/
structure OnlyRefreshed (visited : ℕ → Prop) (s s' : SacState) : Prop where
  bitmap : s'.bitmap = s.bitmap
  block : ∀ b, s'.disk b = s.disk b ∨ visited b ∧ Refreshed (s.disk b) (s'.disk b)

/-- The block that `read_node` maps for the node of an entry. -/
def nodeBlockOf (e : DirEntry) : ℕ := readBlock (getBlockNumFromNodeNum e.nodeNum)

/-- The search from `entry` along `pieces` reads the node in the block `b`: it looks up a piece
in it. -/
def SearchVisits (s : SacState) (pieces : List (List UInt8)) (entry : DirEntry) (b : ℕ) : Prop :=
  ∃ front e s', front <+: pieces ∧ front ≠ pieces ∧ searchPieces front entry s = .ok e s' ∧
    isValidEntry e = true ∧ nodeBlockOf e = b

/-- The entry of the root directory, with which `search_path` begins. SRCLINE: directory.c:23 -/
def rootEntry : DirEntry := { name := [slash], nodeNum := 0, data := default }

/-- `search_path` looks up a piece of the path in the node of the block `b`. -/
def Searched (s : SacState) (path : List UInt8) (b : ℕ) : Prop :=
  SearchVisits s (stringSplit path) rootEntry b

/-- The node in the block `b` is searched on the way, or is the one at its end. -/
def Visited (s : SacState) (path : List UInt8) (b : ℕ) : Prop :=
  Searched s path b ∨ ∃ e s', searchPath path s = .ok e s' ∧ nodeBlockOf e = b

section Refreshed

variable {d d' d'' : Bytes} {s s' s'' : SacState} {visited visited' : ℕ → Prop}

theorem Refreshed.name {name : List UInt8} (h : cstr d 1 71 = some name)
    (hsame : ∀ i, i ≤ 1 + name.length ∨ 72 ≤ i → d' i = d i) : cstr d' 1 71 = some name := by
  obtain ⟨hlen, hbytes, hnul, hmem⟩ := cstr_eq_some_iff.mp h
  refine cstr_eq_some_iff.mpr ⟨hlen, fun i hi => ?_, ?_, hmem⟩
  · rw [hsame _ (by omega), hbytes i hi]
  · rw [hsame _ (by omega), hnul]

theorem Refreshed.trans (h : Refreshed d d') (h' : Refreshed d' d'') : Refreshed d d'' := by
  obtain ⟨name, hname, hsame⟩ := h
  obtain ⟨name', hname', hsame'⟩ := h'
  rw [Refreshed.name hname hsame] at hname'
  cases hname'
  exact ⟨name, hname, fun i hi => (hsame' i hi).trans (hsame i hi)⟩

/-- INTERNAL: **the node decodes to the same fields.** SRCLINE: utils.c:163-186 -/
theorem Refreshed.inodeOf (h : Refreshed d d') : inodeOf d' = inodeOf d := by
  obtain ⟨name, hname, hsame⟩ := h
  have hfield : ∀ pos w, 72 ≤ pos → leNat d' pos w = leNat d pos w := fun pos w hpos =>
    leNat_congr fun i _ => hsame _ (by omega)
  simp only [Interface.inodeOf, Inode.mk.injEq]
  refine ⟨hsame 0 (by omega), (Refreshed.name hname hsame).trans hname.symm, hfield _ _ (by omega),
    hfield _ _ (by omega), hfield _ _ (by omega), hfield _ _ (by omega), ?_⟩
  funext i
  rw [hfield _ _ (by omega)]

theorem OnlyRefreshed.refl (visited : ℕ → Prop) (s : SacState) : OnlyRefreshed visited s s :=
  ⟨rfl, fun _ => Or.inl rfl⟩

theorem OnlyRefreshed.mono (h : OnlyRefreshed visited s s') (hv : ∀ b, visited b → visited' b) :
    OnlyRefreshed visited' s s' :=
  ⟨h.bitmap, fun b => (h.block b).imp_right (And.imp_left (hv b))⟩

theorem OnlyRefreshed.trans (h : OnlyRefreshed visited s s') (h' : OnlyRefreshed visited s' s'') :
    OnlyRefreshed visited s s'' := by
  refine ⟨h'.bitmap.trans h.bitmap, fun b => ?_⟩
  rcases h.block b with heq | ⟨hv, hr⟩
  · rw [← heq]
    exact h'.block b
  · rcases h'.block b with heq' | ⟨-, hr'⟩
    · rw [heq']
      exact Or.inr ⟨hv, hr⟩
    · exact Or.inr ⟨hv, hr.trans hr'⟩

theorem OnlyRefreshed.inodeOf (h : OnlyRefreshed visited s s') (b : ℕ) :
    inodeOf (s'.disk b) = inodeOf (s.disk b) := by
  rcases h.block b with heq | ⟨-, hr⟩
  · rw [heq]
  · exact hr.inodeOf

end Refreshed

/-! ## The iteration only reads -/

section Reading

variable {τ : Type} {process : ProcessEntry τ}

theorem readOnly_load (block pos len : ℕ) : ReadOnly (load block pos len) := by
  unfold load
  apply ReadOnly.get.bind
  intro s
  split
  · exact ReadOnly.pure _
  · exact ReadOnly.throw _

theorem readOnly_bytesToInt32 (block pos : ℕ) : ReadOnly (bytesToInt32 block pos) :=
  (readOnly_load _ _ _).bind fun _ => ReadOnly.pure _

theorem readOnly_pointerAt (node : Node) (i : ℕ) : ReadOnly (node.pointerAt i) := by
  unfold Node.pointerAt
  split
  · exact ReadOnly.pure _
  · exact ReadOnly.throw _

theorem readOnly_setPointer (node : Node) (i x : ℕ) : ReadOnly (node.setPointer i x) := by
  unfold Node.setPointer
  split
  · exact ReadOnly.pure _
  · exact ReadOnly.throw _

theorem readOnly_readDirectoryEntry (block pos : ℕ) : ReadOnly (readDirectoryEntry block pos) := by
  refine (readOnly_bytesToInt32 _ _).bind fun nodeNum => (readOnly_load _ _ _).bind fun bytes => ?_
  split
  · exact ReadOnly.throw _
  · exact ReadOnly.pure _

theorem readOnly_iterateBytesInBlock (dataBlock : ℕ) (isLast : Bool) (position : DataPosition)
    (n k : ℕ) (result : DirEntry) (acc : τ) :
    ReadOnly (iterateBytesInBlock process dataBlock isLast position n k result acc) := by
  induction n generalizing k result acc with
  | zero => exact ReadOnly.throw _
  | succ n ih =>
    unfold iterateBytesInBlock
    split
    · exact (readOnly_readDirectoryEntry _ _).bind fun entry => ih _ _ _
    · exact ReadOnly.pure _

theorem readOnly_iterateBlocks (pointersBlock : ℕ) (isLast : Bool) (position : DataPosition)
    (n j nroBloque : ℕ) (result : DirEntry) (acc : τ) :
    ReadOnly (iterateBlocks process pointersBlock isLast position n j nroBloque result acc) := by
  induction n generalizing j nroBloque result acc with
  | zero => exact ReadOnly.throw _
  | succ n ih =>
    unfold iterateBlocks
    split
    · apply (readOnly_bytesToInt32 _ _).bind
      intro number
      exact (readOnly_iterateBytesInBlock _ _ _ _ _ _ _).bind fun r => ih _ _ _ _
    · exact ReadOnly.pure _

theorem readOnly_iteratePointers (node : Node) (position : DataPosition) (n i : ℕ)
    (result : DirEntry) (acc : τ) :
    ReadOnly (iteratePointers process node position n i result acc) := by
  induction n generalizing i result acc with
  | zero => exact ReadOnly.throw _
  | succ n ih =>
    unfold iteratePointers
    split
    · exact ReadOnly.pure _
    · apply (readOnly_pointerAt _ _).bind
      intro pointer
      split
      · exact (readOnly_iterateBlocks _ _ _ _ _ _ _ _).bind fun r => ih _ _ _
      · exact ReadOnly.pure _

/-- INTERNAL: **the iteration over the records only reads.** SRCLINE: directory.c:218-237 -/
theorem readOnly_iteratePointersBlocks (node : Node) (acc : τ) :
    ReadOnly (iteratePointersBlocks process node acc) :=
  (readOnly_iteratePointers _ _ _ _ _ _).bind fun _ => ReadOnly.pure _

theorem readOnly_getEntry (node : Node) (entryName : List UInt8) :
    ReadOnly (getEntry node entryName) :=
  (readOnly_iteratePointersBlocks node ()).bind fun _ => ReadOnly.pure _

end Reading

/-! ## A node is stored as it was decoded -/

/-- The node in memory is the one of the bytes, with its name up to the NUL. -/
def CopyOf (d : Bytes) (node : Node) : Prop :=
  inodeOfNode node = inodeOf d ∧ ∃ name, cstr d 1 71 = some name

section Copies

variable {s s₀ : SacState} {d d' : Bytes} {node : Node} {b : ℕ}

/-- INTERNAL: the bytes of the name in memory. -/
theorem CopyOf.fileName {name : List UInt8} (h : CopyOf d node) (hname : cstr d 1 71 = some name)
    {i : ℕ} (hi : i ≤ name.length) : node.fileName i = d (1 + i) := by
  have hcopy : cstr node.fileName 0 71 = some name :=
    (congrArg Inode.name h.1).trans hname
  obtain ⟨-, hbytes, hnul, -⟩ := cstr_eq_some_iff.mp hname
  obtain ⟨-, hbytes', hnul', -⟩ := cstr_eq_some_iff.mp hcopy
  rw [Nat.zero_add] at hnul'
  by_cases hend : i = name.length
  · rw [hend, hnul, hnul']
  · have hlt : i < name.length := by omega
    rw [hbytes i hlt, ← hbytes' i hlt, Nat.zero_add]

/-- INTERNAL: **what `node_to_block` stores of a copy** are the bytes of the original, up to the
NUL of the name and behind the name field. SRCLINE: utils.c:146-186 -/
theorem CopyOf.nodeImage {name : List UInt8} (h : CopyOf d node) (hname : cstr d 1 71 = some name)
    {i : ℕ} (hi : i ≤ 1 + name.length ∨ 72 ≤ i) (hlt : i < 4096) :
    nodeImage node d' i = d i := by
  have hlen := (cstr_eq_some_iff.mp hname).1
  have hstate : node.state = d 0 := congrArg Inode.state h.1
  have hparent : node.parentBlock = leNat d 72 4 := congrArg Inode.parentBlock h.1
  have hsize : node.fileSize = leNat d 76 4 := congrArg Inode.fileSize h.1
  have hcreation : node.creationDate = leNat d 80 8 := congrArg Inode.creationDate h.1
  have hmodification : node.modificationDate = leNat d 88 8 := congrArg Inode.modificationDate h.1
  have hptr : ∀ k < 1000, node.indirectPointerBlock k = leNat d (96 + 4 * k) 4 := by
    intro k hk
    have := congrFun (congrArg Inode.ptr h.1) k
    simp only [inodeOfNode, inodeOf, if_pos hk] at this
    exact this
  have hat : ∀ {dst src : Bytes} {pos len}, pos ≤ i → i < pos + len →
      memcpy dst pos src len i = src (i - pos) := by
    intro dst src pos len hpos hend
    unfold memcpy
    rw [if_pos ⟨hpos, hend⟩]
  have hnumber : ∀ {n pos w}, n = leNat d pos w → pos ≤ i → i < pos + w →
      leBytes n (i - pos) = d i := by
    rintro n pos w rfl hpos hend
    rw [leBytes_leNat _ _ _ _ (by omega), Nat.add_sub_cancel' hpos]
  simp only [Model.nodeImage, fileNameSize, pointersPerNode, Nat.zero_add, Nat.reduceAdd,
    Nat.reduceMul]
  by_cases h96 : 96 ≤ i
  · rw [hat h96 (by omega), pointersImage, hptr _ (by omega),
      leBytes_leNat _ _ _ _ (Nat.mod_lt _ (by decide))]
    congr 1
    omega
  rw [memcpy_outside (by omega)]
  by_cases h88 : 88 ≤ i
  · rw [hat h88 (by omega), hnumber hmodification h88 (by omega)]
  rw [memcpy_outside (by omega)]
  by_cases h80 : 80 ≤ i
  · rw [hat h80 (by omega), hnumber hcreation h80 (by omega)]
  rw [memcpy_outside (by omega)]
  by_cases h76 : 76 ≤ i
  · rw [hat h76 (by omega), hnumber hsize h76 (by omega)]
  rw [memcpy_outside (by omega)]
  by_cases h72 : 72 ≤ i
  · rw [hat h72 (by omega), hnumber hparent h72 (by omega)]
  rw [memcpy_outside (by omega)]
  by_cases h1 : 1 ≤ i
  · rw [hat h1 (by omega), h.fileName hname (by omega), Nat.add_sub_cancel' h1]
  · rw [memcpy_outside (by omega), hat (Nat.zero_le i) (by omega), hstate]
    congr 1
    omega

/-- INTERNAL: **decoding a node** leaves the disk alone. SRCLINE: utils.c:163-186 -/
theorem blockToNode_wp {Q : Node → SacState → Prop}
    (hQ : ∀ node s', s'.disk = s.disk → s'.bitmap = s.bitmap → b < 3000 →
      CopyOf (s.disk b) node → Q node s') :
    wp (blockToNode b) Q (fun _ _ => True) s := by
  have hbytes : (fun i => s.disk b (0 + i)) = s.disk b := by
    funext i
    rw [Nat.zero_add]
  simp only [blockToNode, load, wp_bind, wp_get]
  split
  swap
  · trivial
  next hin =>
    rw [wp_pure, hbytes]
    simp only [Nat.zero_add, Nat.reduceAdd, fileNameSize]
    cases hname : cstr (s.disk b) 1 71 with
    | none => trivial
    | some name =>
      obtain ⟨hlen, -, -, hnul⟩ := cstr_eq_some_iff.mp hname
      simp only [createNode, wp_bind]
      apply malloc_wp
      intro fresh e'
      rw [if_pos hlen]
      refine hQ _ _ rfl rfl hin.1 ⟨?_, name, hname⟩
      simp only [inodeOfNode, inodeOf, hname, Inode.mk.injEq, and_self, and_true, true_and]
      exact cstr_memcpy_ofList fresh 0 71 _ hnul hlen (by omega)

/-- INTERNAL: `read_node`, of any number. SRCLINE: node.c:16-21 -/
theorem readNode_wp {Q : Node × ℕ → SacState → Prop} {n : ℕ}
    (hQ : ∀ node s', s'.disk = s.disk → s'.bitmap = s.bitmap →
      CopyOf (s'.disk (readBlock (getBlockNumFromNodeNum n))) node →
      Q (node, readBlock (getBlockNumFromNodeNum n)) s') :
    wp (readNode n) Q (fun _ _ => True) s := by
  simp only [readNode, wp_bind]
  apply blockToNode_wp
  intro node s' hdisk hbitmap _ hcopy
  rw [← hdisk] at hcopy
  exact hQ node s' hdisk hbitmap hcopy

/-- INTERNAL: **storing a copy of a node** refreshes its block. SRCLINE: utils.c:146-161 -/
theorem unmapAndDestroyNode_wp {Q : Unit → SacState → Prop} {visited : ℕ → Prop}
    (hdisk : s.disk = s₀.disk) (hbitmap : s.bitmap = s₀.bitmap) (hcopy : CopyOf (s.disk b) node)
    (hb : visited b) (hQ : ∀ s', OnlyRefreshed visited s₀ s' → Q () s') :
    wp (unmapAndDestroyNode node b) Q (fun _ _ => True) s := by
  simp only [unmapAndDestroyNode, nodeToBlock, load, store, wp_bind, wp_get]
  split
  swap
  · trivial
  next hin =>
    rw [wp_pure, wp_set]
    refine hQ _ ⟨hbitmap, fun c => ?_⟩
    rw [← hdisk]
    by_cases hc : c = b
    · subst hc
      obtain ⟨name, hname⟩ := hcopy.2
      refine Or.inr ⟨hb, name, hname, fun i hi => ?_⟩
      rw [setBlock_same]
      by_cases hlt : i < 4096
      · rw [memcpy_zero_inside hlt, hcopy.nodeImage hname hi hlt]
      · rw [memcpy_outside (Or.inr (not_lt.mp hlt))]
    · exact Or.inl (setBlock_ne _ _ hc)

end Copies

/-! ## The lookups -/

section Lookups

variable {s s' : SacState}

/-- One round of the loop of `search_path`. SRCLINE: directory.c:27-32 -/
def lookUp (piece : List UInt8) (entry : DirEntry) : Sac DirEntry := do
  let (node, nodeBlock) ← readNode entry.nodeNum
  let entry ← getEntry node piece
  unmapAndDestroyNode node nodeBlock
  return entry

theorem searchPieces_cons {entry : DirEntry} (hvalid : isValidEntry entry = true)
    (piece : List UInt8) (pieces : List (List UInt8)) :
    searchPieces (piece :: pieces) entry = lookUp piece entry >>= searchPieces pieces := by
  simp only [searchPieces, hvalid, if_true, lookUp, bind_assoc, pure_bind]

/-- INTERNAL: **one round** of the search refreshes the node it looks into. SRCLINE:
directory.c:27-32 -/
theorem lookUp_wp {visited : ℕ → Prop} (piece : List UInt8) {entry : DirEntry}
    (hv : visited (nodeBlockOf entry)) (s : SacState) :
    wp (lookUp piece entry) (fun _ s' => OnlyRefreshed visited s s') (fun _ _ => True) s := by
  unfold lookUp
  rw [wp_bind]
  apply readNode_wp
  intro node s₁ hdisk hbitmap hcopy
  refine wp_bind_of (readOnly_getEntry node piece s₁) (fun e s₂ hs₂ => ?_) fun _ _ _ => trivial
  subst hs₂
  rw [wp_bind]
  exact unmapAndDestroyNode_wp hdisk hbitmap hcopy hv fun _ hs => hs

/-- INTERNAL: **the search**; the induction is on the pieces that are left, and the nodes visited
by the rest are visited by the whole. SRCLINE: directory.c:26-33 -/
theorem searchPieces_wp (pieces : List (List UInt8)) (entry : DirEntry) (s : SacState) :
    wp (searchPieces pieces entry)
      (fun _ s' => OnlyRefreshed (SearchVisits s pieces entry) s s') (fun _ _ => True) s := by
  induction pieces generalizing entry s with
  | nil => exact OnlyRefreshed.refl _ s
  | cons piece pieces ih =>
    by_cases hvalid : isValidEntry entry = true
    swap
    · unfold searchPieces
      rw [if_neg hvalid]
      exact OnlyRefreshed.refl _ s
    have hfirst : SearchVisits s (piece :: pieces) entry (nodeBlockOf entry) :=
      ⟨[], entry, s, List.nil_prefix, (List.cons_ne_nil _ _).symm, rfl, hvalid, rfl⟩
    have hround := lookUp_wp piece hfirst s
    rw [searchPieces_cons hvalid]
    refine wp_bind_of (wp_run hround) (fun e s₁ ⟨hrun, hs₁⟩ => ?_) fun _ _ _ => trivial
    refine wp_mono (ih e s₁) (fun _ s₂ hs₂ => hs₁.trans (hs₂.mono fun b => ?_)) fun _ _ _ => trivial
    rintro ⟨front, e', s', hfront, hne, hsearch, hvalid', hb⟩
    refine ⟨piece :: front, e', s', List.cons_prefix_cons.mpr ⟨rfl, hfront⟩, ?_, ?_, hvalid', hb⟩
    · exact fun heq => hne (List.cons.inj heq).2
    · rw [searchPieces_cons hvalid, bind_of_ok hrun]
      exact hsearch

theorem searchPath_wp (path : List UInt8) (s : SacState) :
    wp (searchPath path) (fun _ s' => OnlyRefreshed (Searched s path) s s') (fun _ _ => True) s :=
  searchPieces_wp _ _ s

/-- INTERNAL: what follows the search for the path, at the node it has found. -/
theorem searchPath_bind_wp {β : Type} {path : List UInt8} {rest : DirEntry → Sac β}
    (hrest : ∀ e s', searchPath path s = .ok e s' →
      wp (rest e) (fun _ s'' => OnlyRefreshed (fun b => nodeBlockOf e = b) s' s'')
        (fun _ _ => True) s') :
    wp (searchPath path >>= rest) (fun _ s' => OnlyRefreshed (Visited s path) s s')
      (fun _ _ => True) s := by
  refine wp_bind_of (wp_run (searchPath_wp path s)) (fun e s₁ ⟨hrun, hs₁⟩ => ?_)
    fun _ _ _ => trivial
  refine wp_mono (hrest e s₁ hrun) (fun _ s₂ hs₂ => ?_) fun _ _ _ => trivial
  exact (hs₁.mono fun _ => Or.inl).trans (hs₂.mono fun b hb => Or.inr ⟨e, s₁, hrun, hb⟩)

/-- INTERNAL: `sac_stat`. SRCLINE: sacio.c:315-347 -/
theorem sacStat_wp (path : CString) (s : SacState) :
    wp (sacStat path) (fun _ s' => OnlyRefreshed (Visited s path.val) s s') (fun _ _ => True) s := by
  unfold sacStat
  split
  · exact OnlyRefreshed.refl _ s
  apply searchPath_bind_wp
  intro e s₁ _
  split
  · exact OnlyRefreshed.refl _ s₁
  rw [wp_bind]
  apply readNode_wp
  intro node s₂ hdisk hbitmap hcopy
  dsimp only
  split
  · rw [wp_bind]
    exact unmapAndDestroyNode_wp hdisk hbitmap hcopy rfl fun _ hs => hs
  · rw [wp_bind]
    exact unmapAndDestroyNode_wp hdisk hbitmap hcopy rfl fun _ hs => hs

/-- INTERNAL: `sac_readdir`. SRCLINE: sacio.c:349-381 -/
theorem sacReaddir_wp (path : CString) (s : SacState) :
    wp (sacReaddir path) (fun _ s' => OnlyRefreshed (Visited s path.val) s s')
      (fun _ _ => True) s := by
  unfold sacReaddir
  split
  · exact OnlyRefreshed.refl _ s
  apply searchPath_bind_wp
  intro e s₁ _
  rw [wp_bind]
  apply readNode_wp
  intro node s₂ hdisk hbitmap hcopy
  dsimp only
  split
  · rw [wp_bind]
    exact unmapAndDestroyNode_wp hdisk hbitmap hcopy rfl fun _ hs => hs
  · refine wp_bind_of (readOnly_iteratePointersBlocks node [] s₂) (fun r s₃ hs₃ => ?_)
      fun _ _ _ => trivial
    subst hs₃
    split
    · trivial
    · rw [wp_bind]
      exact unmapAndDestroyNode_wp hdisk hbitmap hcopy rfl fun _ hs => hs

/-- **Lookups are read-only.**  `search_path`, `sac_stat` and `sac_readdir` leave the bitmap and
every byte of the disk, but for those behind the name of the nodes they visit; each block decodes
to the same node. SRCLINE: directory.c:17-37, sacio.c:315-381 -/
theorem lookups_read_only (s : SacState) (path : CString) :
    (∀ e s', searchPath path.val s = .ok e s' →
      OnlyRefreshed (Searched s path.val) s s' ∧ ∀ b, inodeOf (s'.disk b) = inodeOf (s.disk b)) ∧
    (∀ r s', sacStat path s = .ok r s' →
      OnlyRefreshed (Visited s path.val) s s' ∧ ∀ b, inodeOf (s'.disk b) = inodeOf (s.disk b)) ∧
    (∀ r s', sacReaddir path s = .ok r s' →
      OnlyRefreshed (Visited s path.val) s s' ∧ ∀ b, inodeOf (s'.disk b) = inodeOf (s.disk b)) := by
  have hboth : ∀ {α : Type} {x : Sac α} {a : α} {s' : SacState} {visited : ℕ → Prop},
      wp x (fun _ s' => OnlyRefreshed visited s s') (fun _ _ => True) s → x s = .ok a s' →
      OnlyRefreshed visited s s' ∧ ∀ b, inodeOf (s'.disk b) = inodeOf (s.disk b) := by
    intro α x a s' visited hwp hok
    have h := wp_of_ok hwp hok
    exact ⟨h, h.inodeOf⟩
  exact ⟨fun _ _ hok => hboth (searchPath_wp path.val s) hok,
    fun _ _ hok => hboth (sacStat_wp path s) hok, fun _ _ hok => hboth (sacReaddir_wp path s) hok⟩

end Lookups

end LinuseFs.Analysis
