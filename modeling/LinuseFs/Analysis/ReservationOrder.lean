import LinuseFs.Analysis.Allocation
import LinuseFs.Analysis.LookupFrame

/-!
# Blocks are reserved in order

A creation and a rename reserve blocks and release none, and each block that they reserve is the
lowest free one of its region.  Nothing is assumed of the disk.
-/

set_option autoImplicit false

namespace LinuseFs.Analysis

open LinuseFs.Computation LinuseFs.Model LinuseFs.Interface

/-- The first block of the region in which the block is reserved. -/
def firstOfRegion (b : ℕ) : ℕ :=
  if b < 34 then Pool.nodes.fromBlockNum else Pool.blocks.fromBlockNum

theorem firstOfRegion_node {b : ℕ} (h : b < 34) : firstOfRegion b = 2 := if_pos h

theorem firstOfRegion_data {b : ℕ} (h : 34 ≤ b) : firstOfRegion b = 34 := if_neg (not_lt.mpr h)

/-- When the computation returns, it has reserved blocks in order and released none. -/
def InOrder {α : Type} (x : Sac α) : Prop :=
  ∀ s, wp x (fun _ s' => TakenInOrder firstOfRegion s.used s'.used) (fun _ _ => True) s

namespace InOrder

variable {α β : Type} {x : Sac α} {f : α → Sac β}

theorem pure (a : α) : InOrder (Pure.pure a : Sac α) := fun s => TakenInOrder.refl _ s.used

theorem throw (e : Fault) : InOrder (MonadExcept.throw e : Sac α) := fun _ => trivial

theorem bind (hx : InOrder x) (hf : ∀ a, InOrder (f a)) : InOrder (x >>= f) := by
  intro s
  refine wp_bind_of (hx s) (fun a s' hs => ?_) fun _ _ _ => trivial
  exact wp_mono (hf a s') (fun _ _ h => hs.trans h) fun _ _ _ => trivial

/-- INTERNAL: what leaves the bitmap alone. -/
theorem of_bitmap (hx : ∀ s, wp x (fun _ s' => s'.bitmap = s.bitmap) (fun _ _ => True) s) :
    InOrder x := by
  intro s
  refine wp_mono (hx s) (fun _ s' hs => ?_) fun _ _ _ => trivial
  rw [show s'.used = s.used by simp only [funext_iff, SacState.used, hs, implies_true]]
  exact TakenInOrder.refl _ _

theorem of_readOnly (hx : ReadOnly x) : InOrder x :=
  of_bitmap fun s => wp_mono (hx s) (fun _ _ hs => congrArg SacState.bitmap hs) fun _ _ _ => trivial

end InOrder

/-! ## The primitives -/

section Primitives

theorem inOrder_malloc : InOrder malloc := InOrder.of_bitmap fun _ => malloc_wp fun _ _ => rfl

theorem inOrder_time : InOrder time := InOrder.of_bitmap fun _ => time_wp fun _ _ _ => rfl

theorem inOrder_load (block pos len : ℕ) : InOrder (load block pos len) :=
  InOrder.of_readOnly (readOnly_load _ _ _)

theorem inOrder_store (block pos : ℕ) (src : Bytes) (len : ℕ) :
    InOrder (store block pos src len) := by
  apply InOrder.of_bitmap
  intro s
  by_cases h : block < 3000 ∧ pos + len ≤ 4096
  · exact store_wp h.1 h.2 rfl
  · exact store_fault_wp h trivial

/-- INTERNAL: **a reservation takes the lowest free block**, of the node table or of the data
region. SRCLINE: bitmap.c:10-38 -/
theorem inOrder_getFree (p : Pool) : InOrder p.getFree := by
  intro s
  rw [getFree_eq]
  have hfirst : p.fromBlockNum ≤ p.toBlockNum := by cases p <;> decide
  refine getFreeBlock_wp hfirst (toBlockNum_le p) (fun b hle hlt hfree hlowest => ?_)
    fun _ _ _ => trivial
  have hstart : firstOfRegion b = p.fromBlockNum := by
    cases p with
    | nodes => exact firstOfRegion_node hlt
    | blocks => exact firstOfRegion_data hle
  refine ⟨fun c hc => ?_, fun c hc hc' y hy hlt' => ?_⟩
  · rw [take_used, hc, Bool.or_true]
  · have hcb : c = b := by simpa [take_used, hc] using hc'
    subst hcb
    rw [hstart] at hy
    rw [take_used, hlowest y hy hlt', Bool.or_true]

end Primitives

/-! ## Nodes and directories -/

section Directories

theorem inOrder_createNode (state : UInt8) (name : List UInt8) (a b c d : ℕ) (ptr : ℕ → ℕ) :
    InOrder (createNode state name a b c d ptr) := by
  apply inOrder_malloc.bind
  intro fresh
  split
  · exact InOrder.pure _
  · exact InOrder.throw _

theorem inOrder_nodeToBlock (node : Node) (block : ℕ) : InOrder (nodeToBlock node block) :=
  (inOrder_load _ _ _).bind fun _ => inOrder_store _ _ _ _

theorem inOrder_unmapAndDestroyNode (node : Node) (block : ℕ) :
    InOrder (unmapAndDestroyNode node block) := inOrder_nodeToBlock node block

theorem inOrder_blockToNode (block : ℕ) : InOrder (blockToNode block) := by
  apply (inOrder_load _ _ _).bind
  intro bytes
  dsimp only
  split
  · exact InOrder.throw _
  · exact inOrder_createNode _ _ _ _ _ _ _

theorem inOrder_readNode (n : ℕ) : InOrder (readNode n) :=
  (inOrder_blockToNode _).bind fun _ => InOrder.pure _

theorem inOrder_getEntry (node : Node) (name : List UInt8) : InOrder (getEntry node name) :=
  InOrder.of_readOnly (readOnly_getEntry node name)

theorem inOrder_existsEntry (node : Node) (name : List UInt8) : InOrder (existsEntry node name) :=
  (inOrder_getEntry node name).bind fun _ => InOrder.pure _

/-- INTERNAL: a search reserves nothing. SRCLINE: directory.c:17-37 -/
theorem inOrder_searchPath (path : List UInt8) : InOrder (searchPath path) :=
  InOrder.of_bitmap fun s => wp_mono (searchPath_wp path s) (fun _ _ hs => hs.bitmap)
    fun _ _ _ => trivial

/-- INTERNAL: the data block of the next record is reserved behind its pointer block.
SRCLINE: directory.c:194-213 -/
theorem inOrder_readNextDataBlock (node : Node) (position : DataPosition) :
    InOrder (readNextDataBlock node position) := by
  have hpointer : ∀ (node : Node) (i : ℕ), InOrder (node.pointerAt i) := fun node i =>
    InOrder.of_readOnly (readOnly_pointerAt node i)
  apply (hpointer node _).bind
  intro pointer
  split
  · refine InOrder.bind ?_ fun r => InOrder.bind ?_ fun b => InOrder.pure _
    · exact (inOrder_getFree .blocks).bind fun b =>
        (InOrder.of_readOnly (readOnly_setPointer _ _ _)).bind fun _ => InOrder.pure _
    · exact (inOrder_getFree .blocks).bind fun b => (hpointer _ _).bind fun _ =>
        (inOrder_store _ _ _ _).bind fun _ => InOrder.pure _
  · exact (InOrder.of_readOnly (readOnly_bytesToInt32 _ _)).bind fun _ => InOrder.pure _

theorem inOrder_addDirectoryEntry (node : Node) (name : List UInt8) (n : ℕ) :
    InOrder (addDirectoryEntry node name n) := by
  apply inOrder_malloc.bind
  intro stack
  split
  · exact (inOrder_readNextDataBlock _ _).bind fun r => (inOrder_store _ _ _ _).bind fun _ =>
      (inOrder_store _ _ _ _).bind fun _ => InOrder.pure _
  · exact InOrder.throw _

/-- INTERNAL: taking a record out releases nothing. SRCLINE: directory.c:58-83 -/
theorem inOrder_deleteDirectoryEntry (node : Node) (name : List UInt8) :
    InOrder (deleteDirectoryEntry node name) := by
  apply (InOrder.of_readOnly (readOnly_iteratePointersBlocks node ())).bind
  intro r
  dsimp only
  split
  · refine (inOrder_load _ _ _).bind fun _ => (inOrder_load _ _ _).bind fun _ =>
      (inOrder_store _ _ _ _).bind fun _ => ?_
    split
    · exact InOrder.of_readOnly (readOnly_setPointer _ _ _)
    · exact InOrder.pure _
  · exact InOrder.pure _

end Directories

/-! ## The operations -/

section Operations

theorem inOrder_createDirNodeAndAddEntry (node : Node) (d : ℕ) (name : List UInt8) :
    InOrder (createDirNodeAndAddEntry node d name) := by
  apply (inOrder_getFree .nodes).bind
  intro b
  refine InOrder.bind ?_ fun _ => inOrder_addDirectoryEntry _ _ _
  refine InOrder.bind ?_ fun new => (inOrder_nodeToBlock _ _).bind fun _ =>
    inOrder_unmapAndDestroyNode _ _
  exact inOrder_time.bind fun _ => inOrder_createNode _ _ _ _ _ _ _

theorem inOrder_createAndSaveFileNode (name : List UInt8) (d : ℕ) :
    InOrder (createAndSaveFileNode name d) := by
  refine (inOrder_readNode d).bind fun r => (inOrder_existsEntry _ _).bind fun found => ?_
  split
  · exact (inOrder_getEntry _ _).bind fun _ => (inOrder_unmapAndDestroyNode _ _).bind fun _ =>
      InOrder.pure _
  · refine InOrder.bind ?_ fun new => (inOrder_getFree .nodes).bind fun b =>
      (inOrder_nodeToBlock _ _).bind fun _ => (inOrder_addDirectoryEntry _ _ _).bind fun _ =>
        (inOrder_unmapAndDestroyNode _ _).bind fun _ =>
          (inOrder_unmapAndDestroyNode _ _).bind fun _ => InOrder.pure _
    exact inOrder_time.bind fun _ => inOrder_createNode _ _ _ _ _ _ _

theorem inOrder_getNewDirNameFromPath (path : List UInt8) :
    InOrder (getNewDirNameFromPath path) := by
  unfold getNewDirNameFromPath
  split
  · exact InOrder.throw _
  · exact InOrder.pure _

/-- INTERNAL: **`sac_mkdir`** reserves in order. SRCLINE: sacio.c:13-50 -/
theorem inOrder_sacMkdir (path : CString) : InOrder (sacMkdir path) := by
  unfold sacMkdir
  split
  · exact InOrder.pure _
  refine (inOrder_getNewDirNameFromPath _).bind fun name => (inOrder_searchPath _).bind fun e => ?_
  split
  · refine (inOrder_readNode _).bind fun r => (inOrder_existsEntry _ _).bind fun found => ?_
    split
    · exact (inOrder_unmapAndDestroyNode _ _).bind fun _ => InOrder.pure _
    · exact (inOrder_createDirNodeAndAddEntry _ _ _).bind fun _ =>
        (inOrder_unmapAndDestroyNode _ _).bind fun _ => InOrder.pure _
  · exact InOrder.pure _

/-- INTERNAL: **`sac_open`** reserves in order. SRCLINE: sacio.c:121-150 -/
theorem inOrder_sacOpen (path : CString) : InOrder (sacOpen path) := by
  unfold sacOpen
  split
  · exact InOrder.pure _
  refine InOrder.bind ?_ fun folder => (inOrder_searchPath _).bind fun e => ?_
  · unfold getFolderPathFromFilePath
    split
    · exact InOrder.throw _
    · exact InOrder.pure _
  split
  · exact InOrder.pure _
  · exact (inOrder_getNewDirNameFromPath _).bind fun name =>
      (inOrder_createAndSaveFileNode _ _).bind fun _ => InOrder.pure _

/-- INTERNAL: **`sac_rename`** reserves in order. SRCLINE: sacio.c:383-432 -/
theorem inOrder_sacRename (oldPath newPath : CString) : InOrder (sacRename oldPath newPath) := by
  unfold sacRename
  split
  · exact InOrder.pure _
  refine (inOrder_getNewDirNameFromPath _).bind fun name =>
    (inOrder_getNewDirNameFromPath _).bind fun name' => (inOrder_searchPath _).bind fun e =>
      (inOrder_searchPath _).bind fun e' => ?_
  split
  · exact (inOrder_readNode _).bind fun r => (inOrder_getEntry _ _).bind fun entry =>
      (inOrder_deleteDirectoryEntry _ _).bind fun _ =>
        (inOrder_unmapAndDestroyNode _ _).bind fun _ => (inOrder_readNode _).bind fun _ =>
          (inOrder_addDirectoryEntry _ _ _).bind fun _ =>
            (inOrder_unmapAndDestroyNode _ _).bind fun _ => (inOrder_readNode _).bind fun _ =>
              (inOrder_unmapAndDestroyNode _ _).bind fun _ => InOrder.pure _
  · exact InOrder.pure _

end Operations

end LinuseFs.Analysis
