import LinuseFs.Model.Sacio

/-!
# The layout of a pointer block

`create_data_block_in_pointer_block` stores the number of a data block in a slot of a
pointer block; five functions read it back.  Three of them step over the slots by the
size of a number, as the writer does; `get_data_block_from_node` and
`getBlockNumberFromNodeDataBlock` step by the size of a pointer, so on a machine with
8-byte pointers they look for slot `s` where slot `2 * s` is.
-/

set_option autoImplicit false

namespace LinuseFs.Analysis

open LinuseFs.Computation LinuseFs.Model

/-! ## The readers, as equations -/

section Equations

variable {st : SacState}

/-- INTERNAL: a load either lies inside the file and the page or stops.
SRCLINE: block.c:7-24 -/
theorem load_run (block pos len : ℕ) :
    load block pos len st =
      if block < 3000 ∧ pos + len ≤ 4096 then .ok (fun i => st.disk block (pos + i)) st
      else .error .memory st := by
  unfold load
  rw [get_bind_apply]
  split <;> rfl

/-- INTERNAL: a number read from a slot. SRCLINE: directory.c:314-318 -/
theorem bytesToInt32_run (block pos : ℕ) :
    bytesToInt32 block pos st =
      if block < 3000 ∧ pos + 4 ≤ 4096 then .ok (leNat (st.disk block) pos 4) st
      else .error .memory st := by
  have hvalue : leNat (fun i => st.disk block (pos + i)) 0 4 = leNat (st.disk block) pos 4 :=
    leNat_congr fun i _ => by rw [Nat.zero_add]
  simp only [bytesToInt32, bind, EStateM.bind, load_run]
  by_cases h : block < 3000 ∧ pos + 4 ≤ 4096
  · simp only [if_pos h, pure, EStateM.pure, hvalue]
  · simp only [if_neg h]

theorem pointerAt_run {node : Node} {pos : ℕ} (hpos : pos < 1000) :
    node.pointerAt pos st = .ok (node.indirectPointerBlock pos) st := by
  unfold Node.pointerAt
  rw [if_pos (show pos < pointersPerNode from hpos)]
  rfl

/-- INTERNAL: `getBlockNumberFromNodeDataBlock` reads at `sizeof` of a pointer times the
slot. SRCLINE: node.c:207-222 -/
theorem getBlockNumberFromNodeDataBlock_run (abi : Abi) {node : Node} {p s : ℕ}
    (hp : p < 1000) (hs : s < 1024) :
    getBlockNumberFromNodeDataBlock abi node (1024 * p + s) st =
      if readBlock (node.indirectPointerBlock p) < 3000 ∧
          s * abi.sizeofPointer + abi.sizeofPointer ≤ 4096 then
        .ok (leNat (st.disk (readBlock (node.indirectPointerBlock p)))
          (s * abi.sizeofPointer) 4) st
      else .error .memory st := by
  have hdiv : (1024 * p + s) / 1024 = p := by omega
  have hmod : (1024 * p + s) % 1024 = s := by omega
  have hvalue : ∀ b : Bytes, leNat (fun i => b (s * abi.sizeofPointer + i)) 0 4 =
      leNat b (s * abi.sizeofPointer) 4 :=
    fun b => leNat_congr fun i _ => by rw [Nat.zero_add]
  simp only [getBlockNumberFromNodeDataBlock, bind, EStateM.bind, hdiv, hmod,
    pointerAt_run hp, load_run]
  by_cases h : readBlock (node.indirectPointerBlock p) < 3000 ∧
      s * abi.sizeofPointer + abi.sizeofPointer ≤ 4096
  · simp only [if_pos h, pure, EStateM.pure, hvalue]
  · simp only [if_neg h]

/-- INTERNAL: `get_data_block_from_node` maps the block of the number read there.
SRCLINE: node.c:128-144 -/
theorem getDataBlockFromNode_eq (abi : Abi) (node : Node) (k : ℕ) :
    getDataBlockFromNode abi node k =
      (do let numero ← getBlockNumberFromNodeDataBlock abi node k
          return readBlock numero) := by
  simp only [getDataBlockFromNode, getBlockNumberFromNodeDataBlock, bind_assoc, pure_bind]

end Equations

/-! ## What the writer leaves -/

/-- INTERNAL: after `create_data_block_in_pointer_block` the slot of the pointer block
holds the number, the block is one of the data region, and the rest of the pointer block
is as it was. SRCLINE: node.c:66-78 -/
theorem createDataBlockInPointerBlock_run {node : Node} {p s b : ℕ} {st st' : SacState}
    (hrun : createDataBlockInPointerBlock node p s st = .ok b st') :
    p < 1000 ∧ readBlock (node.indirectPointerBlock p) < 3000 ∧ b < 3000 ∧
      st'.disk (readBlock (node.indirectPointerBlock p)) =
        memcpy (st.disk (readBlock (node.indirectPointerBlock p))) (s * 4) (leBytes b) 4 := by
  refine wp_of_ok (Q := fun b st' => p < 1000 ∧ readBlock (node.indirectPointerBlock p) < 3000 ∧
    b < 3000 ∧ st'.disk (readBlock (node.indirectPointerBlock p)) =
      memcpy (st.disk (readBlock (node.indirectPointerBlock p))) (s * 4) (leBytes b) 4)
    (E := fun _ _ => True) ?_ hrun
  simp only [createDataBlockInPointerBlock, wp_bind]
  refine getFreeDataBlock_wp (fun b _ hb _ _ => ?_) fun _ _ _ => trivial
  unfold Node.pointerAt
  split
  next hp =>
    simp only [wp_pure, store, wp_bind, wp_get]
    split
    next hstore => exact ⟨hp, hstore.1, hb, by simp⟩
    next => trivial
  next => trivial

/-- **One layout.**  After the block number `b` was stored in slot `s` of pointer block
`p`: the two functions of `node.c` find `b` for the file block at that slot, and
`read_next_data_block`, a round of `iterate_blocks` and a round of the loop of
`sac_remove` take `b` from the slot; none of them leaves the pointer block. -/
structure LayoutAgrees (abi : Abi) (node : Node) (p s b : ℕ) (st : SacState) : Prop where
  getDataBlockFromNode :
    getDataBlockFromNode abi node (1024 * p + s) st = .ok (readBlock b) st
  getBlockNumberFromNodeDataBlock :
    getBlockNumberFromNodeDataBlock abi node (1024 * p + s) st = .ok b st
  readNextDataBlock : ∀ byteNum,
    readNextDataBlock node ⟨p, s, byteNum⟩ st = .ok (readBlock b, node) st
  iterateBlocks : ∀ (τ : Type) (process : ProcessEntry τ) isLast position n nroBloque acc,
    nextByte s position.blockNum 1024 isLast = true →
    iterateBlocks process (readBlock (node.indirectPointerBlock p)) isLast position (n + 1) s
        nroBloque invalidEntry acc st =
      (do let (result, acc) ← iterateBytesInBlock process (readBlock b)
            ((s == position.blockNum) && isLast) position 34 0 invalidEntry acc
          iterateBlocks process (readBlock (node.indirectPointerBlock p)) isLast position n
            (s + 1) b result acc) st
  sacRemove : ∀ n cantBloques,
    liberarDatos (readBlock (node.indirectPointerBlock p)) (n + 1) s (cantBloques + 1) st =
      (do bitarrayCleanBit b
          liberarDatos (readBlock (node.indirectPointerBlock p)) n (s + 1) cantBloques) st

/-- INTERNAL: the three readers that step by four bytes always agree with the writer, so
the layout agrees exactly when the two functions of `node.c` do. -/
theorem layoutAgrees_iff {abi : Abi} {node : Node} {p s b : ℕ} {st st' : SacState}
    (hs : s < 1024) (hptr : node.indirectPointerBlock p ≠ 0)
    (hrun : createDataBlockInPointerBlock node p s st = .ok b st') :
    LayoutAgrees abi node p s b st' ↔
      getBlockNumberFromNodeDataBlock abi node (1024 * p + s) st' = .ok b st' := by
  obtain ⟨hp, hblock, hb, hdisk⟩ := createDataBlockInPointerBlock_run hrun
  have hslot : bytesToInt32 (readBlock (node.indirectPointerBlock p)) (s * 4) st' =
      .ok b st' := by
    rw [bytesToInt32_run, if_pos ⟨hblock, by omega⟩, hdisk, leNat_memcpy_leBytes,
      Nat.mod_eq_of_lt (by omega)]
  refine ⟨fun h => h.getBlockNumberFromNodeDataBlock, fun h => ⟨?_, h, ?_, ?_, ?_⟩⟩
  · rw [getDataBlockFromNode_eq]
    simp only [bind, EStateM.bind, h, pure, EStateM.pure]
  · intro byteNum
    simp only [readNextDataBlock, bind, EStateM.bind, pointerAt_run hp, if_neg hptr, hslot,
      pure, EStateM.pure]
  · intro τ process isLast position n nroBloque acc hnext
    have hcond : (!isValidEntry invalidEntry && nextByte s position.blockNum 1024 isLast) =
        true := by rw [hnext]; rfl
    rw [iterateBlocks, if_pos hcond]
    simp only [bind, EStateM.bind, hslot]
  · intro n cantBloques
    rw [liberarDatos, if_pos (Nat.succ_pos _)]
    simp only [bind, EStateM.bind, hslot, Nat.add_sub_cancel]

/-- **The accessors of a pointer block agree** on a slot exactly when pointers have four
bytes, or the slot is the first one, or the slot of twice the index is inside the page
and already holds the number that was stored. SRCLINE: node.c:66-144, node.c:207-222 -/
theorem pointer_layout_agrees_iff {abi : Abi} {node : Node} {p s b : ℕ} {st st' : SacState}
    (hs : s < 1024) (hptr : node.indirectPointerBlock p ≠ 0)
    (hrun : createDataBlockInPointerBlock node p s st = .ok b st') :
    LayoutAgrees abi node p s b st' ↔
      abi.sizeofPointer = 4 ∨ s = 0 ∨
        (s < 512 ∧
          leNat (st.disk (readBlock (node.indirectPointerBlock p))) (2 * s * 4) 4 = b) := by
  obtain ⟨hp, hblock, hb, hdisk⟩ := createDataBlockInPointerBlock_run hrun
  rw [layoutAgrees_iff hs hptr hrun, getBlockNumberFromNodeDataBlock_run abi hp hs, hdisk]
  have hsame : leNat (memcpy (st.disk (readBlock (node.indirectPointerBlock p))) (s * 4)
      (leBytes b) 4) (s * 4) 4 = b := by
    rw [leNat_memcpy_leBytes, Nat.mod_eq_of_lt (by omega)]
  cases abi with
  | ilp32 =>
    have hwidth : Abi.ilp32.sizeofPointer = 4 := rfl
    rw [if_pos ⟨hblock, by rw [hwidth]; omega⟩, hwidth, hsame]
    simp
  | lp64 =>
    have hwidth : Abi.lp64.sizeofPointer = 8 := rfl
    by_cases h512 : s < 512
    · rw [if_pos ⟨hblock, by rw [hwidth]; omega⟩, hwidth]
      by_cases h0 : s = 0
      · subst h0
        simpa using hsame
      · rw [leNat_memcpy_outside (by omega), show s * 8 = 2 * s * 4 by omega]
        simp [h512, h0]
    · rw [if_neg (by rw [hwidth]; omega), hwidth]
      simp only [reduceCtorEq, false_iff]
      omega

/-- A state with an empty disk and no block in use. -/
def blankState : SacState where
  disk := fun _ _ => 0
  bitmap := fun _ => 0
  env := { heap := fun _ _ => 0, clock := fun _ => 0, taken := 0 }

/-- A file whose only pointer block is block 40. -/
def onePointerNode : Node where
  state := 1
  fileName := fun _ => 0
  parentBlock := 2
  fileSize := 0
  creationDate := 0
  modificationDate := 0
  indirectPointerBlock := Function.update (fun _ => 0) 0 40

/-- What a store in slot 1 of that pointer block leaves. -/
def storedState : SacState :=
  (blankState.take 34).setBlock 40
    (memcpy ((blankState.take 34).disk 40) (1 * 4) (leBytes 34) 4)

theorem storedState_run :
    createDataBlockInPointerBlock onePointerNode 0 1 blankState = .ok 34 storedState := by
  have hfirst : firstFree (fun b => !blockIsFree blankState b) (bitmapSize * 8 - 34) 34 =
      some 34 := by
    rw [firstFree_eq_some_iff]
    exact ⟨le_rfl, by decide, by decide, fun j h1 h2 => by omega⟩
  have hfree : getFreeDataBlock blankState = .ok 34 (blankState.take 34) := by
    simp only [getFreeDataBlock, getFreeBlock, nodeTableInitialBlock_eq, nodeTableBlocks,
      Nat.reduceAdd, get_bind_apply, hfirst]
    rfl
  have hblock : readBlock (onePointerNode.indirectPointerBlock 0) = 40 :=
    readBlock_of_lt (by decide)
  have hstore : store 40 (1 * 4) (leBytes 34) 4 (blankState.take 34) = .ok () storedState := by
    rw [store, get_bind_apply, if_pos (by decide)]
    rfl
  simp only [createDataBlockInPointerBlock, bind, EStateM.bind, hfree,
    pointerAt_run (show 0 < 1000 by decide), hblock, hstore]
  rfl

/-- The statement at slot 1 with four-byte pointers. -/
theorem pointer_layout_agrees_slot_one :
    LayoutAgrees .ilp32 onePointerNode 0 1 34 storedState ↔
      Abi.ilp32.sizeofPointer = 4 ∨ 1 = 0 ∨
        (1 < 512 ∧ leNat (blankState.disk (readBlock (onePointerNode.indirectPointerBlock 0)))
          (2 * 1 * 4) 4 = 34) :=
  pointer_layout_agrees_iff (by decide) (by decide) storedState_run

/-- With 8-byte pointers a number stored in slot 1 is looked for in slot 2.
SRCLINE: node.c:139, node.c:217 -/
theorem pointer_layout_disagrees :
    ¬ ∀ (abi : Abi) (node : Node) (p s b : ℕ) (st st' : SacState), s < 1024 →
      node.indirectPointerBlock p ≠ 0 →
      createDataBlockInPointerBlock node p s st = .ok b st' →
      LayoutAgrees abi node p s b st' := by
  intro h
  have hagrees := h .lp64 onePointerNode 0 1 34 blankState storedState (by decide) (by decide)
    storedState_run
  have hblock : readBlock (onePointerNode.indirectPointerBlock 0) = 40 :=
    readBlock_of_lt (by decide)
  have hread := hagrees.getBlockNumberFromNodeDataBlock
  rw [getBlockNumberFromNodeDataBlock_run .lp64 (by decide) (by decide), hblock,
    if_pos (by decide)] at hread
  exact absurd (EStateM.Result.ok.inj hread).1 (by decide)

end LinuseFs.Analysis
