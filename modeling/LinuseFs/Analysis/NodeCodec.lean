import LinuseFs.Analysis.LookupFrame

/-!
# The node codec

`node_to_block` and `block_to_node` place the fields of a node with two running offsets.  Both
reach byte 4096: the encoding leaves no byte of the block as it was, a node is decoded as it was
encoded, and a block is encoded as it was decoded, but for the bytes behind the NUL of the name,
which the decoded node takes from `malloc`.
-/

set_option autoImplicit false

namespace LinuseFs.Analysis

open LinuseFs.Computation LinuseFs.Model LinuseFs.Interface

/-- The two nodes have the same fields, with the name as a C string. -/
structure SameFields (node node' : Node) : Prop where
  state : node'.state = node.state
  name : cstr node'.fileName 0 71 = cstr node.fileName 0 71
  parentBlock : node'.parentBlock = node.parentBlock
  fileSize : node'.fileSize = node.fileSize
  creationDate : node'.creationDate = node.creationDate
  modificationDate : node'.modificationDate = node.modificationDate
  pointer : ∀ i < 1000, node'.indirectPointerBlock i = node.indirectPointerBlock i

/-- The first NUL of the name field at `pos` is its byte `k`. -/
structure FirstNul (d : Bytes) (pos k : ℕ) : Prop where
  lt : k < 71
  nul : d (pos + k) = 0
  first : ∀ j < k, d (pos + j) ≠ 0

/-- A node whose name field has a NUL is decoded from block `b` as it was encoded there, whatever
memory `malloc` hands out. -/
def DecodesEncoded (b : ℕ) : Prop :=
  ∀ (node : Node) (s : SacState), (inodeOfNode node).Fits → (∃ k < 71, node.fileName k = 0) →
    ∃ s' node' s'', nodeToBlock node b s = .ok () s' ∧ blockToNode b s' = .ok node' s'' ∧
      SameFields node node'

/-- The encoding of a node replaces the 4096 bytes of block `b`, and nothing else. -/
def FillsBlock (b : ℕ) : Prop :=
  ∀ (node : Node) (s t : SacState), ∃ s' t', nodeToBlock node b s = .ok () s' ∧
    nodeToBlock node b t = .ok () t' ∧ (∀ i < 4096, s'.disk b i = t'.disk b i) ∧
    (∀ i ≥ 4096, s'.disk b i = s.disk b i) ∧ ∀ c, c ≠ b → s'.disk c = s.disk c

/-- The block `b`, when its name field has a NUL, is encoded as it was decoded, but for the bytes
of the field behind the NUL. -/
def EncodesDecoded (b : ℕ) : Prop :=
  ∀ (s : SacState) (k : ℕ), FirstNul (s.disk b) 1 k →
    ∃ node s' s'', blockToNode b s = .ok node s' ∧ nodeToBlock node b s' = .ok () s'' ∧
      (∀ i < 4096, i ≤ 1 + k ∨ 71 < i → s''.disk b i = s.disk b i) ∧
      ∀ c, c ≠ b → s''.disk c = s.disk c

section Codec

variable {s : SacState} {b : ℕ} {node : Node} {E : Fault → SacState → Prop}

/-- INTERNAL: the bytes that `node_to_block` stores do not depend on those it finds. SRCLINE:
utils.c:146-161 -/
theorem nodeImage_fills (node : Node) (d d' : Bytes) {i : ℕ} (hi : i < 4096) :
    nodeImage node d i = nodeImage node d' i := by
  simp only [nodeImage, memcpy, fileNameSize, pointersPerNode, Nat.zero_add, Nat.reduceAdd,
    Nat.reduceMul]
  split_ifs <;> first | rfl | omega

/-- INTERNAL: **encoding a node** in a block of the disk. SRCLINE: utils.c:146-161 -/
theorem nodeToBlock_wp {Q : Unit → SacState → Prop} (hb : b < 3000)
    (hQ : ∀ s', (∀ i < 4096, s'.disk b i = nodeImage node (s.disk b) i) →
      (∀ i ≥ 4096, s'.disk b i = s.disk b i) → (∀ c, c ≠ b → s'.disk c = s.disk c) → Q () s') :
    wp (nodeToBlock node b) Q E s := by
  have hbytes : (fun i => s.disk b (0 + i)) = s.disk b := by
    funext i
    rw [Nat.zero_add]
  simp only [nodeToBlock, wp_bind]
  refine load_wp hb (by decide) (store_wp hb (by decide) ?_)
  rw [hbytes]
  refine hQ _ (fun i hi => ?_) (fun i hi => ?_) fun c hc => setBlock_ne _ _ hc
  · rw [setBlock_same, memcpy_zero_inside hi]
  · rw [setBlock_same, memcpy_outside (Or.inr (by simpa using hi))]

/-- INTERNAL: **decoding a block** whose name field has a NUL. SRCLINE: utils.c:163-186 -/
theorem blockToNode_ok_wp {Q : Node → SacState → Prop} {k : ℕ} (hb : b < 3000) (hk : k < 71)
    (hnul : s.disk b (1 + k) = 0)
    (hQ : ∀ node s', s'.disk = s.disk → CopyOf (s.disk b) node → Q node s') :
    wp (blockToNode b) Q E s := by
  have hbytes : (fun i => s.disk b (0 + i)) = s.disk b := by
    funext i
    rw [Nat.zero_add]
  obtain ⟨name, hname⟩ := exists_cstr hk hnul
  obtain ⟨hlen, -, -, hfree⟩ := cstr_eq_some_iff.mp hname
  simp only [blockToNode, wp_bind]
  apply load_wp hb (by decide)
  rw [hbytes]
  simp only [Nat.zero_add, Nat.reduceAdd, fileNameSize, hname, createNode, wp_bind]
  apply malloc_wp
  intro fresh e'
  rw [if_pos hlen]
  refine hQ _ _ rfl ⟨?_, name, hname⟩
  simp only [inodeOfNode, inodeOf, hname, Inode.mk.injEq, and_self, and_true, true_and]
  exact cstr_memcpy_ofList fresh 0 71 _ hfree hlen (Nat.lt_succ_self _)

/-- INTERNAL: the fields are those of the decoded node. -/
theorem sameFields_of_inode {node' : Node} (h : inodeOfNode node' = inodeOfNode node) :
    SameFields node node' where
  state := congrArg Inode.state h
  name := congrArg Inode.name h
  parentBlock := congrArg Inode.parentBlock h
  fileSize := congrArg Inode.fileSize h
  creationDate := congrArg Inode.creationDate h
  modificationDate := congrArg Inode.modificationDate h
  pointer i _ := congrFun (congrArg Inode.ptr h) i

/-- INTERNAL: the fields of a block are those of its 4096 bytes. -/
theorem inodeOf_congr {d d' : Bytes} (h : ∀ i < 4096, d i = d' i) : inodeOf d = inodeOf d' := by
  simp only [inodeOf, Inode.mk.injEq]
  refine ⟨h 0 (by omega), cstr_congr fun i hi => h _ (by omega), ?_, ?_, ?_, ?_, ?_⟩
  · exact leNat_congr fun i hi => h _ (by omega)
  · exact leNat_congr fun i hi => h _ (by omega)
  · exact leNat_congr fun i hi => h _ (by omega)
  · exact leNat_congr fun i hi => h _ (by omega)
  · funext i
    split
    · exact leNat_congr fun j hj => h _ (by omega)
    · rfl

/-- INTERNAL: a node is decoded as it was encoded. SRCLINE: utils.c:146-186 -/
theorem decodesEncoded (hb : b < 3000) : DecodesEncoded b := by
  rintro node s hfits ⟨k, hk, hnul⟩
  have hencode : wp (nodeToBlock node b) (fun _ s' => inodeOf (s'.disk b) = inodeOfNode node ∧
      s'.disk b (1 + k) = 0) (fun _ _ => False) s := by
    refine nodeToBlock_wp hb fun s' hin _ _ => ⟨?_, ?_⟩
    · rw [inodeOf_congr hin, inodeOf_nodeImage node _ hfits]
    · rw [hin _ (by omega), ← hnul]
      simp only [nodeImage, fileNameSize, pointersPerNode, Nat.zero_add, Nat.reduceAdd,
        Nat.reduceMul]
      repeat rw [memcpy_outside (by omega)]
      exact memcpy_inside hk
  obtain ⟨⟨⟩, s', hok, hinode, hnul'⟩ := exists_ok_of_wp hencode fun _ _ hf => hf
  have hdecode : wp (blockToNode b) (fun node' _ => SameFields node node')
      (fun _ _ => False) s' :=
    blockToNode_ok_wp hb hk hnul' fun node' _ _ hcopy =>
      sameFields_of_inode (hcopy.1.trans hinode)
  obtain ⟨node', s'', hok', hsame⟩ := exists_ok_of_wp hdecode fun _ _ hf => hf
  exact ⟨s', node', s'', hok, hok', hsame⟩

/-- INTERNAL: the encoding has the length of a block. SRCLINE: utils.c:146-161 -/
theorem fillsBlock (hb : b < 3000) : FillsBlock b := by
  intro node s t
  have hencode : ∀ u : SacState, wp (nodeToBlock node b) (fun _ u' =>
      (∀ i < 4096, u'.disk b i = nodeImage node (u.disk b) i) ∧
      (∀ i ≥ 4096, u'.disk b i = u.disk b i) ∧ ∀ c, c ≠ b → u'.disk c = u.disk c)
      (fun _ _ => False) u :=
    fun u => nodeToBlock_wp hb fun u' hin hout hother => ⟨hin, hout, hother⟩
  obtain ⟨⟨⟩, s', hok, hin, hout, hother⟩ := exists_ok_of_wp (hencode s) fun _ _ hf => hf
  obtain ⟨⟨⟩, t', hok', hin', -⟩ := exists_ok_of_wp (hencode t) fun _ _ hf => hf
  refine ⟨s', t', hok, hok', fun i hi => ?_, hout, hother⟩
  rw [hin i hi, hin' i hi, nodeImage_fills node _ _ hi]

/-- INTERNAL: a block is encoded as it was decoded. SRCLINE: utils.c:146-186 -/
theorem encodesDecoded (hb : b < 3000) : EncodesDecoded b := by
  rintro s k ⟨hk, hnul, hfirst⟩
  have hdecode : wp (blockToNode b) (fun node s' => s'.disk = s.disk ∧ CopyOf (s.disk b) node)
      (fun _ _ => False) s :=
    blockToNode_ok_wp hb hk hnul fun node s' hdisk hcopy => ⟨hdisk, hcopy⟩
  obtain ⟨node, s', hok, hdisk, hcopy⟩ := exists_ok_of_wp hdecode fun _ _ hf => hf
  obtain ⟨name, hname⟩ := hcopy.2
  have hlen := cstr_length hname hnul hfirst
  have hencode : wp (nodeToBlock node b) (fun _ s'' =>
      (∀ i < 4096, i ≤ 1 + k ∨ 71 < i → s''.disk b i = s.disk b i) ∧
      ∀ c, c ≠ b → s''.disk c = s.disk c) (fun _ _ => False) s' := by
    refine nodeToBlock_wp hb fun s'' hin _ hother => ⟨fun i hi hkept => ?_, fun c hc => ?_⟩
    · rw [hin i hi]
      exact hcopy.nodeImage hname (by omega) hi
    · rw [hother c hc, hdisk]
  obtain ⟨⟨⟩, s'', hok', hkept, hother⟩ := exists_ok_of_wp hencode fun _ _ hf => hf
  exact ⟨node, s', s'', hok, hok', hkept, hother⟩

/-- **The node codec**, in any block of the disk. SRCLINE: utils.c:88-99, utils.c:146-186 -/
theorem node_block_codec (hb : b < totalBlocks) :
    DecodesEncoded b ∧ FillsBlock b ∧ EncodesDecoded b :=
  ⟨decodesEncoded hb, fillsBlock hb, encodesDecoded hb⟩

/-- The statement for the block of the root directory. -/
theorem node_block_codec_root : 2 < totalBlocks ∧
    DecodesEncoded 2 ∧ FillsBlock 2 ∧ EncodesDecoded 2 :=
  ⟨by decide, node_block_codec (by decide)⟩

end Codec

end LinuseFs.Analysis
