import LinuseFs.Model.Node

/-!
# The disk as nodes, data blocks and used bits

The bytes of the disk, read at their types: each block of the node table as the node
`block_to_node` decodes from it (`Inode`, whose name is the C string of its name field),
each block of the data region as bytes, and the bitmap as the set of used blocks.  The
two metadata blocks are kept as bytes.

What a view forgets is what no function of the file system looks at: the bytes after the
NUL of a name field, which every write-back of a node fills with uninitialised memory.
`vwp` states a specification over views; its rules below make each primitive of the
model a transformer of views, and from here on no proof looks at bytes of the node table
again.
-/

set_option autoImplicit false

namespace LinuseFs.Interface

open LinuseFs.Computation LinuseFs.Model

/-- A node as the code sees it: the fields of `t_node` with the name as a C string. -/
structure Inode where
  state : UInt8
  name : Option (List UInt8)
  parentBlock : ℕ
  fileSize : ℕ
  creationDate : ℕ
  modificationDate : ℕ
  ptr : ℕ → ℕ

/-- The node encoded in the bytes of a block. -/
def inodeOf (b : Bytes) : Inode where
  state := b 0
  name := cstr b 1 71
  parentBlock := leNat b 72 4
  fileSize := leNat b 76 4
  creationDate := leNat b 80 8
  modificationDate := leNat b 88 8
  ptr := fun i => if i < 1000 then leNat b (96 + 4 * i) 4 else 0

/-- The fields of a node in memory. -/
def inodeOfNode (node : Node) : Inode where
  state := node.state
  name := cstr node.fileName 0 71
  parentBlock := node.parentBlock
  fileSize := node.fileSize
  creationDate := node.creationDate
  modificationDate := node.modificationDate
  ptr := node.indirectPointerBlock

/-- The fields are within their widths and there is no pointer past the array. -/
structure Inode.Fits (nd : Inode) : Prop where
  parentBlock : nd.parentBlock < 2 ^ 32
  fileSize : nd.fileSize < 2 ^ 32
  creationDate : nd.creationDate < 2 ^ 64
  modificationDate : nd.modificationDate < 2 ^ 64
  ptr : ∀ i, nd.ptr i < 2 ^ 32
  ptr_past : ∀ i, 1000 ≤ i → nd.ptr i = 0

/-- INTERNAL: a decoded node fits. SRCLINE: utils.c:163-186 -/
theorem inodeOf_fits (b : Bytes) : (inodeOf b).Fits where
  parentBlock := leNat_lt b 72 4
  fileSize := leNat_lt b 76 4
  creationDate := leNat_lt b 80 8
  modificationDate := leNat_lt b 88 8
  ptr := by
    intro i
    simp only [inodeOf]
    split
    · exact leNat_lt b _ 4
    · omega
  ptr_past := by
    intro i hi
    simp only [inodeOf]
    rw [if_neg (by omega)]

/-- INTERNAL: **decoding inverts encoding** on the fields of a node that fits.
SRCLINE: utils.c:146-186 -/
theorem inodeOf_nodeImage (node : Node) (bytes : Bytes) (h : (inodeOfNode node).Fits) :
    inodeOf (nodeImage node bytes) = inodeOfNode node := by
  have hfield : ∀ n w, n < 256 ^ w → n % 256 ^ w = n := fun n w => Nat.mod_eq_of_lt
  obtain ⟨h1, h2, h3, h4, h5, h6⟩ := h
  simp only [inodeOfNode] at h1 h2 h3 h4 h5 h6
  simp only [inodeOf, inodeOfNode, nodeImage, fileNameSize, pointersPerNode, Nat.zero_add,
    Nat.reduceAdd, Nat.reduceMul, Inode.mk.injEq]
  refine ⟨?_, ?_, ?_, ?_, ?_, ?_, ?_⟩
  · repeat rw [memcpy_outside (by omega)]
    exact memcpy_zero_inside (by omega)
  · repeat rw [cstr_memcpy_outside (by omega)]
    exact cstr_congr fun i hi => by rw [memcpy_inside hi, Nat.zero_add]
  · repeat rw [leNat_memcpy_outside (by omega)]
    rw [leNat_memcpy_leBytes, hfield _ _ h1]
  · repeat rw [leNat_memcpy_outside (by omega)]
    rw [leNat_memcpy_leBytes, hfield _ _ h2]
  · repeat rw [leNat_memcpy_outside (by omega)]
    rw [leNat_memcpy_leBytes, hfield _ _ h3]
  · repeat rw [leNat_memcpy_outside (by omega)]
    rw [leNat_memcpy_leBytes, hfield _ _ h4]
  · funext i
    split
    next hi =>
      rw [leNat_memcpy_inside (by omega)]
      have himage : leNat (pointersImage node.indirectPointerBlock) (4 * i) 4 =
          leNat (leBytes (node.indirectPointerBlock i)) 0 4 := by
        apply leNat_congr
        intro k hk
        simp only [pointersImage, Nat.zero_add]
        rw [show (4 * i + k) / 4 = i by omega, show (4 * i + k) % 4 = k by omega]
      rw [himage, leNat_leBytes, hfield _ _ (h5 i)]
    next hi => exact (h6 i (by omega)).symm

/-- The disk and the bitmap, at their types. -/
structure View where
  inode : ℕ → Inode
  data : ℕ → Bytes
  used : ℕ → Bool
  metadata : ℕ → Bytes

/-- The view of a state. -/
def viewOf (s : SacState) : View where
  inode := fun n => if n < 32 then inodeOf (s.disk (2 + n)) else inodeOf fun _ => 0
  data := fun b => if 34 ≤ b ∧ b < 3000 then s.disk b else fun _ => 0
  used := s.used
  metadata := fun b => if b < 2 then s.disk b else fun _ => 0

namespace View

variable (v : View)

/-- The view with the node of slot `n` replaced. -/
def setInode (n : ℕ) (nd : Inode) : View := { v with inode := Function.update v.inode n nd }

/-- The view with the contents of data block `b` replaced. -/
def setData (b : ℕ) (bytes : Bytes) : View := { v with data := Function.update v.data b bytes }

/-- The view with the used bit of block `b` replaced. -/
def setUsed (b : ℕ) (x : Bool) : View := { v with used := Function.update v.used b x }

open Classical in
/-- The view with the blocks of a set released. -/
noncomputable def released (F : Set ℕ) : View :=
  { v with used := fun b => decide (v.used b = true ∧ b ∉ F) }

variable {v}

@[simp] theorem setInode_same (n : ℕ) (nd : Inode) : (v.setInode n nd).inode n = nd := by
  simp [setInode]

theorem setInode_ne (nd : Inode) {n m : ℕ} (h : m ≠ n) :
    (v.setInode n nd).inode m = v.inode m := by simp [setInode, h]

@[simp] theorem setInode_data (n : ℕ) (nd : Inode) : (v.setInode n nd).data = v.data := rfl

@[simp] theorem setInode_used (n : ℕ) (nd : Inode) : (v.setInode n nd).used = v.used := rfl

@[simp] theorem setData_inode (b : ℕ) (bytes : Bytes) :
    (v.setData b bytes).inode = v.inode := rfl

@[simp] theorem setData_used (b : ℕ) (bytes : Bytes) :
    (v.setData b bytes).used = v.used := rfl

@[simp] theorem setData_same (b : ℕ) (bytes : Bytes) : (v.setData b bytes).data b = bytes := by
  simp [setData]

theorem setData_ne (bytes : Bytes) {b c : ℕ} (h : c ≠ b) :
    (v.setData b bytes).data c = v.data c := by simp [setData, h]

@[simp] theorem setUsed_inode (b : ℕ) (x : Bool) : (v.setUsed b x).inode = v.inode := rfl

@[simp] theorem setUsed_data (b : ℕ) (x : Bool) : (v.setUsed b x).data = v.data := rfl

@[simp] theorem setUsed_same (b : ℕ) (x : Bool) : (v.setUsed b x).used b = x := by
  simp [setUsed]

theorem setUsed_ne (x : Bool) {b c : ℕ} (h : c ≠ b) :
    (v.setUsed b x).used c = v.used c := by simp [setUsed, h]

theorem used_setUsed_true {b c : ℕ} (h : v.used c = true) : (v.setUsed b true).used c = true := by
  by_cases hc : c = b
  · rw [hc, setUsed_same]
  · rw [setUsed_ne true hc, h]

theorem used_of_setUsed {b c : ℕ} (h : (v.setUsed b true).used c = false) : v.used c = false := by
  by_contra hne
  rw [used_setUsed_true (Bool.eq_true_of_not_eq_false hne)] at h
  cases h

theorem freeCount_setUsed (v : View) (b lo hi : ℕ) :
    freeCount v.used lo hi ≤ freeCount (v.setUsed b true).used lo hi + 1 :=
  freeCount_le_succ fun c hc hfree => by rw [setUsed_ne _ hc]; exact hfree

/-- INTERNAL: taking a free number of the range lowers the count by one. -/
theorem freeCount_setUsed_free {b lo hi : ℕ} (hb : lo ≤ b) (hb' : b < hi) (hfree : v.used b = false) :
    freeCount (v.setUsed b true).used lo hi + 1 = freeCount v.used lo hi := by
  have hless := freeCount_lt_of_taken hb hb' hfree (setUsed_same ..) fun _ => used_of_setUsed (b := b)
  have hone := v.freeCount_setUsed b lo hi
  omega

@[simp] theorem setInode_metadata (n : ℕ) (nd : Inode) :
    (v.setInode n nd).metadata = v.metadata := rfl

@[simp] theorem setData_metadata (b : ℕ) (bytes : Bytes) :
    (v.setData b bytes).metadata = v.metadata := rfl

@[simp] theorem setUsed_metadata (b : ℕ) (x : Bool) :
    (v.setUsed b x).metadata = v.metadata := rfl

@[simp] theorem setInode_setInode (n : ℕ) (nd nd' : Inode) :
    (v.setInode n nd).setInode n nd' = v.setInode n nd' := by
  simp [setInode]

@[simp] theorem setInode_self (n : ℕ) : v.setInode n (v.inode n) = v := by
  simp [setInode]

theorem setUsed_self {b : ℕ} {x : Bool} (h : v.used b = x) : v.setUsed b x = v := by
  subst h
  simp [setUsed]

theorem setInode_setData (n b : ℕ) (nd : Inode) (bytes : Bytes) :
    (v.setInode n nd).setData b bytes = (v.setData b bytes).setInode n nd := rfl

theorem setInode_setUsed (n b : ℕ) (nd : Inode) (x : Bool) :
    (v.setInode n nd).setUsed b x = (v.setUsed b x).setInode n nd := rfl

theorem setInode_released (n : ℕ) (nd : Inode) (F : Set ℕ) :
    (v.setInode n nd).released F = (v.released F).setInode n nd := rfl

@[simp] theorem released_inode (F : Set ℕ) : (v.released F).inode = v.inode := rfl

@[simp] theorem released_data (F : Set ℕ) : (v.released F).data = v.data := rfl

@[simp] theorem released_metadata (F : Set ℕ) : (v.released F).metadata = v.metadata := rfl

theorem released_used (F : Set ℕ) (b : ℕ) :
    (v.released F).used b = true ↔ v.used b = true ∧ b ∉ F := by
  simp [released]

theorem released_empty : v.released ∅ = v := by
  simp [released]

theorem released_released (F G : Set ℕ) : (v.released F).released G = v.released (F ∪ G) := by
  unfold released
  congr 1
  funext b
  simp [and_assoc]

theorem setUsed_false (b : ℕ) : v.setUsed b false = v.released {b} := by
  unfold setUsed released
  congr 1
  funext c
  by_cases hc : c = b
  · subst hc; simp
  · simp [hc]

end View

theorem viewOf_inode {s : SacState} {n : ℕ} (h : n < 32) :
    (viewOf s).inode n = inodeOf (s.disk (2 + n)) := by simp [viewOf, h]

theorem viewOf_data {s : SacState} {b : ℕ} (h : 34 ≤ b) (h' : b < 3000) :
    (viewOf s).data b = s.disk b := by simp [viewOf, h, h']

@[simp] theorem viewOf_used (s : SacState) : (viewOf s).used = s.used := rfl

/-- INTERNAL: every node of a view fits. -/
theorem viewOf_fits (s : SacState) (n : ℕ) : ((viewOf s).inode n).Fits := by
  simp only [viewOf]
  split <;> exact inodeOf_fits _

/-- INTERNAL: writing a block of the node table replaces the node of its slot. -/
theorem viewOf_setBlock_node (s : SacState) (bytes : Bytes) {n : ℕ} (hn : n < 32) :
    viewOf (s.setBlock (2 + n) bytes) = (viewOf s).setInode n (inodeOf bytes) := by
  simp only [viewOf, View.setInode, View.mk.injEq]
  refine ⟨?_, ?_, rfl, ?_⟩
  · funext m
    by_cases hm : m = n
    · subst hm; simp [hn]
    · rw [Function.update_of_ne hm, setBlock_ne s bytes (by omega)]
  · funext b
    split
    next hb => rw [setBlock_ne s bytes (by omega)]
    next hb => rfl
  · funext b
    split
    next hb => rw [setBlock_ne s bytes (by omega)]
    next hb => rfl

/-- INTERNAL: writing a block of the data region replaces its contents. -/
theorem viewOf_setBlock_data (s : SacState) (bytes : Bytes) {b : ℕ} (hb : 34 ≤ b)
    (hb' : b < 3000) : viewOf (s.setBlock b bytes) = (viewOf s).setData b bytes := by
  simp only [viewOf, View.setData, View.mk.injEq]
  refine ⟨?_, ?_, rfl, ?_⟩
  · funext m
    split
    next hm => rw [setBlock_ne s bytes (by omega)]
    next hm => rfl
  · funext c
    by_cases hc : c = b
    · subst hc; simp [hb, hb']
    · rw [Function.update_of_ne hc, setBlock_ne s bytes hc]
  · funext c
    split
    next hc => rw [setBlock_ne s bytes (by omega)]
    next hc => rfl

theorem viewOf_take (s : SacState) (b : ℕ) : viewOf (s.take b) = (viewOf s).setUsed b true := by
  simp only [viewOf, View.setUsed, View.mk.injEq, take_disk, true_and, and_true]
  funext c
  rw [take_used, Function.update_apply]
  split <;> simp_all

theorem viewOf_release (s : SacState) (b : ℕ) :
    viewOf (s.release b) = (viewOf s).setUsed b false := by
  simp only [viewOf, View.setUsed, View.mk.injEq, release_disk, true_and, and_true]
  funext c
  rw [release_used, Function.update_apply]
  split <;> simp_all

@[simp] theorem viewOf_env (s : SacState) (e : Env) : viewOf { s with env := e } = viewOf s := rfl

/-! ## Specifications over views -/

/-- The function `x`, started in any state with view `v`, returns with `Q` or stops with
`E`, both read on the view it leaves. -/
def vwp {α : Type} (x : Sac α) (Q : α → View → Prop) (E : Fault → View → Prop) (v : View) :
    Prop :=
  ∀ s, viewOf s = v → wp x (fun a s' => Q a (viewOf s')) (fun e s' => E e (viewOf s')) s

section Rules

variable {α β : Type} {x : Sac α} {Q : α → View → Prop} {E : Fault → View → Prop} {v : View}

theorem vwp_pure {a : α} (h : Q a v) : vwp (pure a) Q E v := by
  rintro s rfl
  exact h

theorem vwp_throw {e : Fault} (h : E e v) : vwp (throw e : Sac α) Q E v := by
  rintro s rfl
  exact h

/-- INTERNAL: sequencing, with the rest run from the view the first statement leaves. -/
theorem vwp_bind {f : α → Sac β} {Q : β → View → Prop}
    (h : vwp x (fun a v' => vwp (f a) Q E v') E v) : vwp (x >>= f) Q E v := by
  intro s hs
  rw [wp_bind]
  exact wp_mono (h s hs) (fun _ s' ha => ha s' rfl) (fun _ _ he => he)

theorem vwp_mono {Q' : α → View → Prop} {E' : Fault → View → Prop} (h : vwp x Q E v)
    (hQ : ∀ a v', Q a v' → Q' a v') (hE : ∀ e v', E e v' → E' e v') : vwp x Q' E' v :=
  fun s hs => wp_mono (h s hs) (fun a _ => hQ a _) (fun e _ => hE e _)

/-- INTERNAL: **the step rule** over views. -/
theorem vwp_bind_of {f : α → Sac β} {Q : β → View → Prop} {R : α → View → Prop}
    {E' : Fault → View → Prop} (hx : vwp x R E' v) (hE : ∀ e v', E' e v' → E e v')
    (hf : ∀ a v', R a v' → vwp (f a) Q E v') : vwp (x >>= f) Q E v :=
  vwp_bind (vwp_mono hx hf hE)

theorem vwp_malloc {Q : Bytes → View → Prop} (h : ∀ bytes, Q bytes v) : vwp malloc Q E v := by
  rintro s rfl
  exact malloc_wp fun bytes e' => h bytes

theorem vwp_time {Q : ℕ → View → Prop} (h : ∀ t < 2 ^ 64, Q t v) : vwp time Q E v := by
  rintro s rfl
  exact time_wp fun t e' ht => h t ht

theorem vwp_load {Q : Bytes → View → Prop} {b pos len : ℕ} (hb : 34 ≤ b) (hb' : b < 3000)
    (hp : pos + len ≤ 4096) (h : Q (fun i => v.data b (pos + i)) v) :
    vwp (load b pos len) Q E v := by
  rintro s rfl
  apply load_wp hb' hp
  rw [viewOf_data hb hb'] at h
  exact h

theorem vwp_store {Q : Unit → View → Prop} {b pos len : ℕ} {src : Bytes} (hb : 34 ≤ b)
    (hb' : b < 3000) (hp : pos + len ≤ 4096)
    (h : Q () (v.setData b (memcpy (v.data b) pos src len))) :
    vwp (store b pos src len) Q E v := by
  rintro s rfl
  apply store_wp hb' hp
  rw [viewOf_setBlock_data s _ hb hb', ← viewOf_data hb hb']
  exact h

theorem vwp_bytesToInt32 {Q : ℕ → View → Prop} {b pos : ℕ} (hb : 34 ≤ b) (hb' : b < 3000)
    (hp : pos + 4 ≤ 4096) (h : Q (leNat (v.data b) pos 4) v) :
    vwp (bytesToInt32 b pos) Q E v := by
  rintro s rfl
  apply bytesToInt32_wp hb' hp
  rw [viewOf_data hb hb'] at h
  exact h

theorem vwp_bitarrayCleanBit {Q : Unit → View → Prop} {n : ℕ} (hn : n < 3000)
    (h : Q () (v.setUsed n false)) : vwp (bitarrayCleanBit n) Q E v := by
  rintro s rfl
  apply bitarrayCleanBit_wp hn
  rw [viewOf_release]
  exact h

theorem vwp_getFreeNodeBlock {Q : ℕ → View → Prop}
    (hQ : ∀ n, n < 32 → v.used (2 + n) = false →
      (∀ m < n, v.used (2 + m) = true) → Q (2 + n) (v.setUsed (2 + n) true))
    (hE : ∀ e, e.IsAlloc → freeCount v.used 2 34 = 0 → E e v) :
    vwp getFreeNodeBlock Q E v := by
  rintro s rfl
  refine getFreeNodeBlock_wp (fun b h1 h2 h3 h4 => ?_) hE
  rw [viewOf_take]
  have := hQ (b - 2) (by omega)
  rw [show 2 + (b - 2) = b by omega] at this
  exact this h3 fun m hm => h4 _ (by omega) (by omega)

theorem vwp_getFreeDataBlock {Q : ℕ → View → Prop}
    (hQ : ∀ b, 34 ≤ b → b < 3000 → v.used b = false →
      (∀ j, 34 ≤ j → j < b → v.used j = true) → Q b (v.setUsed b true))
    (hE : ∀ e, e.IsAlloc → freeCount v.used 34 3000 = 0 → E e v) :
    vwp getFreeDataBlock Q E v := by
  rintro s rfl
  refine getFreeDataBlock_wp (fun b h1 h2 h3 h4 => ?_) hE
  rw [viewOf_take]
  exact hQ b h1 h2 h3 h4

/-- INTERNAL: a created node has the fields it was given. SRCLINE: utils.c:88-99 -/
theorem vwp_createNode {Q : Node → View → Prop} {state : UInt8} {name : List UInt8}
    {parentBlock fileSize creationDate modificationDate : ℕ} {ptr : ℕ → ℕ}
    (hname : name.length < 71) (hnul : (0 : UInt8) ∉ name)
    (h : ∀ node, inodeOfNode node =
      ⟨state, some name, parentBlock, fileSize, creationDate, modificationDate, ptr⟩ →
      Q node v) :
    vwp (createNode state name parentBlock fileSize creationDate modificationDate ptr) Q E v := by
  refine vwp_bind (vwp_malloc fun fresh => ?_)
  rw [if_pos hname]
  apply vwp_pure
  apply h
  simp only [inodeOfNode, Inode.mk.injEq, and_self, and_true, true_and]
  exact cstr_memcpy_ofList fresh 0 71 _ hnul hname (by omega)

/-- INTERNAL: **reading a node** gives a private copy with its fields, and leaves the
view. SRCLINE: utils.c:163-186 -/
theorem vwp_blockToNode {Q : Node → View → Prop} {n : ℕ} (hn : n < 32)
    (hname : (v.inode n).name.isSome) (h : ∀ node, inodeOfNode node = v.inode n → Q node v) :
    vwp (blockToNode (2 + n)) Q E v := by
  rintro s rfl
  obtain ⟨name, hname⟩ := Option.isSome_iff_exists.mp hname
  have hbytes : (fun i => s.disk (2 + n) (0 + i)) = s.disk (2 + n) := by
    funext i; rw [Nat.zero_add]
  rw [viewOf_inode hn] at hname h
  simp only [blockToNode, wp_bind]
  apply load_wp (by omega) (by decide)
  rw [hbytes]
  have hcstr : cstr (s.disk (2 + n)) 1 71 = some name := hname
  simp only [Nat.zero_add, Nat.reduceAdd, fileNameSize, hcstr]
  have hlen := (cstr_eq_some_iff.mp hcstr)
  refine vwp_createNode hlen.1 hlen.2.2.2 (fun node hnode => h node ?_) s rfl
  rw [hnode]
  simp only [inodeOf, hcstr, pointersPerNode]

/-- INTERNAL: `read_node` of a slot of the node table. SRCLINE: node.c:16-21 -/
theorem vwp_readNode {Q : Node × ℕ → View → Prop} {n : ℕ} (hn : n < 32)
    (hname : (v.inode n).name.isSome)
    (h : ∀ node, inodeOfNode node = v.inode n → Q (node, 2 + n) v) :
    vwp (readNode n) Q E v := by
  have hblock : readBlock (getBlockNumFromNodeNum n) = 2 + n := by
    rw [readBlock_of_lt] <;> simp only [getBlockNumFromNodeNum, nodeTableInitialBlock_eq]
    omega
  simp only [readNode, hblock]
  exact vwp_bind (vwp_blockToNode hn hname fun node hnode => vwp_pure (h node hnode))

/-- INTERNAL: **writing a node back** replaces the node of its slot.
SRCLINE: node.c:47-51, utils.c:146-161 -/
theorem vwp_nodeToBlock {Q : Unit → View → Prop} {node : Node} {n : ℕ} (hn : n < 32)
    (hfits : (inodeOfNode node).Fits) (h : Q () (v.setInode n (inodeOfNode node))) :
    vwp (nodeToBlock node (2 + n)) Q E v := by
  rintro s rfl
  simp only [nodeToBlock, wp_bind]
  apply load_wp (by omega) (by decide)
  apply store_wp (by omega) (by decide)
  rw [viewOf_setBlock_node s _ hn]
  have himage : inodeOf (memcpy (s.disk (2 + n)) 0
      (nodeImage node fun i => s.disk (2 + n) (0 + i)) blockSize) =
      inodeOf (nodeImage node fun i => s.disk (2 + n) (0 + i)) := by
    have hinside : ∀ i < 4096, memcpy (s.disk (2 + n)) 0
        (nodeImage node fun i => s.disk (2 + n) (0 + i)) blockSize i =
        nodeImage node (fun i => s.disk (2 + n) (0 + i)) i :=
      fun i hi => memcpy_zero_inside hi
    simp only [inodeOf, Inode.mk.injEq]
    refine ⟨hinside 0 (by omega), cstr_congr fun i hi => hinside _ (by omega),
      leNat_congr fun i hi => hinside _ (by omega), leNat_congr fun i hi => hinside _ (by omega),
      leNat_congr fun i hi => hinside _ (by omega), leNat_congr fun i hi => hinside _ (by omega),
      ?_⟩
    funext i
    split
    · exact leNat_congr fun k hk => hinside _ (by omega)
    · rfl
  rw [himage, inodeOf_nodeImage _ _ hfits]
  exact h

theorem vwp_unmapAndDestroyNode {Q : Unit → View → Prop} {node : Node} {n : ℕ} (hn : n < 32)
    (hfits : (inodeOfNode node).Fits) (h : Q () (v.setInode n (inodeOfNode node))) :
    vwp (unmapAndDestroyNode node (2 + n)) Q E v :=
  vwp_nodeToBlock hn hfits h

/-- INTERNAL: nothing is known of a computation. -/
theorem vwp_anything {α : Type} (x : Sac α) : vwp x (fun _ _ => True) (fun _ _ => True) v := by
  intro s _
  unfold wp
  split <;> trivial

/-- INTERNAL: a store into any block of the disk. -/
theorem vwp_store_anywhere {Q : Unit → View → Prop} {block pos len : ℕ} {src : Bytes}
    (hQ : ∀ w, block < 3000 → w.used = v.used →
      (∀ c, 34 ≤ c → c < 3000 → w.data c =
        if c = block then memcpy (v.data c) pos src len else v.data c) → Q () w) :
    vwp (store block pos src len) Q (fun _ _ => True) v := by
  rintro s rfl
  simp only [store, wp_bind, wp_get]
  split
  next hin =>
    rw [wp_set]
    refine hQ _ hin.1 rfl fun c hc hc' => ?_
    rw [viewOf_data hc hc', viewOf_data hc hc']
    by_cases hblock : c = block
    · rw [hblock, if_pos rfl, setBlock_same]
    · rw [if_neg hblock, setBlock_ne s _ hblock]
  next => trivial

theorem vwp_load_anywhere {Q : Bytes → View → Prop} {block pos len : ℕ}
    (hQ : ∀ bytes, (34 ≤ block → ∀ i, bytes i = v.data block (pos + i)) → block < 3000 →
      Q bytes v) : vwp (load block pos len) Q (fun _ _ => True) v := by
  rintro s rfl
  simp only [load, wp_bind, wp_get]
  split
  next hin =>
    refine hQ _ (fun hblock i => ?_) hin.1
    rw [viewOf_data hblock hin.1]
  next => trivial

end Rules

end LinuseFs.Interface
