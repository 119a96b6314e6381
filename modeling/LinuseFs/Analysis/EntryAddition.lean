import LinuseFs.Analysis.DirectoryIteration
import LinuseFs.Analysis.DirectoryUpdate
import LinuseFs.Analysis.RenameEffect

/-!
# When adding an entry appends one record

`read_next_data_block` allocates a data block only together with a pointer block.  The record that
should start a new data block under a pointer block that is there goes to whatever block the old
bytes of the next slot name.
-/

set_option autoImplicit false

namespace LinuseFs.Analysis

open LinuseFs.Computation LinuseFs.Model LinuseFs.Interface

/-- The block is one of those that hold the `n` records. -/
def OwnBlock (v : View) (nd : Inode) (n c : ℕ) : Prop :=
  ∃ k, 32 * k < n ∧ (c = nd.ptr (k / 1024) ∨ c = v.dataBlock nd k)

/-- The `n` records of the directory `d` lie in used blocks, a data block for each 32 of them, and
no other node holds one of these. -/
structure OwnDirectory (v : View) (d : ℕ) (nd : Inode) (n : ℕ) : Prop
    extends RecordBlocks v nd n where
  used : ∀ c, OwnBlock v nd n c → v.used c = true
  inj : ∀ j k, 32 * j < n → 32 * k < n → v.dataBlock nd j = v.dataBlock nd k → j = k
  ptr_ne : ∀ j k, 32 * j < n → 32 * k < n → nd.ptr (j / 1024) ≠ v.dataBlock nd k
  others : ∀ m r, m ≠ d → v.held m r → v.InData (v.place m r) ∧ ¬ OwnBlock v nd n (v.place m r)
  others_ptr : ∀ m k, m ≠ d → v.held m (.data k) → v.held m (.ptr (k / 1024))

/-- From `s` to `s'` the directory `d` went from `n` records to `n + 1`: the old ones are as they
were, byte for byte, and the new one follows; each block that holds a record is used and is no
other node's; only own and newly allocated blocks changed. -/
structure OneMore (s s' : SacState) (d : ℕ) (nd nd' : Inode) (name : List UInt8) (nodeNum n : ℕ) :
    Prop where
  size : nd'.fileSize = 128 * (n + 1)
  old : ∀ i < n, ∀ t < 128,
    (viewOf s').data ((viewOf s').dataBlock nd' (i / 32)) (i % 32 * 128 + t) =
      (viewOf s).data ((viewOf s).dataBlock nd (i / 32)) (i % 32 * 128 + t)
  new : recordAt (viewOf s') nd' n = (name, nodeNum)
  own : ∀ c, OwnBlock (viewOf s') nd' (n + 1) c → (viewOf s').InData c ∧
    ∀ m r, m ≠ d → (viewOf s').held m r → (viewOf s').place m r ≠ c
  frame : ∀ c, s'.disk c ≠ s.disk c →
    OwnBlock (viewOf s) nd n c ∨ (s.used c = false ∧ s'.used c = true)

/-- `add_directory_entry` appends one record, whatever the uninitialised memory holds. -/
def AppendsRecord (s : SacState) (d : ℕ) (node : Node) (name : List UInt8) (nodeNum n : ℕ) : Prop :=
  ∀ env : Env, ∃ node' s',
    addDirectoryEntry node name nodeNum { s with env := env } = .ok node' s' ∧
      OneMore s s' d (inodeOfNode node) (inodeOfNode node') name nodeNum n

/-! ## The bytes of the new record -/

section Written

variable {old bytes : Bytes} {pos n : ℕ}

/-- The block with the record of the node `n` at byte `pos`. -/
def withRecord (old : Bytes) (pos n : ℕ) (bytes : Bytes) : Bytes :=
  memcpy (memcpy old pos (leBytes n) 4) (pos + 4) bytes 124

theorem withRecord_outside {i : ℕ} (h : i < pos ∨ pos + 128 ≤ i) :
    withRecord old pos n bytes i = old i := by
  rw [withRecord, memcpy_outside (by omega), memcpy_outside (by omega)]

theorem withRecord_name {t : ℕ} (h : t < 124) :
    withRecord old pos n bytes (pos + 4 + t) = bytes t := by
  rw [withRecord, memcpy_inside h]

theorem leNat_withRecord (hn : n < 2 ^ 32) : leNat (withRecord old pos n bytes) pos 4 = n := by
  rw [withRecord, leNat_memcpy_outside (by omega), leNat_memcpy_leBytes, Nat.mod_eq_of_lt (by omega)]

/-- INTERNAL: behind the name and its NUL the local array is uninitialised. SRCLINE:
directory.c:42-43 -/
theorem entryName_behind {stack : Bytes} {name : List UInt8} {t : ℕ} (h : name.length < t) :
    entryName stack name t = stack t := by
  rw [entryName, memcpy_outside (by omega)]

theorem cstr_withRecord (stack : Bytes) {name : List UInt8} (hnul : (0 : UInt8) ∉ name)
    (hlen : name.length < 124) :
    cstr (withRecord old pos n (entryName stack name)) (pos + 4) 124 = some name := by
  have hname : cstr (entryName stack name) 0 124 = some name :=
    cstr_memcpy_ofList stack 0 124 _ hnul hlen (by omega)
  rw [← hname]
  exact cstr_congr fun t ht => by rw [withRecord_name ht, Nat.zero_add]

end Written

/-! ## The two ways to the data block -/

section Runs

variable {s : SacState} {node : Node} {name : List UInt8} {nodeNum n : ℕ}

/-- The block that the slot for the next record names, when its pointer block is there. -/
def nextBlock (s : SacState) (node : Node) (n : ℕ) : ℕ :=
  readBlock (leNat (s.disk (readBlock (node.indirectPointerBlock (n / 32768))))
    (n / 32 % 1024 * 4) 4)

theorem pointerAt_wp {Q : ℕ → SacState → Prop} {E : Fault → SacState → Prop} {i : ℕ}
    (hi : i < 1000) (hQ : Q (node.indirectPointerBlock i) s) : wp (node.pointerAt i) Q E s := by
  unfold Node.pointerAt
  rw [if_pos (by simpa [pointersPerNode] using hi)]
  exact hQ

/-- INTERNAL: the two stores of `add_directory_entry`. SRCLINE: directory.c:50-51 -/
theorem storeRecord_wp {α : Type} {Q : α → SacState → Prop} {E : Fault → SacState → Prop} {b pos : ℕ}
    {bytes : Bytes} {rest : Sac α} (hb : b < 3000) (hpos : pos + 128 ≤ 4096)
    (hrest : wp rest Q E (s.setBlock b (withRecord (s.disk b) pos nodeNum bytes))) :
    wp (do
      store b pos (leBytes nodeNum) 4
      store b (pos + 4) bytes 124
      rest) Q E s := by
  rw [wp_bind]
  apply store_wp hb (by omega)
  rw [wp_bind]
  apply store_wp hb (by omega)
  have hdisk : ∀ d₁ d₂ : Bytes, (s.setBlock b d₁).setBlock b d₂ = s.setBlock b d₂ := by
    intro d₁ d₂
    simp only [SacState.setBlock, Function.update_idem]
  rw [hdisk, setBlock_same]
  exact hrest

theorem storeRecord_fault {α : Type} {Q : α → SacState → Prop} {E : Fault → SacState → Prop}
    {b pos : ℕ} {bytes : Bytes} {rest : Sac α} (hb : ¬ b < 3000) (hE : E .memory s) :
    wp (do
      store b pos (leBytes nodeNum) 4
      store b (pos + 4) bytes 124
      rest) Q E s := by
  rw [wp_bind]
  exact store_fault_wp (fun h => hb h.1) hE

/-- INTERNAL: **with a pointer block the record goes to the block that the slot names.** SRCLINE:
directory.c:40-56, directory.c:203-210 -/
theorem addDirectoryEntry_existing {Q : Node → SacState → Prop} {E : Fault → SacState → Prop}
    (hsize : node.fileSize = 128 * n) (hlen : name.length < 124) (hlast : n / 32768 < 1000)
    (hptr : node.indirectPointerBlock (n / 32768) ≠ 0)
    (hQ : readBlock (node.indirectPointerBlock (n / 32768)) < 3000 → nextBlock s node n < 3000 →
      ∀ e', Q { node with fileSize := u32 (node.fileSize + 128) }
        (({ s with env := e' } : SacState).setBlock (nextBlock s node n)
          (withRecord (s.disk (nextBlock s node n)) (128 * (n % 32)) nodeNum
            (entryName (s.env.heap s.env.taken) name))))
    (hE : ¬ (readBlock (node.indirectPointerBlock (n / 32768)) < 3000 ∧ nextBlock s node n < 3000) →
      ∀ e s', E e s') :
    wp (addDirectoryEntry node name nodeNum) Q E s := by
  have hslot : n / 32 % 1024 * 4 + 4 ≤ 4096 := by omega
  have hpos : 128 * (n % 32) + 128 ≤ 4096 := by omega
  unfold addDirectoryEntry
  rw [wp_bind]
  show wp _ Q E { s with env := { s.env with taken := s.env.taken + 1 } }
  generalize ({ s.env with taken := s.env.taken + 1 } : Env) = env
  rw [if_pos hlen, getNextWritePosition_eq hsize]
  unfold readNextDataBlock
  rw [wp_bind, wp_bind]
  refine pointerAt_wp hlast ?_
  rw [if_neg (show ¬ node.indirectPointerBlock (endPosition n).pointerBlockNum = 0 from hptr), wp_bind]
  by_cases hp : readBlock (node.indirectPointerBlock (n / 32768)) < 3000
  swap
  · simp only [bytesToInt32, wp_bind]
    exact load_fault_wp (fun h => hp h.1) (hE (fun h => hp h.1) _ _)
  apply bytesToInt32_wp hp hslot
  rw [wp_pure]
  by_cases hb : nextBlock s node n < 3000
  · exact storeRecord_wp hb hpos
      (hQ hp hb env)
  · exact storeRecord_fault (b := nextBlock s node n) hb (hE (fun h => hb h.2) _ _)

theorem createPointersBlockInNode_wp {Q : ℕ × Node → SacState → Prop} {E : Fault → SacState → Prop}
    {i : ℕ} (hi : i < 1000) (hfree : freeCount s.used 34 3000 ≠ 0)
    (hQ : ∀ y, 34 ≤ y → y < 3000 → s.used y = false →
      Q (y, { node with indirectPointerBlock := Function.update node.indirectPointerBlock i y })
        (s.take y)) :
    wp (createPointersBlockInNode node i) Q E s := by
  rw [createPointersBlockInNode, wp_bind]
  refine getFreeDataBlock_wp (fun y hy hy' hyfree _ => ?_) fun e _ hzero => absurd hzero hfree
  rw [wp_bind]
  unfold Node.setPointer
  rw [if_pos (by simpa [pointersPerNode] using hi)]
  exact hQ y hy hy' hyfree

theorem createDataBlockInPointerBlock_wp {Q : ℕ → SacState → Prop} {E : Fault → SacState → Prop}
    {i j p : ℕ} (hi : i < 1000) (hj : j < 1024) (hptr : node.indirectPointerBlock i = p)
    (hp : p < 3000) (hfree : freeCount s.used 34 3000 ≠ 0)
    (hQ : ∀ x, 34 ≤ x → x < 3000 → s.used x = false →
      Q x ((s.take x).setBlock p (memcpy (s.disk p) (j * 4) (leBytes x) 4))) :
    wp (createDataBlockInPointerBlock node i j) Q E s := by
  rw [createDataBlockInPointerBlock, wp_bind]
  refine getFreeDataBlock_wp (fun x hx hx' hxfree _ => ?_) fun e _ hzero => absurd hzero hfree
  rw [wp_bind]
  apply pointerAt_wp hi
  dsimp only
  rw [hptr, readBlock_of_lt hp, wp_bind]
  exact store_wp hp (by omega) (hQ x hx hx' hxfree)

/-- INTERNAL: **without a pointer block both blocks are allocated.** SRCLINE: directory.c:40-56,
directory.c:197-202, node.c:53-78 -/
theorem addDirectoryEntry_allocating {Q : Node → SacState → Prop} {E : Fault → SacState → Prop}
    (hsize : node.fileSize = 128 * n) (hlen : name.length < 124) (hlast : n / 32768 < 1000)
    (hptr : node.indirectPointerBlock (n / 32768) = 0) (hfree : 2 ≤ freeCount s.used 34 3000)
    (hQ : ∀ x y e' bytes, 34 ≤ x → x < 3000 → 34 ≤ y → y < 3000 → x ≠ y →
      s.used x = false → s.used y = false →
      Q { node with
          fileSize := u32 (node.fileSize + 128)
          indirectPointerBlock := Function.update node.indirectPointerBlock (n / 32768) y }
        ((((({ s with env := e' } : SacState).take y).take x).setBlock y
          (memcpy (s.disk y) (n / 32 % 1024 * 4) (leBytes x) 4)).setBlock x
          (withRecord (s.disk x) (128 * (n % 32)) nodeNum (entryName bytes name)))) :
    wp (addDirectoryEntry node name nodeNum) Q E s := by
  unfold addDirectoryEntry
  rw [wp_bind]
  apply malloc_wp
  intro stack env
  rw [if_pos hlen, getNextWritePosition_eq hsize]
  unfold readNextDataBlock
  rw [wp_bind, wp_bind]
  refine pointerAt_wp hlast ?_
  rw [if_pos (show node.indirectPointerBlock (endPosition n).pointerBlockNum = 0 from hptr), wp_bind]
  refine createPointersBlockInNode_wp hlast (by show freeCount s.used 34 3000 ≠ 0; omega)
    fun y hy hy' hyfree => ?_
  have hfree' : freeCount (({ s with env := env } : SacState).take y).used 34 3000 ≠ 0 := by
    have hstep : freeCount s.used 34 3000 ≤
        freeCount (({ s with env := env } : SacState).take y).used 34 3000 + 1 := by
      apply freeCount_le_succ (x := y)
      intro b hb hbfree
      rw [take_used, decide_eq_false hb, Bool.false_or]
      exact hbfree
    omega
  rw [wp_bind]
  refine createDataBlockInPointerBlock_wp hlast (Nat.mod_lt _ (by decide))
    (Function.update_self ..) hy' hfree' fun x hx hx' hxfree => ?_
  have hxy : x ≠ y := by
    rintro rfl
    rw [take_used, decide_eq_true rfl, Bool.true_or] at hxfree
    cases hxfree
  rw [take_used, decide_eq_false hxy, Bool.false_or] at hxfree
  rw [readBlock_of_lt hx']
  apply storeRecord_wp hx' (show 128 * (n % 32) + 128 ≤ 4096 by omega)
  rw [wp_pure, setBlock_ne _ _ hxy]
  exact hQ x y env stack hx hx' hy hy' hxy hxfree hyfree

end Runs

/-! ## When one record is appended -/

section Appends

variable {v w : View} {s : SacState} {d n nodeNum : ℕ} {nd : Inode} {node : Node}
  {name : List UInt8}

theorem OwnDirectory.inRange (h : OwnDirectory v d nd n) {c : ℕ} (hc : OwnBlock v nd n c) :
    34 ≤ c ∧ c < 3000 := by
  obtain ⟨k, hk, rfl | rfl⟩ := hc
  · exact h.ptr k hk
  · exact h.block k hk

/-- INTERNAL: the size with one more record. SRCLINE: directory.c:55 -/
theorem OwnDirectory.grown_size (h : OwnDirectory v d nd n) :
    u32 ((nd.fileSize : ℤ) + 128) = 128 * (n + 1) := by
  have hle := h.toRecordBlocks.records_le h.inj
  rw [h.size, show ((128 * n : ℕ) : ℤ) + 128 = ((128 * (n + 1) : ℕ) : ℤ) by omega,
    u32_natCast_of_lt (by omega)]

/-- INTERNAL: the other nodes hold what they held, when only own blocks and unused ones change. -/
theorem OwnDirectory.place_ne (h : OwnDirectory v d nd n) (touched : ℕ → Prop)
    (htouched : ∀ c, touched c → OwnBlock v nd n c ∨ ¬ v.InData c) (hinode : w.inode = v.inode)
    (hlow : ∀ b < 34, w.used b = v.used b) (hdata : ∀ c, ¬ touched c → w.data c = v.data c)
    {m : ℕ} {r : Ref} (hm : m ≠ d) (hr : w.held m r) :
    v.held m r ∧ w.place m r = v.place m r := by
  have hlive : ∀ {r : Ref}, w.held m r → v.held m r := by
    rintro r ⟨⟨hlt, hused⟩, hr⟩
    rw [hlow _ (by omega)] at hused
    rw [hinode] at hr
    exact ⟨⟨hlt, hused⟩, hr⟩
  have hfree : ∀ r, v.held m r → ¬ touched (v.place m r) := by
    intro r hr ht
    obtain ⟨hin, hown⟩ := h.others m r hm hr
    rcases htouched _ ht with ho | hno
    · exact hown ho
    · exact hno hin
  refine ⟨hlive hr, ?_⟩
  cases r with
  | ptr i => simp only [View.place, hinode]
  | data k =>
    have hptr := hfree _ (h.others_ptr m k hm (hlive hr))
    simp only [View.place, hinode]
    exact dataBlock_congr (hdata _ hptr)

/-- INTERNAL: the view with another record in the data block `b`. -/
theorem viewOf_setBlock_env (env : Env) {b : ℕ} (bytes : Bytes) (hb : 34 ≤ b) (hb' : b < 3000) :
    viewOf (({ s with env := env } : SacState).setBlock b bytes) = (viewOf s).setData b bytes := by
  rw [viewOf_setBlock_data _ _ hb hb', viewOf_env]

/-- INTERNAL: **the record goes behind the others in their last data block.** -/
theorem oneMore_existing (h : OwnDirectory (viewOf s) d (inodeOfNode node) n)
    (hlen : name.length ≤ 70) (hnul : (0 : UInt8) ∉ name) (hnum : nodeNum < 2 ^ 32)
    (hn : n % 32 ≠ 0) (env : Env) (stack : Bytes) :
    OneMore s (({ s with env := env } : SacState).setBlock
        ((viewOf s).dataBlock (inodeOfNode node) (n / 32))
        (withRecord (s.disk ((viewOf s).dataBlock (inodeOfNode node) (n / 32))) (128 * (n % 32))
          nodeNum (entryName stack name)))
      d (inodeOfNode node)
      (inodeOfNode { node with fileSize := u32 (node.fileSize + 128) }) name nodeNum n := by
  have hk : 32 * (n / 32) < n := by omega
  obtain ⟨hb, hb'⟩ := h.block _ hk
  have hptr_eq : (inodeOfNode { node with fileSize := u32 (node.fileSize + 128) }).ptr =
      (inodeOfNode node).ptr := rfl
  have hsize : (inodeOfNode { node with fileSize := u32 (node.fileSize + 128) }).fileSize =
      128 * (n + 1) := h.grown_size
  generalize inodeOfNode { node with fileSize := u32 (node.fileSize + 128) } = nd' at hptr_eq hsize ⊢
  generalize inodeOfNode node = nd at h hptr_eq hb hb' ⊢
  generalize hbdef : (viewOf s).dataBlock nd (n / 32) = b at hb hb' ⊢
  have hview := viewOf_setBlock_env (s := s) env
    (withRecord (s.disk b) (128 * (n % 32)) nodeNum (entryName stack name)) hb hb'
  generalize hs' : ({ s with env := env } : SacState).setBlock b
    (withRecord (s.disk b) (128 * (n % 32)) nodeNum (entryName stack name)) = s' at hview ⊢
  -- the blocks are where they were
  have hdata : ∀ c, c ≠ b → (viewOf s').data c = (viewOf s).data c := by
    intro c hc
    rw [hview, View.setData_ne _ hc]
  have hbytes : (viewOf s').data b =
      withRecord ((viewOf s).data b) (128 * (n % 32)) nodeNum (entryName stack name) := by
    rw [hview, View.setData_same, viewOf_data hb hb']
  have hblock : ∀ k, 32 * k < n → (viewOf s').dataBlock nd' k = (viewOf s).dataBlock nd k := by
    intro k hk'
    simp only [View.dataBlock, View.slot, hptr_eq]
    rw [hdata _ fun e => h.ptr_ne k (n / 32) hk' hk (e.trans hbdef.symm)]
  have hown : OwnBlock (viewOf s) nd n b := ⟨n / 32, hk, Or.inr hbdef.symm⟩
  refine ⟨hsize, fun i hi t ht => ?_, ?_, ?_, fun c hc => ?_⟩
  · rw [hblock _ (by omega)]
    by_cases hib : (viewOf s).dataBlock nd (i / 32) = b
    · have hsame := h.inj (i / 32) (n / 32) (by omega) hk (hib.trans hbdef.symm)
      rw [hib, hbytes, withRecord_outside (by omega)]
    · rw [hdata _ hib]
  · unfold recordAt
    rw [hblock _ hk, hbdef, hbytes, show n % 32 * 128 = 128 * (n % 32) by omega,
      leNat_withRecord hnum]
    rw [cstr_withRecord stack hnul (by omega), Option.getD_some]
  · rintro c ⟨k, hk', hc⟩
    have hk'' : 32 * k < n := by omega
    have hcown : OwnBlock (viewOf s) nd n c := by
      refine ⟨k, hk'', ?_⟩
      rw [hptr_eq, hblock k hk''] at hc
      exact hc
    have hin := h.inRange hcown
    refine ⟨⟨hin.1, hin.2, ?_⟩, fun m r hm hr he => ?_⟩
    · rw [hview, View.setData_used]
      exact h.used c hcown
    · obtain ⟨hr', hplace⟩ := h.place_ne (fun c => c = b) (fun c hc => Or.inl (hc ▸ hown))
        (by rw [hview]; rfl) (fun _ _ => by rw [hview]; rfl) hdata hm hr
      rw [hplace] at he
      exact (h.others m r hm hr').2 (he ▸ hcown)
  · left
    by_contra hno
    have hcb : c ≠ b := by
      rintro rfl
      exact hno hown
    rw [← hs', setBlock_ne _ _ hcb] at hc
    exact hc rfl

/-- INTERNAL: **the record starts the first data block of a new pointer block.** -/
theorem oneMore_allocating {x y : ℕ} (h : OwnDirectory (viewOf s) d (inodeOfNode node) n)
    (hlen : name.length ≤ 70) (hnul : (0 : UInt8) ∉ name) (hnum : nodeNum < 2 ^ 32)
    (hn : n % 32768 = 0) (hx : 34 ≤ x) (hx' : x < 3000) (hy : 34 ≤ y) (hy' : y < 3000) (hxy : x ≠ y)
    (hxfree : s.used x = false) (hyfree : s.used y = false) (env : Env) (stack : Bytes) :
    OneMore s ((((({ s with env := env } : SacState).take y).take x).setBlock y
        (memcpy (s.disk y) (n / 32 % 1024 * 4) (leBytes x) 4)).setBlock x
        (withRecord (s.disk x) (128 * (n % 32)) nodeNum (entryName stack name)))
      d (inodeOfNode node) (inodeOfNode { node with
        fileSize := u32 (node.fileSize + 128)
        indirectPointerBlock := Function.update node.indirectPointerBlock (n / 32768) y })
      name nodeNum n := by
  have hptr_eq : (inodeOfNode { node with
      fileSize := u32 (node.fileSize + 128)
      indirectPointerBlock := Function.update node.indirectPointerBlock (n / 32768) y }).ptr =
      Function.update (inodeOfNode node).ptr (n / 32768) y := rfl
  have hsize : (inodeOfNode { node with
      fileSize := u32 (node.fileSize + 128)
      indirectPointerBlock := Function.update node.indirectPointerBlock (n / 32768) y }).fileSize =
      128 * (n + 1) := h.grown_size
  generalize inodeOfNode { node with
    fileSize := u32 (node.fileSize + 128)
    indirectPointerBlock := Function.update node.indirectPointerBlock (n / 32768) y } = nd'
    at hptr_eq hsize ⊢
  generalize inodeOfNode node = nd at h hptr_eq ⊢
  rw [show n / 32 % 1024 * 4 = 0 by omega, show 128 * (n % 32) = 0 by omega]
  generalize hslots : memcpy (s.disk y) 0 (leBytes x) 4 = slots
  generalize hrecord : withRecord (s.disk x) 0 nodeNum (entryName stack name) = bytes
  have hview : viewOf ((((({ s with env := env } : SacState).take y).take x).setBlock y slots).setBlock
      x bytes) = ((((viewOf s).setUsed y true).setUsed x true).setData y slots).setData x bytes := by
    rw [viewOf_setBlock_data _ _ hx hx', viewOf_setBlock_data _ _ hy hy', viewOf_take, viewOf_take,
      viewOf_env]
  generalize hs' : (((({ s with env := env } : SacState).take y).take x).setBlock y slots).setBlock
    x bytes = s' at hview ⊢
  have hdata : ∀ c, ¬ (c = x ∨ c = y) → (viewOf s').data c = (viewOf s).data c := by
    intro c hc
    rw [hview, View.setData_ne _ fun e => hc (Or.inl e), View.setData_ne _ fun e => hc (Or.inr e)]
    rfl
  have hused : ∀ c, (viewOf s').used c = (decide (c = x) || (decide (c = y) || s.used c)) := by
    intro c
    rw [hview]
    simp only [View.setData_used, View.setUsed, viewOf_used, Function.update_apply]
    split
    · simp_all
    · split <;> simp_all
  have hbytes : (viewOf s').data x = bytes := by rw [hview, View.setData_same]
  have hbytes' : (viewOf s').data y = slots := by
    rw [hview, View.setData_ne _ (Ne.symm hxy), View.setData_same]
  -- new blocks are nobody's
  have hnot : ∀ c, OwnBlock (viewOf s) nd n c → ¬ (c = x ∨ c = y) := by
    rintro c hc (rfl | rfl)
    · have := h.used c hc
      rw [viewOf_used, hxfree] at this
      cases this
    · have := h.used c hc
      rw [viewOf_used, hyfree] at this
      cases this
  have hnew : ∀ c, c = x ∨ c = y → ¬ (viewOf s).InData c := by
    rintro c (rfl | rfl)
    · exact not_inData hxfree
    · exact not_inData hyfree
  have hptr : ∀ k, 32 * k < n → nd'.ptr (k / 1024) = nd.ptr (k / 1024) := by
    intro k hk
    rw [hptr_eq, Function.update_of_ne (by omega)]
  have hblock : ∀ k, 32 * k < n → (viewOf s').dataBlock nd' k = (viewOf s).dataBlock nd k := by
    intro k hk
    simp only [View.dataBlock, View.slot, hptr k hk]
    rw [hdata _ (hnot _ ⟨k, hk, Or.inl rfl⟩)]
  have hlast_ptr : nd'.ptr (n / 32 / 1024) = y := by
    rw [hptr_eq, show n / 32 / 1024 = n / 32768 by omega, Function.update_self]
  have hlast : (viewOf s').dataBlock nd' (n / 32) = x := by
    simp only [View.dataBlock, View.slot, hlast_ptr, hbytes', show n / 32 % 1024 * 4 = 0 by omega]
    rw [← hslots, leNat_memcpy_leBytes, Nat.mod_eq_of_lt (by omega)]
  refine ⟨hsize, fun i hi t ht => ?_, ?_, ?_, fun c hc => ?_⟩
  · rw [hblock _ (by omega), hdata _ (hnot _ ⟨i / 32, by omega, Or.inr rfl⟩)]
  · unfold recordAt
    rw [hlast, hbytes, show n % 32 * 128 = 0 by omega, ← hrecord, leNat_withRecord hnum]
    rw [cstr_withRecord stack hnul (by omega), Option.getD_some]
  · rintro c ⟨k, hk, hc⟩
    have hc' : OwnBlock (viewOf s) nd n c ∨ c = x ∨ c = y := by
      by_cases hk' : 32 * k < n
      · rw [hptr k hk', hblock k hk'] at hc
        exact Or.inl ⟨k, hk', hc⟩
      · rw [show k = n / 32 by omega, hlast_ptr, hlast] at hc
        exact Or.inr hc.symm
    refine ⟨?_, fun m r hm hr he => ?_⟩
    · rcases hc' with ho | rfl | rfl
      · have hin := h.inRange ho
        refine ⟨hin.1, hin.2, ?_⟩
        rw [hused, show s.used c = true from h.used c ho]
        simp
      · exact ⟨hx, hx', by rw [hused]; simp⟩
      · exact ⟨hy, hy', by rw [hused]; simp⟩
    · obtain ⟨hr', hplace⟩ := h.place_ne (fun c => c = x ∨ c = y) (fun c hc => Or.inr (hnew c hc))
        (by rw [hview]; rfl) (fun b hb => by
          rw [hused, decide_eq_false (by omega), decide_eq_false (by omega)]
          rfl) hdata hm hr
      rw [hplace] at he
      obtain ⟨hin, hno⟩ := h.others m r hm hr'
      rcases hc' with ho | hnewc
      · exact hno (he ▸ ho)
      · exact hnew c hnewc (he ▸ hin)
  · right
    have hcxy : c = x ∨ c = y := by
      by_contra hno
      rw [← hs', setBlock_ne _ _ fun e => hno (Or.inl e),
        setBlock_ne _ _ fun e => hno (Or.inr e)] at hc
      exact hc rfl
    have := hused c
    rw [viewOf_used] at this
    rcases hcxy with rfl | rfl
    · exact ⟨hxfree, by rw [this]; simp⟩
    · exact ⟨hyfree, by rw [this]; simp⟩

/-- INTERNAL: read as a block number, a name with the uninitialised bytes behind it is larger than
any block. -/
theorem le_leNat_entryName {g : UInt8} (hg : g ≠ 0) (hnul : (0 : UInt8) ∉ name) :
    65536 ≤ leNat (entryName (fun _ => g) name) 0 4 := by
  have hone : ∀ {x : UInt8}, x ≠ 0 → 1 ≤ x.toNat := by
    intro x hx
    by_contra hlt
    exact hx (UInt8.toNat_inj.mp (by rw [UInt8.toNat_zero]; omega))
  have hbyte : entryName (fun _ => g) name 2 ≠ 0 ∨ entryName (fun _ => g) name 3 ≠ 0 := by
    rcases Nat.lt_trichotomy name.length 2 with hlt | heq | hgt
    · rw [entryName_behind hlt]
      exact Or.inl hg
    · rw [entryName_behind (t := 3) (by omega)]
      exact Or.inr hg
    · left
      have hin : entryName (fun _ => g) name (0 + 2) = ofList (name ++ [0]) 2 :=
        memcpy_inside (by omega)
      rw [Nat.zero_add] at hin
      rw [hin]
      have hget : ofList (name ++ [0]) 2 = name.get ⟨2, hgt⟩ := by
        rw [ofList, List.getD_eq_getElem?_getD, List.getElem?_append_left hgt,
          List.getElem?_eq_getElem hgt]
        rfl
      rw [hget]
      intro h0
      exact hnul (h0 ▸ List.get_mem name ⟨2, hgt⟩)
  have hsum : leNat (entryName (fun _ => g) name) 0 4 =
      (entryName (fun _ => g) name 0).toNat + 256 * ((entryName (fun _ => g) name 1).toNat +
        256 * ((entryName (fun _ => g) name 2).toNat +
          256 * (entryName (fun _ => g) name 3).toNat)) := by
    simp [leNat]
  rw [hsum]
  rcases hbyte with h2 | h3
  · have := hone h2
    omega
  · have := hone h3
    omega

/-- INTERNAL: what appending means when the pointer block is there. -/
theorem AppendsRecord.written (h : AppendsRecord s d node name nodeNum n)
    (hsize : node.fileSize = 128 * n) (hlen : name.length < 124) (hlast : n / 32768 < 1000)
    (hptr : node.indirectPointerBlock (n / 32768) ≠ 0) (env : Env) :
    ∃ s' nd', nextBlock s node n < 3000 ∧ nd'.ptr = (inodeOfNode node).ptr ∧ s'.bitmap = s.bitmap ∧
      s'.disk = Function.update s.disk (nextBlock s node n) (withRecord (s.disk (nextBlock s node n))
        (128 * (n % 32)) nodeNum (entryName (env.heap env.taken) name)) ∧
      OneMore s s' d (inodeOfNode node) nd' name nodeNum n := by
  obtain ⟨node', s', hok, hmore⟩ := h env
  have hwp : wp (addDirectoryEntry node name nodeNum) (fun node' s' => nextBlock s node n < 3000 ∧
      node'.indirectPointerBlock = node.indirectPointerBlock ∧ s'.bitmap = s.bitmap ∧
      s'.disk = Function.update s.disk (nextBlock s node n) (withRecord (s.disk (nextBlock s node n))
        (128 * (n % 32)) nodeNum (entryName (env.heap env.taken) name)))
      (fun _ _ => True) { s with env := env } := by
    refine addDirectoryEntry_existing hsize hlen hlast hptr (fun _ hb e' => ?_) fun _ _ _ => trivial
    exact ⟨hb, rfl, rfl, rfl⟩
  obtain ⟨hb, hnode, hbitmap, hdisk⟩ := wp_of_ok hwp hok
  exact ⟨s', inodeOfNode node', hb, hnode, hbitmap, hdisk, hmore⟩

/-- INTERNAL: **the old bytes of the next slot do not lead to a block of the directory.** SRCLINE:
directory.c:203-210 -/
theorem not_appendsRecord (h : OwnDirectory (viewOf s) d (inodeOfNode node) n)
    (hlen : name.length ≤ 70) (hnul : (0 : UInt8) ∉ name) (hn : n % 32 = 0)
    (hptr : node.indirectPointerBlock (n / 32768) ≠ 0) :
    ¬ AppendsRecord s d node name nodeNum n := by
  intro happends
  have hle := h.toRecordBlocks.records_le h.inj
  -- a byte behind the name that is not the one there
  obtain ⟨g, hg, hne⟩ : ∃ g : UInt8, g ≠ 0 ∧ s.disk (nextBlock s node n) 127 ≠ g := by
    by_cases h1 : s.disk (nextBlock s node n) 127 = 1
    · exact ⟨2, by decide, by rw [h1]; decide⟩
    · exact ⟨1, by decide, h1⟩
  obtain ⟨s', nd', hb, hptr_eq, hbitmap, hdisk, hmore⟩ := happends.written h.size (by omega) (by omega)
    hptr ⟨fun _ _ => g, fun _ => 0, 0⟩
  generalize nextBlock s node n = b at hb hne hdisk
  generalize inodeOfNode node = nd at h hmore hptr_eq
  rw [show 128 * (n % 32) = 0 by omega] at hdisk
  have hbytes : ∀ t < 124, s'.disk b (4 + t) = entryName (fun _ => g) name t := by
    intro t ht
    rw [hdisk, Function.update_self]
    have hname : withRecord (s.disk b) 0 nodeNum (entryName (fun _ => g) name) (0 + 4 + t) =
        entryName (fun _ => g) name t := withRecord_name ht
    rwa [Nat.zero_add] at hname
  have hbyte : s'.disk b 127 = g := by
    rw [show 127 = 4 + 123 by rfl, hbytes 123 (by omega), entryName_behind (by omega)]
  have hother : ∀ c, c ≠ b → s'.disk c = s.disk c := by
    intro c hc
    rw [hdisk, Function.update_of_ne hc]
  rcases hmore.frame b (fun he => hne (by rw [← he, hbyte])) with hown | ⟨hunused, hused⟩
  swap
  · rw [SacState.used, hbitmap, ← SacState.used, hunused] at hused
    cases hused
  have hin := (h.inRange hown).1
  obtain ⟨k, hk, hkb | hkb⟩ := hown
  · -- the record lies over the slots of a pointer block, and its name is the number in slot 1
    have hslot : (viewOf s').dataBlock nd' (1024 * (k / 1024) + 1) =
        leNat (entryName (fun _ => g) name) 0 4 := by
      simp only [View.dataBlock, View.slot, hptr_eq,
        show (1024 * (k / 1024) + 1) / 1024 = k / 1024 by omega,
        show (1024 * (k / 1024) + 1) % 1024 * 4 = 4 by omega, ← hkb, viewOf_data hin hb]
      apply leNat_congr
      intro t ht
      rw [Nat.zero_add]
      exact hbytes t (by omega)
    obtain ⟨⟨-, hlt, -⟩, -⟩ := hmore.own _ ⟨1024 * (k / 1024) + 1, by omega, Or.inr rfl⟩
    have := le_leNat_entryName hg hnul
    omega
  · -- the record lies over the first one of a data block
    have hptr_in := h.ptr k hk
    have hsame : (viewOf s').dataBlock nd' k = (viewOf s).dataBlock nd k := by
      simp only [View.dataBlock, View.slot, hptr_eq, viewOf_data hptr_in.1 hptr_in.2]
      rw [hother _ fun e => h.ptr_ne k k hk hk (e.trans hkb)]
    have hold := hmore.old (32 * k) hk 127 (by omega)
    rw [show 32 * k / 32 = k by omega, hsame, ← hkb, viewOf_data hin hb, viewOf_data hin hb,
      show 32 * k % 32 * 128 + 127 = 127 by omega, hbyte] at hold
    exact hne hold.symm

/-- **`add_directory_entry` appends one record if and only if** the last data block has room for it,
or there is no pointer block yet where the record goes. SRCLINE: directory.c:40-56,
directory.c:194-213 -/
theorem appends_record_iff (h : OwnDirectory (viewOf s) d (inodeOfNode node) n)
    (hlen : name.length ≤ 70) (hnul : (0 : UInt8) ∉ name) (hnum : nodeNum < 2 ^ 32)
    (hfree : 2 ≤ freeCount s.used 34 3000) :
    AppendsRecord s d node name nodeNum n ↔
      n % 32 ≠ 0 ∨ node.indirectPointerBlock (n / 32768) = 0 := by
  have hle := h.toRecordBlocks.records_le h.inj
  constructor
  · intro happends
    by_contra hno
    rw [not_or, not_not] at hno
    exact not_appendsRecord h hlen hnul hno.1 hno.2 happends
  · intro hcond env
    by_cases hn : n % 32 = 0
    · have hptr := hcond.resolve_left (not_not.mpr hn)
      have hfirst : n % 32768 = 0 := by
        by_contra hin
        have hlow := (h.ptr (n / 32 - 1) (by omega)).1
        rw [show (n / 32 - 1) / 1024 = n / 32768 by omega,
          show (inodeOfNode node).ptr (n / 32768) = 0 from hptr] at hlow
        omega
      have hrun : wp (addDirectoryEntry node name nodeNum)
          (fun node' s' => OneMore s s' d (inodeOfNode node) (inodeOfNode node') name nodeNum n)
          (fun _ _ => False) { s with env := env } :=
        addDirectoryEntry_allocating h.size (by omega) (by omega) hptr hfree
          fun x y e' bytes hx hx' hy hy' hxy hxfree hyfree =>
            oneMore_allocating h hlen hnul hnum hfirst hx hx' hy hy' hxy hxfree hyfree e' bytes
      exact exists_ok_of_wp hrun fun _ _ hf => hf
    · have hk : 32 * (n / 32) < n := by omega
      obtain ⟨hp, hp'⟩ := h.ptr _ hk
      obtain ⟨hb, hb'⟩ := h.block _ hk
      rw [show n / 32 / 1024 = n / 32768 by omega] at hp hp'
      have hblock : readBlock (node.indirectPointerBlock (n / 32768)) =
          (inodeOfNode node).ptr (n / 32768) := readBlock_of_lt hp'
      have hnext : nextBlock { s with env := env } node n =
          (viewOf s).dataBlock (inodeOfNode node) (n / 32) := by
        have hslot : leNat (s.disk ((inodeOfNode node).ptr (n / 32768))) (n / 32 % 1024 * 4) 4 =
            (viewOf s).dataBlock (inodeOfNode node) (n / 32) := by
          simp only [View.dataBlock, View.slot, show n / 32 / 1024 = n / 32768 by omega,
            viewOf_data hp hp']
        unfold nextBlock
        rw [hblock]
        show readBlock (leNat (s.disk _) _ _) = _
        rw [hslot, readBlock_of_lt hb']
      have hrun : wp (addDirectoryEntry node name nodeNum)
          (fun node' s' => OneMore s s' d (inodeOfNode node) (inodeOfNode node') name nodeNum n)
          (fun _ _ => False) { s with env := env } := by
        refine addDirectoryEntry_existing h.size (by omega) (by omega) (fun e => ?_)
          (fun _ _ e' => ?_) fun hno => absurd ⟨by rw [hblock]; exact hp', by rw [hnext]; exact hb'⟩ hno
        · rw [show (inodeOfNode node).ptr (n / 32768) = 0 from e] at hp
          omega
        · rw [hnext]
          exact oneMore_existing h hlen hnul hnum hn e' _
      exact exists_ok_of_wp hrun fun _ _ hf => hf

/-- INTERNAL: the blocks 40 and 41 of `directoryDisk` are those of its directory. -/
theorem directoryDisk_own (hn : n ≤ 32) (hpos : 0 < n) :
    OwnDirectory (viewOf directoryDisk) 0 (inodeOfNode (directoryNode n)) n ∧
      2 ≤ freeCount directoryDisk.used 34 3000 := by
  have hd := directoryDisk_directory hn
  have hfresh := fresh_of_formatted formatted_newDisk
  have hused : ∀ c, directoryDisk.used c = (decide (c = 41) || (decide (c = 40) || newDisk.used c)) := by
    intro c
    rw [directoryDisk, take_used, take_used]
    rfl
  have hblock := directoryDisk_block n
  have hptr : (inodeOfNode (directoryNode n)).ptr 0 = 40 := rfl
  have hdead : ∀ m, m ≠ 0 → ¬ (viewOf directoryDisk).live m := by
    rintro m hm ⟨hlt, hlive⟩
    rw [viewOf_used, hused, decide_eq_false (by omega), decide_eq_false (by omega), Bool.false_or,
      Bool.false_or, show newDisk.used (2 + m) = _ from hfresh.used (2 + m) (by omega),
      decide_eq_true_eq] at hlive
    omega
  refine ⟨⟨hd.toRecordBlocks, ?_, fun j k hj hk _ => by omega, fun j k hj hk => ?_,
    fun m r hm hr => absurd hr.1 (hdead m hm), fun m k hm hr => absurd hr.1 (hdead m hm)⟩,
    two_le_freeCount (x := 50) (y := 51) (by omega) (by omega) (by omega) (by omega) (by omega)
      ?_ ?_⟩
  · rintro c ⟨k, hk, rfl | rfl⟩
    · rw [show k / 1024 = 0 by omega, hptr, viewOf_used, hused]
      rfl
    · rw [show k = 0 by omega, hblock, viewOf_used, hused]
      rfl
  · rw [show j / 1024 = 0 by omega, show k = 0 by omega, hblock, hptr]
    decide
  · rw [hused, show newDisk.used 50 = _ from hfresh.used 50 (by omega)]
    rfl
  · rw [hused, show newDisk.used 51 = _ from hfresh.used 51 (by omega)]
    rfl

/-- The statement for a second record with the name `b`. -/
theorem appends_record_second : AppendsRecord directoryDisk 0 (directoryNode 1) [98] 7 1 ↔
    1 % 32 ≠ 0 ∨ (directoryNode 1).indirectPointerBlock (1 / 32768) = 0 := by
  obtain ⟨hown, hfree⟩ := directoryDisk_own (n := 1) (by omega) (by omega)
  exact appends_record_iff hown (by decide) (by decide) (by decide) hfree

/-- The 33rd record goes to block 0, whose number the old bytes of slot 1 are. SRCLINE:
directory.c:203-210 -/
theorem record_goes_astray : OwnDirectory (viewOf directoryDisk) 0 (inodeOfNode (directoryNode 32)) 32 ∧
    2 ≤ freeCount directoryDisk.used 34 3000 ∧
      ¬ AppendsRecord directoryDisk 0 (directoryNode 32) [98] 7 32 := by
  obtain ⟨hown, hfree⟩ := directoryDisk_own (n := 32) le_rfl (by omega)
  exact ⟨hown, hfree, not_appendsRecord hown (by decide) (by decide) rfl (by decide)⟩

end Appends

end LinuseFs.Analysis
