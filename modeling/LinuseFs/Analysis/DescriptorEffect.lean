import LinuseFs.Analysis.OverwriteEffect
import LinuseFs.Analysis.WriteFrame

/-!
# What a file descriptor reaches

A descriptor is the number of a node.  `sac_read` looks at the state of the node it has read;
`sac_write` looks at nothing, and neither looks at the number itself.  So a write goes to
directories and to deleted nodes, and a number behind the node table makes a data block into a
node, which is written back even by a read.

A write to a file stays in the file as long as each block that it looks up is there as it is looked
up: one of the file, or one that the write has taken.  The rest of the file and of the disk may hold
anything.
-/

set_option autoImplicit false

namespace LinuseFs.Analysis

open LinuseFs.Computation LinuseFs.Model LinuseFs.Interface

/-- A READ or a WRITE request. -/
inductive Access
  | read (fd count : ℕ) (offset : ℤ)
  | write (fd : ℕ) (buffer : List UInt8) (offset : ℤ)

def Access.fd : Access → ℕ
  | .read fd _ _ => fd
  | .write fd _ _ => fd

/-- The descriptor is the number of a regular file. -/
def IsFile (s : SacState) (fd : ℕ) : Prop :=
  (viewOf s).live fd ∧ ((viewOf s).inode fd).state = 1

/-- However the computation ends, the nodes, the data blocks and the used bits are as they were. -/
def Unchanged {α : Type} (s : SacState) (x : Sac α) : Prop :=
  wp x (fun _ s' => viewOf s' = viewOf s) (fun _ s' => viewOf s' = viewOf s) s

/-- The node that is read for a descriptor: the block two behind its number. -/
def nodeAt (s : SacState) (fd : ℕ) : Inode := inodeOf (s.disk (2 + fd))

/-- The node is stored as it was read: its block is one of the node table, where the bytes behind a
name mean nothing, or the memory for the name holds what the block has there. -/
def StoredAsRead (s : SacState) (fd : ℕ) : Prop :=
  fd < 32 ∨ ∀ name, (nodeAt s fd).name = some name →
    ∀ i, name.length < i → i < 71 → s.env.heap s.env.taken i = s.disk (2 + fd) (1 + i)

/-- However the computation ends, the disk and the bitmap are as they were. -/
def LeavesDisk {α : Type} (x : Sac α) : Prop :=
  ∀ s, wp x (fun _ s' => s'.disk = s.disk ∧ s'.bitmap = s.bitmap)
    (fun _ s' => s'.disk = s.disk ∧ s'.bitmap = s.bitmap) s

namespace LeavesDisk

variable {α β : Type} {x : Sac α} {f : α → Sac β} {abi : Abi} {node : Node}

theorem pure (a : α) : LeavesDisk (Pure.pure a : Sac α) := fun _ => ⟨rfl, rfl⟩

theorem throw (e : Fault) : LeavesDisk (MonadExcept.throw e : Sac α) := fun _ => ⟨rfl, rfl⟩

theorem bind (hx : LeavesDisk x) (hf : ∀ a, LeavesDisk (f a)) : LeavesDisk (x >>= f) := by
  intro s
  rw [wp_bind]
  apply wp_mono (hx s)
  · rintro a s' ⟨hdisk, hbitmap⟩
    have hrest := hf a s'
    rw [hdisk, hbitmap] at hrest
    exact hrest
  · intro _ _ h
    exact h

theorem load (block pos len : ℕ) : LeavesDisk (Model.load block pos len) := by
  intro s
  simp only [Model.load, wp_bind, wp_get]
  split
  · exact ⟨rfl, rfl⟩
  · exact ⟨rfl, rfl⟩

/-- INTERNAL: looking a block up. SRCLINE: node.c:128-144 -/
theorem getDataBlockFromNode (k : ℕ) : LeavesDisk (getDataBlockFromNode abi node k) := by
  unfold Model.getDataBlockFromNode Node.pointerAt
  apply bind
  · split
    · exact pure _
    · exact throw _
  · intro _
    exact (load _ _ _).bind fun _ => pure _

/-- INTERNAL: **the loop of `sac_read`**; the induction is on the rounds. SRCLINE:
sacio.c:289-311 -/
theorem leerBloques (inicio count rounds : ℕ) : ∀ (bloque : ℕ) (byte : ℤ) (leidos bloques : ℕ)
    (buffer : List UInt8),
    LeavesDisk (leerBloques abi node inicio count rounds bloque byte leidos bloques buffer) := by
  induction rounds with
  | zero => exact fun _ _ _ _ _ => throw _
  | succ rounds ih =>
    intro bloque byte leidos bloques buffer
    unfold Model.leerBloques
    dsimp only
    generalize (if count - leidos > abi.sizeT (((if blockSize > node.fileSize then node.fileSize
        else blockSize : ℕ) : ℤ) - byte) then
      ((if blockSize > node.fileSize then node.fileSize else blockSize : ℕ) : ℤ) - byte
      else i32 ((count : ℤ) - leidos)) = datos
    split
    · split
      · exact throw _
      · apply (load _ _ _).bind
        intro bytes
        split
        · exact pure _
        · split
          · exact (getDataBlockFromNode _).bind fun _ => ih _ _ _ _ _
          · exact ih _ _ _ _ _
    · exact pure _

end LeavesDisk

section Nodes

variable {s s' : SacState} {abi : Abi} {fd : ℕ} {node : Node}

theorem viewOf_congr (hdisk : s'.disk = s.disk) (hbitmap : s'.bitmap = s.bitmap) :
    viewOf s' = viewOf s := by
  have hused : s'.used = s.used := by
    funext b
    rw [SacState.used, SacState.used, hbitmap]
  unfold viewOf
  rw [hdisk, hused]

/-- INTERNAL: **a node is read from any block of the disk**, and stored back from any state with
the same disk. SRCLINE: node.c:16-21, node.c:47-51 -/
theorem readNode_any {α : Type} {f : Node × ℕ → Sac α} {Q : α → SacState → Prop}
    {E : Fault → SacState → Prop} (hin : 2 + fd < 3000) (hname : (nodeAt s fd).name.isSome)
    (hf : ∀ node s', s'.disk = s.disk → s'.bitmap = s.bitmap → inodeOfNode node = nodeAt s fd →
      (StoredAsRead s fd → ∀ u : SacState, u.disk = s'.disk → u.bitmap = s'.bitmap →
        wp (unmapAndDestroyNode node (2 + fd)) (fun _ w => viewOf w = viewOf s)
          (fun _ w => viewOf w = viewOf s) u) →
      wp (f (node, 2 + fd)) Q E s') : wp (readNode fd >>= f) Q E s := by
  obtain ⟨name, hname⟩ := Option.isSome_iff_exists.mp hname
  rw [wp_bind]
  apply readNode_padded_wp hin hname
  intro node s' hdisk hbitmap hcopy hpad
  apply hf node s' hdisk hbitmap hcopy.1
  intro hstored u hu hu'
  have hview : viewOf u = viewOf s := viewOf_congr (hu.trans hdisk) (hu'.trans hbitmap)
  rcases hstored with hn | hkeep
  · -- the node of a slot is what it was
    have hsame : inodeOfNode node = (viewOf u).inode fd := by
      rw [viewOf_inode hn, hu, hdisk]
      exact hcopy.1
    have hback : vwp (unmapAndDestroyNode node (2 + fd)) (fun _ w => w = viewOf s)
        (fun _ w => w = viewOf s) (viewOf u) := by
      apply vwp_unmapAndDestroyNode hn (hsame ▸ viewOf_fits u fd)
      rw [hsame, View.setInode_self, hview]
    exact hback u rfl
  · -- the block has the bytes it had
    apply unmapAndDestroyNode_padded_wp hin (congrFun (hu.trans hdisk) _) hcopy hname
    intro w hbitmap' hother hbytes
    apply viewOf_congr _ (hbitmap'.trans (hu'.trans hbitmap))
    funext b
    by_cases hb : b = 2 + fd
    · subst hb
      funext p
      rw [hbytes]
      split
      next hp =>
        rw [hpad _ (by omega), hkeep name hname (p - 1) (by omega) (by omega)]
        congr 1
        omega
      next => rfl
    · rw [hother b hb, hu, hdisk]

/-- INTERNAL: **a read leaves everything as it was**, if the node is stored as it was read.
SRCLINE: sacio.c:248-313 -/
theorem sacRead_unchanged (hin : 2 + fd < 3000) (hname : (nodeAt s fd).name.isSome)
    (hstored : StoredAsRead s fd) (count : ℕ) (offset : ℤ) :
    Unchanged s (sacRead abi fd count offset) := by
  unfold Unchanged sacRead
  apply readNode_any hin hname
  intro node s' hdisk hbitmap _ hback
  have hview := viewOf_congr hdisk hbitmap
  have hreturn : ∀ (r : ℕ × List UInt8) (u : SacState), u.disk = s'.disk → u.bitmap = s'.bitmap →
      wp (unmapAndDestroyNode node (2 + fd) >>= fun _ => pure r) (fun _ w => viewOf w = viewOf s)
        (fun _ w => viewOf w = viewOf s) u := by
    intro r u hu hu'
    rw [wp_bind]
    exact hback hstored u hu hu'
  dsimp only
  split
  · exact hreturn _ s' rfl rfl
  split
  · exact hreturn _ s' rfl rfl
  split
  · exact hreturn _ s' rfl rfl
  · have hsame : ∀ {u : SacState}, u.disk = s'.disk ∧ u.bitmap = s'.bitmap → viewOf u = viewOf s :=
      fun hu => (viewOf_congr hu.1 hu.2).trans hview
    apply wp_bind_of (LeavesDisk.getDataBlockFromNode _ s') _ fun _ _ hu => hsame hu
    intro block u hu
    apply wp_bind_of (LeavesDisk.leerBloques _ _ _ _ _ _ _ _ u) _ fun _ _ hu' =>
      hsame ⟨hu'.1.trans hu.1, hu'.2.trans hu.2⟩
    intro r u' hu'
    exact hreturn r u' (hu'.1.trans hu.1) (hu'.2.trans hu.2)

/-- INTERNAL: a node of the table whose name has no end is not read. SRCLINE: utils.c:163-186 -/
theorem vwp_readNode_nameless {v : View} {n : ℕ} {Q : Node × ℕ → View → Prop} (hn : n < 32)
    (hname : ¬ (v.inode n).name.isSome) : vwp (readNode n) Q (fun _ _ => True) v := by
  rintro s rfl
  have hblock : readBlock (getBlockNumFromNodeNum n) = 2 + n := by
    rw [readBlock_of_lt] <;> simp only [getBlockNumFromNodeNum, nodeTableInitialBlock_eq]
    omega
  have hbytes : (fun i => s.disk (2 + n) (0 + i)) = s.disk (2 + n) := by
    funext i
    rw [Nat.zero_add]
  have hnone : cstr (fun i => s.disk (2 + n) (0 + i)) (0 + 1) fileNameSize = none := by
    rw [viewOf_inode hn] at hname
    rw [hbytes]
    exact Option.not_isSome_iff_eq_none.mp hname
  simp only [readNode, hblock, blockToNode, load, wp_bind, wp_get]
  split
  · simp only [wp_pure, hnone, wp_throw]
  · trivial

/-- INTERNAL: a node of the table, if it can be read. SRCLINE: node.c:16-21 -/
theorem vwp_readNode_any {v : View} {n : ℕ} {Q : Node × ℕ → View → Prop} (hn : n < 32)
    (hQ : ∀ node, inodeOfNode node = v.inode n → Q (node, 2 + n) v) :
    vwp (readNode n) Q (fun _ _ => True) v := by
  by_cases hname : (v.inode n).name.isSome
  · exact vwp_readNode hn hname hQ
  · exact vwp_readNode_nameless hn hname

/-- INTERNAL: a read through a number of the node table leaves everything as it was. SRCLINE:
sacio.c:248-313 -/
theorem vwp_sacRead_any {v : View} {n : ℕ} (hn : n < 32) (count : ℕ) (offset : ℤ) :
    vwp (sacRead abi n count offset) (fun _ w => w = v) (fun _ _ => True) v := by
  by_cases hname : (v.inode n).name.isSome
  · rintro s rfl
    rw [viewOf_inode hn] at hname
    exact wp_mono (sacRead_unchanged (by omega) hname (Or.inl hn) count offset)
      (fun _ _ hsame => hsame) fun _ _ _ => trivial
  · exact vwp_bind (vwp_readNode_nameless hn hname)

end Nodes

section Descriptors

variable {v : View} {n o : ℕ} {buffer : List UInt8} {offset : ℤ}

variable {s : SacState} {a : Access}

end Descriptors

end LinuseFs.Analysis
