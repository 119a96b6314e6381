import LinuseFs.Analysis.FileRead
import LinuseFs.Analysis.FormattedDisk
import LinuseFs.Model.Server

/-!
# The reply to a READ

`_sac_read` takes what `sac_read` returns for the number of bytes that it stored.  It is not
that number when there is nothing to read from: -1 is then the largest `size_t`, and the whole
fresh buffer is sent.  `sac_read` in turn compares the offset as an `int`, and cuts the request
to the file by a sum that may wrap around.
-/

set_option autoImplicit false

namespace LinuseFs.Analysis

open LinuseFs.Computation LinuseFs.Model LinuseFs.Interface

/-- The reply is the requested bytes of the regular file, or an empty error. -/
structure FileReply (v : View) (n count offset : ℕ) (reply : Package) : Prop where
  size_le : reply.size ≤ count
  file : reply.messageId = 0 → v.live n ∧ (v.inode n).state = 1 ∧
    reply.size = min count ((v.inode n).fileSize - offset) ∧
    reply.data.take reply.size = ((content v n).drop offset).take count
  error : reply.messageId ≠ 0 → reply.messageId < 0 ∧ reply.size = 0

/-- The server builds such a reply. -/
def ReadAnswered (abi : Abi) (s : SacState) (n count offset : ℕ) : Prop :=
  ∃ reply s', FsSac.sacRead abi n count (abi.long offset) s = .ok reply s' ∧
    FileReply (viewOf s) n count offset reply

/-- The end of the request is a `size_t`; with eight-byte pointers it is in the first block, the
only one that `get_data_block_from_node` finds. -/
def EndInRange (size count offset : ℕ) : Abi → Prop
  | .ilp32 => offset + count < 2 ^ 32
  | .lp64 => offset < 4096 ∧ min (offset + count) size ≤ 4096

/-- The node is a regular file with blocks, the offset is an `int`, and the end of the request
is in range unless it starts behind the file. -/
structure InRange (abi : Abi) (v : View) (n count offset : ℕ) : Prop where
  live : v.live n
  state : (v.inode n).state = 1
  empty : (v.inode n).ptr 0 = 0 → count = 0
  start : (v.inode n).ptr 0 ≠ 0 → offset < 2 ^ 31
  range : (v.inode n).ptr 0 ≠ 0 → offset < (v.inode n).fileSize →
    EndInRange (v.inode n).fileSize count offset abi

section Reply

variable {abi : Abi} {n count offset : ℕ} {v : View} {E : Fault → View → Prop}

/-- The package that `_sac_read` makes of a result of `sac_read`. -/
def replyOf (data : Bytes) (count : ℕ) (r : ℕ × List UInt8) : Package :=
  { messageId := 0
    size := (if count > r.1 then r.1 else count) % 2 ^ 32
    data := mallocBlock (memcpy data 0 (ofList r.2) r.2.length) count }

/-- INTERNAL: **the reply is built from the result** of `sac_read`. SRCLINE: fs_sac.c:23-31 -/
theorem vwp_fsSacRead {off : ℤ} {Q : Package → View → Prop} {R : ℕ × List UInt8 → View → Prop}
    (hread : vwp (Model.sacRead abi n count off) R E v)
    (hQ : ∀ data r w, R r w → r.2.length ≤ count → Q (replyOf data count r) w)
    (hE : ∀ r w, R r w → count < r.2.length → E .memory w) :
    vwp (FsSac.sacRead abi n count off) Q E v := by
  unfold FsSac.sacRead
  refine vwp_bind (vwp_malloc fun data => ?_)
  apply vwp_bind_of hread (fun _ _ he => he)
  intro r w hr
  obtain ⟨sizeRead, stored⟩ := r
  dsimp only
  by_cases hstored : stored.length > count
  · rw [if_pos hstored]
    exact vwp_throw (hE _ w hr hstored)
  · rw [if_neg hstored, if_neg (Nat.not_lt_zero _)]
    exact vwp_pure (hQ data _ w hr (by dsimp only; omega))

/-- INTERNAL: the bytes of a reply whose size is the number of stored bytes. -/
theorem data_replyOf (data : Bytes) {stored : List UInt8} (hstored : stored.length ≤ count) :
    (replyOf data count (stored.length, stored)).data.take stored.length = stored := by
  apply List.ext_getElem?
  intro i
  simp only [replyOf, mallocBlock, List.getElem?_take, List.getElem?_map]
  by_cases hi : i < stored.length
  · rw [if_pos hi, List.getElem?_range (by omega), Option.map_some, memcpy_zero_inside hi, ofList,
      List.getD_eq_getElem _ _ hi, List.getElem?_eq_getElem hi]
  · rw [if_neg hi, List.getElem?_eq_none (by omega)]

end Reply

/-! ## Where the answer is right -/

section Right

variable {abi : Abi} {n count offset : ℕ} {s : SacState}

theorem long_of_lt (h : offset < 2 ^ 31) : abi.long (offset : ℤ) = offset := by
  unfold Abi.long
  cases abi <;> simp only [Abi.sizeofSizeT] <;> rw [Int.bmod_eq_of_le_mul_two] <;> omega

/-- INTERNAL: a file without a pointer block answers -1. SRCLINE: sacio.c:263-267 -/
theorem vwp_sacRead_noPointer {v : View} {E : Fault → View → Prop}
    {Q : ℕ × List UInt8 → View → Prop} (h : Core v) (hn : v.live n)
    (hstate : (v.inode n).state = 1) (hptr : (v.inode n).ptr 0 = 0) {off : ℤ}
    (hQ : Q (256 ^ abi.sizeofSizeT - 1, []) v) : vwp (sacRead abi n count off) Q E v := by
  unfold sacRead
  refine vwp_bind (vwp_readNode hn.1 (h.node n hn).named fun node hnode => ?_)
  have hnode_state : node.state = 1 := by
    rw [← hnode] at hstate
    exact hstate
  have hnode_ptr : node.indirectPointerBlock 0 = 0 := by
    rw [← hnode] at hptr
    exact hptr
  dsimp only
  rw [if_neg (by simp [hnode_state]), if_pos hnode_ptr]
  refine vwp_bind (vwp_unmapAndDestroyNode hn.1 (hnode ▸ (h.node n hn).fits) ?_)
  rw [hnode, View.setInode_self]
  exact vwp_pure hQ

/-- INTERNAL: **in range the reply is the requested bytes.** SRCLINE: fs_sac.c:23-31,
sacio.c:248-313 -/
theorem readAnswered_of_inRange (h : Core (viewOf s)) (hcount : count < 2 ^ 32)
    (hr : InRange abi (viewOf s) n count offset) : ReadAnswered abi s n count offset := by
  have hn := hr.live
  have hstate := hr.state
  generalize hv : viewOf s = v at *
  have hread : vwp (FsSac.sacRead abi n count (abi.long offset))
      (fun reply _ => FileReply v n count offset reply) (fun _ _ => False) v := by
    by_cases hptr : (v.inode n).ptr 0 = 0
    · obtain rfl := hr.empty hptr
      refine vwp_fsSacRead (R := fun r _ => r.2 = []) (vwp_sacRead_noPointer h hn hstate hptr rfl)
        (fun data r w hr' _ => ?_) fun r w hr' hlt => by simp [hr'] at hlt
      refine ⟨?_, fun _ => ⟨hn, hstate, ?_, ?_⟩, fun hne => absurd rfl hne⟩
      · simp [replyOf]
      · simp [replyOf]
      · simp [replyOf]
    · have hoffset := hr.start hptr
      rw [long_of_lt hoffset]
      refine vwp_fsSacRead (vwp_sacRead h hn hstate hptr hcount hoffset (fun hlt => ?_)
        (Q := fun r _ => r = ((((content v n).drop offset).take count).length,
          ((content v n).drop offset).take count)) fun l hl => by rw [hl])
        (fun data r w hr' _ => ?_) fun r w hr' hlt => ?_
      · have hrange := hr.range hptr hlt
        cases abi with
        | ilp32 => exact Or.inl ⟨rfl, hrange⟩
        | lp64 => exact Or.inr ⟨rfl, hrange⟩
      · subst hr'
        have hlen : (((content v n).drop offset).take count).length =
            min count ((v.inode n).fileSize - offset) := by
          rw [List.length_take, List.length_drop, length_content]
        have hsize : (replyOf data count ((((content v n).drop offset).take count).length,
            ((content v n).drop offset).take count)).size =
            (((content v n).drop offset).take count).length := by
          simp only [replyOf]
          split <;> omega
        refine ⟨by omega, fun _ => ⟨hn, hstate, by rw [hsize, hlen], ?_⟩, fun hne => absurd rfl hne⟩
        rw [hsize]
        exact data_replyOf data (by omega)
      · subst hr'
        simp only [List.length_take] at hlt
        omega
  obtain ⟨reply, s', hok, hreply⟩ := exists_ok_of_wp (hread s hv) fun _ _ hf => hf
  refine ⟨reply, s', hok, ?_⟩
  rw [hv]
  exact hreply

end Right

/-! ## Where it is wrong -/

section Wrong

variable {n count offset : ℕ} {s : SacState} {v : View} {E : Fault → View → Prop}

/-- INTERNAL: a pointer past the array of the node. SRCLINE: node.c:128-144 -/
theorem vwp_getDataBlockFromNode_past {Q : ℕ → View → Prop} {abi : Abi} {node : Node} {k : ℕ}
    (hk : 1000 ≤ k / 1024) (hE : E .memory v) : vwp (getDataBlockFromNode abi node k) Q E v := by
  unfold getDataBlockFromNode Node.pointerAt
  dsimp only
  rw [if_neg (by simp only [pointersPerNode]; omega)]
  exact vwp_bind (vwp_throw hE)

/-- INTERNAL: **the copy loop does not end before the request or the file does**, whatever the
blocks it reads are; the induction is on the rounds that are left. SRCLINE: sacio.c:289-311 -/
theorem vwp_leerBloques_ge {abi : Abi} {node : Node} {bloqueInicio : ℕ} (rounds bloque : ℕ)
    (byte : ℤ) (leidos bloques : ℕ) (buffer : List UInt8) (v : View) :
    vwp (leerBloques abi node bloqueInicio count rounds bloque byte leidos bloques buffer)
      (fun r _ => min count node.fileSize ≤ r.1) (fun _ _ => True) v := by
  induction rounds generalizing bloque byte leidos bloques buffer v with
  | zero => exact vwp_throw trivial
  | succ rounds ih =>
    unfold leerBloques
    by_cases hdone : leidos < count
    swap
    · rw [if_neg hdone]
      exact vwp_pure (by dsimp only; omega)
    rw [if_pos hdone]
    dsimp only
    -- how much the round copies does not matter
    generalize (if count - leidos > abi.sizeT
        (((if blockSize > node.fileSize then node.fileSize else blockSize : ℕ) : ℤ) - byte) then
      ((if blockSize > node.fileSize then node.fileSize else blockSize : ℕ) : ℤ) - byte
      else i32 ((count : ℤ) - (leidos : ℤ))) = datos
    split
    next => exact vwp_throw trivial
    next =>
      apply vwp_bind_of (vwp_anything _) (fun _ _ _ => trivial)
      intro bytes w _
      split
      next hend => exact vwp_pure (by dsimp only; omega)
      next =>
        split
        · exact vwp_bind_of (vwp_anything _) (fun _ _ _ => trivial) fun b w' _ => ih _ _ _ _ _ w'
        · exact ih _ _ _ _ _ w

/-- INTERNAL: **an offset that is negative as an `int`** passes the comparison with the size and
is then looked up before the file. SRCLINE: sacio.c:268-300 -/
theorem vwp_sacRead_negative (h : Core v) (hn : v.live n) (hstate : (v.inode n).state = 1)
    (hptr : (v.inode n).ptr 0 ≠ 0) (hoffset : 2 ^ 31 ≤ offset)
    (hoffset' : offset < 2 ^ 32) :
    vwp (sacRead .ilp32 n count (Abi.ilp32.long (offset : ℤ))) (fun _ _ => False)
      (fun _ _ => True) v := by
  have hlt_size := fileSize_lt h hn hstate
  obtain ⟨m, hm⟩ : ∃ m, offset + m = 2 ^ 32 := ⟨2 ^ 32 - offset, by omega⟩
  have hlong : Abi.ilp32.long (offset : ℤ) = -(m : ℤ) := by
    have hmod : (offset : ℤ) % (256 ^ 4 : ℕ) = offset := by omega
    rw [Abi.long, Abi.sizeofSizeT, Int.bmod, hmod, if_neg (by omega)]
    omega
  have hi32 : i32 (-(m : ℤ)) = -(m : ℤ) := by
    unfold i32
    rw [Int.bmod_eq_of_le_mul_two] <;> omega
  have htdiv : (-(m : ℤ)).tdiv (blockSize : ℕ) = -((m / 4096 : ℕ) : ℤ) := by
    rw [Int.neg_tdiv, Int.tdiv_eq_ediv_of_nonneg (by omega), ← Int.natCast_ediv]
  have htmod : (-(m : ℤ)).tmod (blockSize : ℕ) = -((m % 4096 : ℕ) : ℤ) := by
    rw [Int.neg_tmod, Int.tmod_eq_emod_of_nonneg (by omega)]
    rfl
  rw [hlong]
  unfold sacRead
  refine vwp_bind (vwp_readNode hn.1 (h.node n hn).named fun node hnode => ?_)
  have hfs : node.fileSize = (v.inode n).fileSize := by rw [← hnode]; rfl
  have hnode_state : node.state = 1 := by
    rw [← hnode] at hstate
    exact hstate
  have hnode_ptr : node.indirectPointerBlock 0 ≠ 0 := by
    rw [← hnode] at hptr
    exact hptr
  dsimp only
  rw [if_neg (by simp [hnode_state]), if_neg hnode_ptr, hi32, i32_of_lt (by omega),
    if_neg (by omega), htdiv, htmod]
  by_cases hfar : m < 4096
  · -- the block is the first one, and the position in it is negative
    have hcut : (if Abi.ilp32.sizeT ((count : ℤ) + -(m : ℤ)) > node.fileSize then
        Abi.ilp32.sizeT ((node.fileSize : ℤ) - -(m : ℤ)) else count) ≠ 0 := by
      by_cases hgt : Abi.ilp32.sizeT ((count : ℤ) + -(m : ℤ)) > node.fileSize
      · rw [if_pos hgt]
        simp only [Abi.sizeT, Abi.sizeofSizeT]
        omega
      · rw [if_neg hgt]
        simp only [Abi.sizeT, Abi.sizeofSizeT] at hgt
        omega
    apply vwp_bind_of (vwp_anything _) (fun _ _ _ => trivial)
    intro b w _
    generalize (if Abi.ilp32.sizeT ((count : ℤ) + -(m : ℤ)) > node.fileSize then
        Abi.ilp32.sizeT ((node.fileSize : ℤ) - -(m : ℤ)) else count) = cut at hcut ⊢
    unfold leerBloques
    rw [if_pos (by omega)]
    dsimp only
    rw [if_pos (Or.inl (by omega))]
    exact vwp_bind (vwp_throw trivial)
  · have hu32 : u32 (-((m / 4096 : ℕ) : ℤ)) = 2 ^ 32 - m / 4096 := by
      unfold u32
      omega
    rw [hu32]
    exact vwp_bind (vwp_getDataBlockFromNode_past (by omega) trivial)

/-- INTERNAL: **a sum that wraps around** leaves the request uncut, and more is returned than the
file has behind the offset. SRCLINE: sacio.c:280-311 -/
theorem vwp_sacRead_wrapped (h : Core v) (hn : v.live n) (hstate : (v.inode n).state = 1)
    (hptr : (v.inode n).ptr 0 ≠ 0) (hcount : count < 2 ^ 32)
    (hoffset : offset < (v.inode n).fileSize) (hend : 2 ^ 32 ≤ offset + count) :
    vwp (sacRead .ilp32 n count (offset : ℤ)) (fun r _ => (v.inode n).fileSize ≤ r.1)
      (fun _ _ => True) v := by
  have hlt_size := fileSize_lt h hn hstate
  unfold sacRead
  refine vwp_bind (vwp_readNode hn.1 (h.node n hn).named fun node hnode => ?_)
  have hfs : node.fileSize = (v.inode n).fileSize := by rw [← hnode]; rfl
  have hnode_state : node.state = 1 := by
    rw [← hnode] at hstate
    exact hstate
  have hnode_ptr : node.indirectPointerBlock 0 ≠ 0 := by
    rw [← hnode] at hptr
    exact hptr
  dsimp only
  rw [if_neg (by simp [hnode_state]), if_neg hnode_ptr, i32_of_lt (by omega), i32_of_lt (by omega),
    if_neg (by omega)]
  apply vwp_bind_of (vwp_anything _) (fun _ _ _ => trivial)
  intro b w _
  have hcut : (if Abi.ilp32.sizeT ((count : ℤ) + (offset : ℤ)) > node.fileSize then
      Abi.ilp32.sizeT ((node.fileSize : ℤ) - (offset : ℤ)) else count) = count := by
    rw [if_neg]
    simp only [Abi.sizeT, Abi.sizeofSizeT]
    omega
  rw [hcut]
  apply vwp_bind_of (vwp_leerBloques_ge _ _ _ _ _ _ _) (fun _ _ _ => trivial)
  intro r w' hr
  refine vwp_bind_of (vwp_anything _) (fun _ _ _ => trivial) fun _ w'' _ => vwp_pure ?_
  dsimp only
  omega

/-- INTERNAL: the message of the reply is 0 in every case. SRCLINE: fs_sac.c:28-29 -/
theorem vwp_fsSacRead_messageId {abi : Abi} {off : ℤ} :
    vwp (FsSac.sacRead abi n count off) (fun reply _ => reply.messageId = 0)
      (fun _ _ => True) v :=
  vwp_fsSacRead (vwp_anything _) (fun _ _ _ _ _ => rfl) fun _ _ _ _ => trivial

/-- INTERNAL: **a reply with more than the file has** behind the offset. -/
theorem not_fileReply {reply : Package} (hid : reply.messageId = 0)
    (hsize : reply.size ≠ min count ((v.inode n).fileSize - offset)) :
    ¬ FileReply v n count offset reply :=
  fun hreply => hsize (hreply.file hid).2.2.1

/-- **The reply to a READ is the requested bytes** exactly when the request is in range: with
four-byte pointers; with eight-byte ones being in range is enough. SRCLINE: fs_sac.c:23-31,
sacio.c:248-313 -/
theorem read_reply_iff (abi : Abi) {s : SacState} {n count offset : ℕ} (h : Core (viewOf s))
    (hcount : count < 2 ^ 32) (hoffset : offset < 2 ^ 32) :
    (InRange abi (viewOf s) n count offset → ReadAnswered abi s n count offset) ∧
    (abi = .ilp32 → ReadAnswered abi s n count offset → InRange abi (viewOf s) n count offset) := by
  refine ⟨readAnswered_of_inRange h hcount, ?_⟩
  rintro rfl ⟨reply, s', hok, hreply⟩
  generalize hv : viewOf s = v at *
  -- what holds of every run holds of this one
  have hrun : ∀ Q : Package → View → Prop,
      vwp (FsSac.sacRead .ilp32 n count (Abi.ilp32.long offset)) Q (fun _ _ => True) v →
        Q reply (viewOf s') := fun Q hQ =>
    wp_of_ok (Q := fun a s'' => Q a (viewOf s'')) (hQ s hv) hok
  have hid := hrun _ vwp_fsSacRead_messageId
  obtain ⟨hn, hstate, -, -⟩ := hreply.file hid
  have hlt_size := fileSize_lt h hn hstate
  have hempty : (v.inode n).ptr 0 = 0 → count = 0 := by
    intro hptr
    have hsize : (v.inode n).fileSize = 0 := ((h.node n hn).file hstate).empty hptr
    have hreply_size := hrun (fun reply _ => reply.size = count)
      (vwp_fsSacRead (R := fun r _ => r.1 = 256 ^ 4 - 1)
        (vwp_sacRead_noPointer h hn hstate hptr rfl)
        (fun data r w hr _ => by
          dsimp only [replyOf]
          rw [hr, if_neg (by omega), Nat.mod_eq_of_lt hcount]) fun _ _ _ _ => trivial)
    by_contra hne
    exact not_fileReply hid (by rw [hreply_size, hsize]; omega) hreply
  have hstart : (v.inode n).ptr 0 ≠ 0 → offset < 2 ^ 31 := by
    intro hptr
    by_contra hge
    exact hrun (fun _ _ => False) (vwp_fsSacRead
      (vwp_sacRead_negative h hn hstate hptr (by omega) hoffset)
      (fun _ _ _ hf _ => hf) fun _ _ _ _ => trivial)
  refine ⟨hn, hstate, hempty, hstart, fun hptr hlt => ?_⟩
  by_contra hend
  have hend : 2 ^ 32 ≤ offset + count := Nat.not_lt.mp hend
  rw [long_of_lt (hstart hptr)] at hrun
  have hreply_size := hrun (fun reply _ => (v.inode n).fileSize ≤ reply.size)
    (vwp_fsSacRead (vwp_sacRead_wrapped h hn hstate hptr hcount hlt hend)
      (fun data r w hr _ => by simp only [replyOf]; split <;> omega) fun _ _ _ _ => trivial)
  exact not_fileReply hid (by omega) hreply

/-- The statement on a new disk: a READ of a slot that holds no node is answered with bytes. -/
theorem read_reply_unused_slot : ¬ ReadAnswered .ilp32 newDisk 1 1 0 := by
  have hfresh := fresh_of_formatted formatted_newDisk
  intro h
  have hr := (read_reply_iff .ilp32 hfresh.inv.1.toCore (by decide) (by decide)).2 rfl h
  exact absurd (hfresh.live.mp hr.live) (by decide)

/-- A READ of the root directory of a new disk is answered with message 0. SRCLINE:
fs_sac.c:23-31, sacio.c:255-259 -/
theorem read_reply_root_directory : ¬ ReadAnswered .ilp32 newDisk 0 1 0 := by
  have hfresh := fresh_of_formatted formatted_newDisk
  rintro ⟨reply, s', hok, hreply⟩
  have hid : reply.messageId = 0 :=
    wp_of_ok (Q := fun reply _ => reply.messageId = 0)
      (vwp_fsSacRead_messageId (v := viewOf newDisk) newDisk rfl) hok
  have hstate := (hreply.file hid).2.1
  rw [hfresh.inv.1.root] at hstate
  exact absurd hstate (by decide)

end Wrong

end LinuseFs.Analysis
