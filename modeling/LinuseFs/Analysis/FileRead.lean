import LinuseFs.Analysis.FileWrite

/-!
# Reading a file

`sac_read` cuts the request to the file and then copies one block after the other.  It
changes nothing: the node is written back as it was read.
-/

set_option autoImplicit false

namespace LinuseFs.Analysis

open LinuseFs.Computation LinuseFs.Model LinuseFs.Interface

/-- The `count` bytes of the file `n` from `offset` on. -/
def bytesFrom (v : View) (n offset count : ℕ) : List UInt8 :=
  (List.range count).map fun i => byteAt v n (offset + i)

theorem bytesFrom_add (v : View) (n offset a b : ℕ) :
    bytesFrom v n offset (a + b) = bytesFrom v n offset a ++ bytesFrom v n (offset + a) b := by
  unfold bytesFrom
  rw [List.range_add, List.map_append, List.map_map]
  congr 1
  apply List.map_congr_left
  intro i _
  simp only [Function.comp_apply, Nat.add_assoc]

/-- INTERNAL: bytes inside the file are a piece of its contents. -/
theorem bytesFrom_eq {v : View} {n offset count : ℕ}
    (hcount : offset + count ≤ (v.inode n).fileSize) :
    bytesFrom v n offset count = ((content v n).drop offset).take count := by
  apply List.ext_getElem?
  intro i
  simp only [bytesFrom, content, List.getElem?_take, List.getElem?_drop, List.getElem?_map]
  by_cases hi : i < count
  · rw [if_pos hi, List.getElem?_range hi, List.getElem?_range (by omega)]
    rfl
  · rw [if_neg hi, List.getElem?_eq_none (by rw [List.length_range]; omega)]
    rfl

section Loop

variable {v : View} {E : Fault → View → Prop} {n : ℕ} {node : Node} {abi : Abi}

theorem sizeT_natCast {k : ℕ} (hk : k < 2 ^ 32) : abi.sizeT (k : ℤ) = k := by
  cases abi <;> simp only [Abi.sizeT, Abi.sizeofSizeT] <;> omega

/-- INTERNAL: how much one round reads: up to the end of the block, or what is left.
SRCLINE: sacio.c:290-297 -/
theorem datosALeer_eq {count leidos byte size : ℕ} (hbyte : byte < 4096) (hcount : count < 2 ^ 31)
    (hleidos : leidos < count) (hbyte_size : byte < size)
    (hsmall : size < 4096 → byte + (count - leidos) ≤ size) :
    (if count - leidos > abi.sizeT
        (((if blockSize > size then size else blockSize : ℕ) : ℤ) - (byte : ℤ)) then
      ((if blockSize > size then size else blockSize : ℕ) : ℤ) - (byte : ℤ)
      else i32 ((count : ℤ) - (leidos : ℤ))) = ((min (count - leidos) (4096 - byte) : ℕ) : ℤ) := by
  have hi32 : i32 ((count : ℤ) - (leidos : ℤ)) = ((count - leidos : ℕ) : ℤ) := by
    rw [show (count : ℤ) - (leidos : ℤ) = ((count - leidos : ℕ) : ℤ) by omega]
    exact i32_of_lt (by omega)
  rw [hi32]
  by_cases hsize : 4096 > size
  · rw [if_pos (show blockSize > size from hsize)]
    have := hsmall hsize
    rw [show (size : ℤ) - (byte : ℤ) = ((size - byte : ℕ) : ℤ) by omega,
      sizeT_natCast (by omega), if_neg (by omega)]
    congr 1
    omega
  · rw [if_neg (show ¬ blockSize > size from hsize),
      show ((blockSize : ℕ) : ℤ) - (byte : ℤ) = ((4096 - byte : ℕ) : ℤ) by
        simp only [blockSize]; omega, sizeT_natCast (by omega)]
    split <;> congr 1 <;> omega

/-- INTERNAL: **the copy loop of `sac_read`**; the induction is on the rounds that are left.
SRCLINE: sacio.c:289-311 -/
theorem vwp_leerBloques {Q : ℕ × List UInt8 → View → Prop} (h : Core v) (hn : v.live n)
    (hstate : (v.inode n).state = 1) (hptr : (v.inode n).ptr 0 ≠ 0)
    (hnode : inodeOfNode node = v.inode n) {bloqueInicio count : ℕ} (offset : ℕ)
    (habi : abi = .ilp32 ∨ offset + count ≤ 4096)
    (hcount : offset + count ≤ (v.inode n).fileSize) (rounds : ℕ) (bloque : ℕ) (byte : ℤ)
    (leidos bloques : ℕ) (hrounds : count - leidos < rounds) (hleidos : leidos ≤ count)
    (hpos : leidos < count → bloque = v.place n (.data ((offset + leidos) / 4096)) ∧
      byte = ((offset + leidos) % 4096 : ℕ) ∧ bloqueInicio + bloques = (offset + leidos) / 4096)
    (hQ : Q (count, bytesFrom v n offset count) v) :
    vwp (leerBloques abi node bloqueInicio count rounds bloque byte leidos bloques
      (bytesFrom v n offset leidos)) Q E v := by
  have hsize := fileSize_lt h hn hstate
  have hfs : node.fileSize = (v.inode n).fileSize := by rw [← hnode]; rfl
  induction rounds generalizing bloque byte leidos bloques with
  | zero => omega
  | succ rounds ih =>
    unfold leerBloques
    by_cases hdone : leidos < count
    swap
    · rw [if_neg hdone]
      obtain rfl : leidos = count := by omega
      exact vwp_pure hQ
    rw [if_pos hdone]
    obtain ⟨rfl, rfl, hbloques⟩ := hpos hdone
    have hdiv : ∀ i, i ≤ (v.inode n).fileSize → v.held n (.data (i / 4096)) :=
      fun i hi => held_of_div_le hn hstate hptr (Nat.div_le_div_right hi)
    obtain ⟨hb, hb', -⟩ := h.inData (hdiv (offset + leidos) (by omega))
    dsimp only
    rw [hfs, datosALeer_eq (Nat.mod_lt _ (by decide)) (by omega) hdone (by omega) (by omega)]
    generalize ht : min (count - leidos) (4096 - (offset + leidos) % 4096) = t
    rw [if_neg (by omega), Int.toNat_natCast, Int.toNat_natCast]
    refine vwp_bind (vwp_load hb hb' (by omega) ?_)
    -- the bytes of this round are those of the file behind the ones already read
    have hbytes : (List.range t).map (fun i => v.data
        (v.place n (.data ((offset + leidos) / 4096))) ((offset + leidos) % 4096 + i)) =
        bytesFrom v n (offset + leidos) t := by
      apply List.map_congr_left
      intro i hi
      rw [List.mem_range] at hi
      rw [byteAt, show (offset + leidos + i) / 4096 = (offset + leidos) / 4096 by omega,
        show (offset + leidos + i) % 4096 = (offset + leidos) % 4096 + i by omega]
    rw [hbytes, ← bytesFrom_add]
    by_cases hend : leidos + t ≥ (v.inode n).fileSize
    · rw [if_pos hend]
      obtain he : leidos + t = count := by omega
      rw [he]
      exact vwp_pure hQ
    rw [if_neg hend]
    by_cases hmore : leidos + t < count
    · rw [if_pos hmore]
      have hnext : bloqueInicio + (bloques + 1) = (offset + (leidos + t)) / 4096 := by omega
      have hheld := hdiv (offset + (leidos + t)) (by omega)
      obtain ⟨hd, hd', -⟩ := h.inData hheld
      obtain ⟨hp, hp', -⟩ := h.inData_ptr hn ((h.node n hn).refers_ptr hheld.2)
      have hle := h.blocks_le hn
      have hlt : (offset + (leidos + t)) / 4096 < (v.inode n).blocks := hheld.2
      rw [hnext]
      rw [← hnode] at hp hp'
      have hblock : v.dataBlock (inodeOfNode node) ((offset + (leidos + t)) / 4096) =
          v.place n (.data ((offset + (leidos + t)) / 4096)) := by rw [hnode]; rfl
      refine vwp_bind (vwp_getDataBlockFromNode (habi.imp_right fun _ => by omega) (by omega) hp hp'
        (by rw [hblock]; exact hd') ?_)
      rw [hblock]
      have hzero : (offset + (leidos + t)) % 4096 = 0 := by omega
      refine ih _ 0 (leidos + t) (bloques + 1) (by omega) (by omega) fun _ => ⟨rfl, ?_, hnext⟩
      rw [hzero]
      rfl
    · rw [if_neg hmore]
      exact ih _ _ (leidos + t) bloques (by omega) (by omega) fun hlt => absurd hlt hmore

/-- INTERNAL: **the request is cut to the file**, when its end is a `size_t`. SRCLINE:
sacio.c:280-283 -/
theorem count_cut {count offset size : ℕ} (hoffset : offset < size) (hsize : size < 2 ^ 31)
    (hcount : count < 2 ^ 32) (hend : abi = .ilp32 → offset + count < 2 ^ 32) :
    (if abi.sizeT ((count : ℤ) + (offset : ℤ)) > size then abi.sizeT ((size : ℤ) - (offset : ℤ))
      else count) = min count (size - offset) := by
  have hsum : abi.sizeT ((count : ℤ) + (offset : ℤ)) = count + offset := by
    cases abi with
    | ilp32 =>
      have := hend rfl
      rw [show (count : ℤ) + (offset : ℤ) = ((count + offset : ℕ) : ℤ) by push_cast; rfl]
      exact sizeT_natCast (by omega)
    | lp64 =>
      simp only [Abi.sizeT, Abi.sizeofSizeT]
      omega
  rw [hsum, show (size : ℤ) - (offset : ℤ) = ((size - offset : ℕ) : ℤ) by omega,
    sizeT_natCast (by omega)]
  split <;> omega

/-- INTERNAL: **`sac_read`** returns the bytes of the file from the offset on, as many as there
are and were asked for: with four-byte pointers when the end of the request is a `size_t`, with
eight-byte ones inside the first block. SRCLINE: sacio.c:248-313 -/
theorem vwp_sacRead {Q : ℕ × List UInt8 → View → Prop} (h : Core v)
    (hn : v.live n) (hstate : (v.inode n).state = 1) (hptr : (v.inode n).ptr 0 ≠ 0)
    {count offset : ℕ} (hcount : count < 2 ^ 32) (hoffset : offset < 2 ^ 31)
    (habi : offset < (v.inode n).fileSize →
      abi = .ilp32 ∧ offset + count < 2 ^ 32 ∨
      abi = .lp64 ∧ offset < 4096 ∧ min (offset + count) (v.inode n).fileSize ≤ 4096)
    (hQ : ∀ l, l = ((content v n).drop offset).take count → Q (l.length, l) v) :
    vwp (sacRead abi n count (offset : ℤ)) Q E v := by
  have hlt_size := fileSize_lt h hn hstate
  unfold sacRead
  refine vwp_bind (vwp_readNode hn.1 (h.node n hn).named fun node hnode => ?_)
  have hfits := (h.node n hn).fits
  have hfs : node.fileSize = (v.inode n).fileSize := by rw [← hnode]; rfl
  have hnode_state : node.state = 1 := by
    rw [← hnode] at hstate
    exact hstate
  have hnode_ptr : node.indirectPointerBlock 0 ≠ 0 := by
    rw [← hnode] at hptr
    exact hptr
  have hback : ∀ {α : Type} {f : Unit → Sac α} {Q : α → View → Prop}, vwp (f ()) Q E v →
      vwp (unmapAndDestroyNode node (2 + n) >>= f) Q E v := by
    intro α f Q hf
    refine vwp_bind (vwp_unmapAndDestroyNode hn.1 (hnode ▸ hfits) ?_)
    rw [hnode, View.setInode_self]
    exact hf
  dsimp only
  rw [if_neg (by simp [hnode_state]), if_neg hnode_ptr, i32_of_lt hoffset, i32_of_lt (by omega)]
  by_cases hpast : offset ≥ (v.inode n).fileSize
  · rw [if_pos (by rw [hfs]; exact_mod_cast hpast)]
    refine hback (vwp_pure (hQ [] ?_))
    rw [List.drop_eq_nil_of_le (by rw [length_content]; exact hpast), List.take_nil]
  rw [if_neg (by rw [hfs]; exact_mod_cast hpast)]
  have habi := habi (by omega)
  have hdiv : u32 ((offset : ℤ).tdiv (blockSize : ℕ)) = offset / 4096 := by
    rw [Int.tdiv_eq_ediv_of_nonneg (by omega), ← Int.natCast_ediv]
    exact u32_natCast_of_lt (show offset / 4096 < 2 ^ 32 by omega)
  have hmod : (offset : ℤ).tmod (blockSize : ℕ) = (offset % 4096 : ℕ) := by
    rw [Int.tmod_eq_emod_of_nonneg (by omega)]
    rfl
  have hend : abi = .ilp32 → offset + count < 2 ^ 32 := by
    rintro rfl
    rcases habi with ⟨-, hlt⟩ | ⟨habi, -⟩
    · exact hlt
    · cases habi
  rw [hdiv, hmod, hfs, count_cut (by omega) (by omega) hcount hend]
  have hheld := held_of_div_le hn hstate hptr (i := offset) (Nat.div_le_div_right (by omega))
  obtain ⟨hd, hd', -⟩ := h.inData hheld
  obtain ⟨hp, hp', -⟩ := h.inData_ptr hn ((h.node n hn).refers_ptr hheld.2)
  have hle := h.blocks_le hn
  have hlt_blocks : offset / 4096 < (v.inode n).blocks := hheld.2
  rw [← hnode] at hp hp'
  have hblock : v.dataBlock (inodeOfNode node) (offset / 4096) =
      v.place n (.data (offset / 4096)) := by rw [hnode]; rfl
  have hfirst : abi = .ilp32 ∨ offset / 4096 % 1024 = 0 :=
    habi.imp (fun hi => hi.1) fun hi => by omega
  have hwhole : abi = .ilp32 ∨ offset + min count ((v.inode n).fileSize - offset) ≤ 4096 :=
    habi.imp (fun hi => hi.1) fun hi => by omega
  refine vwp_bind (vwp_getDataBlockFromNode hfirst (by omega) hp hp'
    (by rw [hblock]; exact hd') ?_)
  rw [hblock]
  have hstart : ([] : List UInt8) = bytesFrom v n offset 0 := rfl
  rw [hstart]
  refine vwp_bind (vwp_leerBloques h hn hstate hptr hnode offset hwhole (by omega) _ _ _
    0 0 (Nat.lt_succ_self _) (Nat.zero_le _) (fun _ => ⟨rfl, rfl, rfl⟩) ?_)
  have hbytes : bytesFrom v n offset (min count ((v.inode n).fileSize - offset)) =
      ((content v n).drop offset).take count := by
    rw [bytesFrom_eq (by omega), List.take_eq_take_iff, List.length_drop, length_content]
    omega
  refine hback (vwp_pure ?_)
  have := hQ _ hbytes
  rwa [show (bytesFrom v n offset (min count ((v.inode n).fileSize - offset))).length =
    min count ((v.inode n).fileSize - offset) by simp [bytesFrom]] at this

end Loop

end LinuseFs.Analysis
