import LinuseFs.Analysis.FileWrite
import LinuseFs.Computation.Lookups

/-!
# The slots that a write uses

Which blocks of a file `sac_write` looks up, and for which numbers it takes new ones, depends on
little: which pointers are set, the size, how many blocks are free, the offset and the count.
`Slots.write` lists them, in the order of the loops.
-/

set_option autoImplicit false

namespace LinuseFs.Analysis

open LinuseFs.Computation LinuseFs.Model LinuseFs.Interface

/-- What the slots of a file depend on: which pointers are set, the size, and how many data blocks
are free. -/
structure Slots where
  isSet : ℕ → Bool
  size : ℕ
  free : ℕ

/-- The slots of a file with the node `nd`. -/
def slotsOf (v : View) (nd : Inode) : Slots where
  isSet i := nd.ptr i != 0
  size := nd.fileSize
  free := freeCount v.used 34 3000

namespace Slots

/-- The number of pointers before the first zero one. -/
def leading (s : Slots) : ℕ := (firstFree s.isSet pointersPerNode 0).getD pointersPerNode

/-- The number of the block that `add_data_block_to_node` takes, by the slot that it goes into.
SRCLINE: node.c:85-127 -/
def next (s : Slots) : ℕ :=
  if s.size / 4096 + 1 < 1024 * s.leading then
    1024 * (s.leading - 1) + (s.size / 4096 + 1) % 1024
  else 1024 * s.leading

/-- The blocks that this takes: the data block, and a pointer block if there is none for it. -/
def needs (s : Slots) : ℕ := if s.size / 4096 + 1 < 1024 * s.leading then 1 else 2

/-- The slots behind it. -/
def taken (s : Slots) : Slots where
  isSet :=
    if s.size / 4096 + 1 < 1024 * s.leading then s.isSet else Function.update s.isSet s.leading true
  size := s.size
  free := s.free - s.needs

def resize (s : Slots) (size : ℕ) : Slots := { s with size := size }

/-- A block is taken, or there is none. -/
def take (s : Slots) (rest : Slots → List (KeyUse ℕ)) : List (KeyUse ℕ) :=
  if s.free < s.needs then [.stop] else .add s.next :: rest s.taken

/-- The fill loop, and what comes behind it.  It counts blocks modulo 1024. SRCLINE:
sacio.c:181-200 -/
def fill (rest : Slots → List (KeyUse ℕ)) : ℕ → ℕ → Slots → List (KeyUse ℕ)
  | 0, _, _ => []
  | rounds + 1, offset, s =>
    if s.size < offset then
      let cant := min offset 4096 - s.size % 4096
      .lookUp (s.size / 4096 % 1024) ::
        if s.size % 4096 + cant = 4096 ∧ cant < offset then
          (s.resize (s.size + cant)).take fun s' => fill rest rounds (offset - cant) s'
        else fill rest rounds (offset - cant) (s.resize (s.size + cant))
    else rest s

/-- The copy loop. SRCLINE: sacio.c:204-242 -/
def copy (orig : ℤ) (offset count : ℕ) : ℕ → ℕ → Slots → List (KeyUse ℕ)
  | 0, _, _ => []
  | rounds + 1, escritos, s =>
    if escritos < count then
      let cant := min (count - escritos) (4096 - (offset + escritos) % 4096)
      .lookUp ((offset + escritos) / 4096) ::
        if (offset + escritos) % 4096 + cant = 4096 then
          s.take fun s' => copy orig offset count rounds (escritos + cant)
            (s'.resize (newSize orig s'.size (offset + (escritos + cant))))
        else copy orig offset count rounds (escritos + cant)
          (s.resize (newSize orig s.size (offset + (escritos + cant))))
    else []

/-- Both loops. -/
def loops (offset count : ℕ) (s : Slots) : List (KeyUse ℕ) :=
  fill (fun s' => copy (i32 s'.size) offset count (count + 1) 0 s') (offset + 1) offset s

/-- `sac_write`, which takes the first block of a file before. SRCLINE: sacio.c:152-246 -/
def write (offset count : ℕ) (s : Slots) : List (KeyUse ℕ) :=
  if s.isSet 0 then s.loops offset count else s.take (loops offset count)

end Slots

-- a byte at offset 5000 of a file of 4097 bytes: the fill loop takes block 3, not block 2
example : Slots.write 5000 1 { isSet := fun i => i == 0, size := 4097, free := 100 } =
    [.lookUp 1, .add 3, .lookUp 1] := rfl

/-- A slot of the pointer block `i` is looked at or set. -/
def GoesThrough (uses : List (KeyUse ℕ)) (i : ℕ) : Prop :=
  ∃ k, (.lookUp k ∈ uses ∨ .add k ∈ uses) ∧ k / 1024 = i

/-- The size that the fill loop leaves. SRCLINE: sacio.c:181-200 -/
def filledSize : ℕ → ℕ → ℕ → ℕ
  | 0, size, _ => size
  | rounds + 1, size, offset =>
    if size < offset then
      filledSize rounds (size + (min offset 4096 - size % 4096))
        (offset - (min offset 4096 - size % 4096))
    else size

/-- The size that `sac_write` leaves. SRCLINE: sacio.c:152-246 -/
def writtenSize (size offset count : ℕ) : ℕ :=
  let filled := filledSize (offset + 1) size offset
  if count = 0 then filled else newSize (i32 filled) filled (offset + count)

section Slots

variable {s : Slots} {rest : Slots → List (KeyUse ℕ)} {orig : ℤ}
  {offset count rounds escritos size : ℕ}

theorem filledSize_of_le (h : offset ≤ size) : filledSize rounds size offset = size := by
  cases rounds with
  | zero => rfl
  | succ rounds => rw [filledSize, if_neg (not_lt.mpr h)]

theorem Slots.fill_of_le (h : offset ≤ s.size) :
    Slots.fill rest (rounds + 1) offset s = rest s := by
  rw [Slots.fill, if_neg (not_lt.mpr h)]

theorem Slots.copy_of_le (h : count ≤ escritos) :
    Slots.copy orig offset count rounds escritos s = [] := by
  cases rounds with
  | zero => rfl
  | succ rounds => rw [Slots.copy, if_neg (not_lt.mpr h)]

/-- INTERNAL: what comes behind a block that is taken, if there is one. -/
theorem Slots.take_congr {rest' : Slots → List (KeyUse ℕ)} (h : rest s.taken = rest' s.taken) :
    s.take rest = s.take rest' := by
  rw [Slots.take, Slots.take, h]

theorem Slots.needs_le : s.needs ≤ 2 := by
  rw [Slots.needs]
  split <;> omega

theorem Slots.free_le : s.free ≤ s.taken.free + 2 := by
  have hneeds := Slots.needs_le (s := s)
  change s.free ≤ s.free - s.needs + 2
  omega

/-- INTERNAL: it stops for want of two free blocks, or behind the block that is taken. -/
theorem Slots.stop_of_take (h : .stop ∈ s.take rest) : s.free < 2 ∨ .stop ∈ rest s.taken := by
  have hneeds := Slots.needs_le (s := s)
  rw [Slots.take] at h
  split at h
  · exact Or.inl (by omega)
  · exact Or.inr (by simpa using h)

/-- INTERNAL: a block that is looked up while one is taken is looked up behind it. -/
theorem Slots.lookUp_of_take {k : ℕ} (h : .lookUp k ∈ s.take rest) : .lookUp k ∈ rest s.taken := by
  rw [Slots.take] at h
  split at h
  · simp at h
  · simpa using h

/-- INTERNAL: **the copy loop looks up the blocks of the bytes of the buffer.** -/
theorem Slots.exists_of_lookUp_copy {k : ℕ}
    (h : .lookUp k ∈ Slots.copy orig offset count rounds escritos s) :
    ∃ i < count, k = (offset + i) / 4096 := by
  induction rounds generalizing escritos s with
  | zero => simp [Slots.copy] at h
  | succ rounds ih =>
    by_cases hmore : escritos < count
    · rw [Slots.copy, if_pos hmore] at h
      dsimp only at h
      rw [List.mem_cons] at h
      rcases h with h | h
      · cases h
        exact ⟨escritos, hmore, rfl⟩
      · split at h
        · have hrest := Slots.lookUp_of_take h
          exact ih hrest
        · exact ih h
    · rw [Slots.copy_of_le (not_lt.mp hmore)] at h
      simp at h

/-- INTERNAL: the copy loop stops only if less is free than the blocks that it fills may take. -/
theorem Slots.free_lt_of_stop_copy (hescritos : escritos ≤ count)
    (h : .stop ∈ Slots.copy orig offset count rounds escritos s) :
    s.free < 2 * (((offset + escritos) % 4096 + (count - escritos)) / 4096) := by
  induction rounds generalizing escritos s with
  | zero => simp [Slots.copy] at h
  | succ rounds ih =>
    by_cases hmore : escritos < count
    swap
    · rw [Slots.copy_of_le (not_lt.mp hmore)] at h
      simp at h
    rw [Slots.copy, if_pos hmore] at h
    dsimp only at h
    generalize hcant : min (count - escritos) (4096 - (offset + escritos) % 4096) = cant at h
    rw [List.mem_cons] at h
    rcases h with h | h
    · cases h
    split at h
    next hfull =>
      rcases Slots.stop_of_take h with hfew | hlater
      · omega
      · have hrest := ih (by omega) hlater
        have hfree := Slots.free_le (s := s)
        change s.taken.free < _ at hrest
        omega
    next hpart =>
      have hrest := ih (by omega) h
      change s.free < _ at hrest
      omega

end Slots

/-! ## The slots of a node -/

section Node

variable {w : View} {node : Node} {x y p j : ℕ}

theorem slotsOf_needs_of_lt (h : node.fileSize / 4096 + 1 < 1024 * node.leadingPointers) :
    (slotsOf w (inodeOfNode node)).needs = 1 := if_pos h

theorem slotsOf_needs_of_le (h : 1024 * node.leadingPointers ≤ node.fileSize / 4096 + 1) :
    (slotsOf w (inodeOfNode node)).needs = 2 := if_neg (not_lt.mpr h)

theorem slotsOf_next_of_lt (h : node.fileSize / 4096 + 1 < 1024 * node.leadingPointers) :
    (slotsOf w (inodeOfNode node)).next =
      1024 * (node.leadingPointers - 1) + (node.fileSize / 4096 + 1) % 1024 := if_pos h

theorem slotsOf_next_of_le (h : 1024 * node.leadingPointers ≤ node.fileSize / 4096 + 1) :
    (slotsOf w (inodeOfNode node)).next = 1024 * node.leadingPointers := if_neg (not_lt.mpr h)

/-- INTERNAL: the slots behind a block in the last leading pointer block. -/
theorem slotsOf_taken_of_lt (h : node.fileSize / 4096 + 1 < 1024 * node.leadingPointers)
    (hx : 34 ≤ x) (hx' : x < 3000) (hfree : w.used x = false) :
    slotsOf (setSlot (w.setUsed x true) p j x) (inodeOfNode node) =
      (slotsOf w (inodeOfNode node)).taken := by
  have hone := View.freeCount_setUsed_free hx hx' hfree
  have hset : (slotsOf w (inodeOfNode node)).taken.isSet = (slotsOf w (inodeOfNode node)).isSet :=
    if_pos h
  have hcount : freeCount (w.setUsed x true).used 34 3000 =
      (slotsOf w (inodeOfNode node)).taken.free := by
    change _ = freeCount w.used 34 3000 - (slotsOf w (inodeOfNode node)).needs
    rw [slotsOf_needs_of_lt h]
    omega
  unfold slotsOf
  rw [setSlot_used, hcount]
  exact congrArg (fun isSet => Slots.mk isSet _ _) hset.symm

/-- INTERNAL: the slots behind a block in a new pointer block. -/
theorem slotsOf_taken_of_le (h : 1024 * node.leadingPointers ≤ node.fileSize / 4096 + 1)
    (hx : 34 ≤ x) (hx' : x < 3000) (hfree : w.used x = false) (hy : 34 ≤ y) (hy' : y < 3000)
    (hyfree : w.used y = false) (hxy : x ≠ y) :
    slotsOf (setSlot ((w.setUsed y true).setUsed x true) y 0 x)
      { inodeOfNode node with
        ptr := Function.update node.indirectPointerBlock node.leadingPointers y } =
      (slotsOf w (inodeOfNode node)).taken := by
  have hone := View.freeCount_setUsed_free hy hy' hyfree
  have htwo := View.freeCount_setUsed_free hx hx' ((View.setUsed_ne true hxy).trans hfree)
  have hset : (slotsOf w (inodeOfNode node)).taken.isSet =
      Function.update (slotsOf w (inodeOfNode node)).isSet node.leadingPointers true :=
    if_neg (not_lt.mpr h)
  have hcount : freeCount ((w.setUsed y true).setUsed x true).used 34 3000 =
      (slotsOf w (inodeOfNode node)).taken.free := by
    change _ = freeCount w.used 34 3000 - (slotsOf w (inodeOfNode node)).needs
    rw [slotsOf_needs_of_le h]
    omega
  have hupdate : (fun i => Function.update node.indirectPointerBlock node.leadingPointers y i !=
      0) = (slotsOf w (inodeOfNode node)).taken.isSet := by
    rw [hset]
    funext i
    by_cases hi : i = node.leadingPointers
    · subst hi
      rw [Function.update_self, Function.update_self, bne_iff_ne]
      omega
    · rw [Function.update_of_ne hi, Function.update_of_ne hi]
      rfl
  unfold slotsOf
  rw [setSlot_used, hcount]
  exact congrArg (fun isSet => Slots.mk isSet _ _) hupdate

end Node

end LinuseFs.Analysis
