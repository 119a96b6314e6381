import LinuseFs.Model.Disk

/-!
# Reserving and releasing blocks

`bitmap.c`.  The commons bit array reads, sets and clears the addressed bit; an index
past the `BITMAP_SIZE` bytes is an access outside the array.
-/

set_option autoImplicit false

namespace LinuseFs.Model

open LinuseFs.Computation

/-- `block_is_free`. SRCLINE: bitmap.c:20-22 -/
def blockIsFree (s : SacState) (blockNumber : ℕ) : Bool := !s.used blockNumber

/-- `bitarray_set_bit(bitmap, n)`. -/
def bitarraySetBit (n : ℕ) : Sac Unit := do
  if n < bitmapSize * 8 then
    modify fun s => { s with bitmap := setBit s.bitmap n }
  else throw .memory

/-- `bitarray_clean_bit(bitmap, n)`. -/
def bitarrayCleanBit (n : ℕ) : Sac Unit := do
  if n < bitmapSize * 8 then
    modify fun s => { s with bitmap := cleanBit s.bitmap n }
  else throw .memory

/-- `free_block`. SRCLINE: bitmap.c:25-27 -/
def freeBlock (blockNumber : ℕ) : Sac Unit := bitarrayCleanBit blockNumber

/-- `_get_free_block`.  The scan has no bound of its own: past the last bit of the bitmap
it reads foreign memory, which is the fault `pastBitmap`. SRCLINE: bitmap.c:29-38 -/
def getFreeBlock (fromBlockNum toBlockNum : ℕ) : Sac ℕ := do
  let s ← get
  match firstFree (fun b => !blockIsFree s b) (bitmapSize * 8 - fromBlockNum) fromBlockNum with
  | none => throw .pastBitmap
  | some bitIndex =>
    if bitIndex ≥ toBlockNum then throw .noBlocks
    else do
      bitarraySetBit bitIndex
      return bitIndex

/-- `get_free_node_block`. SRCLINE: bitmap.c:10-12 -/
def getFreeNodeBlock : Sac ℕ :=
  getFreeBlock nodeTableInitialBlock (nodeTableInitialBlock + nodeTableBlocks)

/-- `get_free_data_block`. SRCLINE: bitmap.c:15-17 -/
def getFreeDataBlock : Sac ℕ :=
  getFreeBlock (nodeTableInitialBlock + nodeTableBlocks) totalBlocks

/-- The state after the bit of `b` was set. -/
def SacState.take (s : SacState) (b : ℕ) : SacState := { s with bitmap := setBit s.bitmap b }

/-- The state after the bit of `b` was cleared. -/
def SacState.release (s : SacState) (b : ℕ) : SacState :=
  { s with bitmap := cleanBit s.bitmap b }

@[simp] theorem take_disk (s : SacState) (b : ℕ) : (s.take b).disk = s.disk := rfl

@[simp] theorem release_disk (s : SacState) (b : ℕ) : (s.release b).disk = s.disk := rfl

theorem take_used (s : SacState) (b c : ℕ) :
    (s.take b).used c = (decide (c = b) || s.used c) := testBit_setBit _ _ _

theorem release_used (s : SacState) (b c : ℕ) :
    (s.release b).used c = (!decide (c = b) && s.used c) := testBit_cleanBit _ _ _

/-- The faults with which the allocator ends the server. -/
def Fault.IsAlloc (e : Fault) : Prop := e = .noBlocks ∨ e = .pastBitmap

theorem not_isAlloc_memory : ¬ Fault.memory.IsAlloc := by
  rintro (h | h) <;> cases h

section Rules

variable {E : Fault → SacState → Prop} {s : SacState}

theorem bitarraySetBit_wp {Q : Unit → SacState → Prop} {n : ℕ} (hn : n < 3000)
    (h : Q () (s.take n)) : wp (bitarraySetBit n) Q E s := by
  unfold bitarraySetBit
  rw [if_pos (show n < bitmapSize * 8 from hn)]
  exact h

theorem bitarrayCleanBit_wp {Q : Unit → SacState → Prop} {n : ℕ} (hn : n < 3000)
    (h : Q () (s.release n)) : wp (bitarrayCleanBit n) Q E s := by
  unfold bitarrayCleanBit
  rw [if_pos (show n < bitmapSize * 8 from hn)]
  exact h

/-- INTERNAL: **the allocator**.  It takes the lowest free block of the range and sets
its bit, or stops when the range has none. SRCLINE: bitmap.c:29-38 -/
theorem getFreeBlock_wp {Q : ℕ → SacState → Prop} {lo hi : ℕ} (hlo : lo ≤ hi)
    (hhi : hi ≤ 3000)
    (hQ : ∀ b, lo ≤ b → b < hi → s.used b = false →
      (∀ j, lo ≤ j → j < b → s.used j = true) → Q b (s.take b))
    (hE : ∀ e, e.IsAlloc → freeCount s.used lo hi = 0 → E e s) :
    wp (getFreeBlock lo hi) Q E s := by
  simp only [getFreeBlock, wp_bind, wp_get, blockIsFree, Bool.not_not, bitmapSize_eq]
  split
  next hnone =>
    rw [firstFree_eq_none_iff] at hnone
    rw [wp_throw]
    refine hE _ (Or.inr rfl) (freeCount_eq_zero_iff.mpr fun b h1 h2 => hnone b h1 (by omega))
  next b hsome =>
    obtain ⟨h1, h2, h3, h4⟩ := firstFree_eq_some_iff.mp hsome
    split
    next hge =>
      rw [wp_throw]
      exact hE _ (Or.inl rfl) (freeCount_eq_zero_iff.mpr fun c hc1 hc2 => h4 c hc1 (by omega))
    next hlt =>
      rw [wp_bind]
      exact bitarraySetBit_wp (by omega) (hQ b h1 (by omega) h3 h4)

theorem getFreeNodeBlock_wp {Q : ℕ → SacState → Prop}
    (hQ : ∀ b, 2 ≤ b → b < 34 → s.used b = false →
      (∀ j, 2 ≤ j → j < b → s.used j = true) → Q b (s.take b))
    (hE : ∀ e, e.IsAlloc → freeCount s.used 2 34 = 0 → E e s) :
    wp getFreeNodeBlock Q E s :=
  getFreeBlock_wp (by decide) (by decide) hQ hE

theorem getFreeDataBlock_wp {Q : ℕ → SacState → Prop}
    (hQ : ∀ b, 34 ≤ b → b < 3000 → s.used b = false →
      (∀ j, 34 ≤ j → j < b → s.used j = true) → Q b (s.take b))
    (hE : ∀ e, e.IsAlloc → freeCount s.used 34 3000 = 0 → E e s) :
    wp getFreeDataBlock Q E s :=
  getFreeBlock_wp (by decide) le_rfl hQ hE

end Rules

end LinuseFs.Model
