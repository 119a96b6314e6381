import LinuseFs.Model.Bitmap

/-!
# The scan for a free block

`_get_free_block` looks at the bits from the first block of its region on, and at the end of the
region only once the scan has stopped.  What stops it may be a bit of the next region; where there
is none left, the scan goes past the end of the bitmap.
-/

set_option autoImplicit false

namespace LinuseFs.Analysis

open LinuseFs.Computation LinuseFs.Model

/-- The two regions in which blocks are reserved. -/
inductive Pool
  | nodes
  | blocks
  deriving DecidableEq, Repr

namespace Pool

/-- The first block of the region. SRCLINE: bitmap.c:10-17 -/
def fromBlockNum : Pool → ℕ
  | .nodes => nodeTableInitialBlock
  | .blocks => nodeTableInitialBlock + nodeTableBlocks

/-- The block behind the region. SRCLINE: bitmap.c:10-17 -/
def toBlockNum : Pool → ℕ
  | .nodes => nodeTableInitialBlock + nodeTableBlocks
  | .blocks => totalBlocks

/-- The function that reserves a block of the region. -/
def getFree : Pool → Sac ℕ
  | .nodes => getFreeNodeBlock
  | .blocks => getFreeDataBlock

end Pool

/-- The loop of `_get_free_block` tests this bit: it starts with the first one, and goes on behind
a block that is not free. SRCLINE: bitmap.c:31 -/
inductive Tests (s : SacState) (fromBlockNum : ℕ) : ℕ → Prop
  | first : Tests s fromBlockNum fromBlockNum
  | next {bitIndex : ℕ} (h : Tests s fromBlockNum bitIndex)
    (hused : blockIsFree s bitIndex = false) : Tests s fromBlockNum (bitIndex + 1)

/-- The block is free, and no block of the region before it. -/
structure LowestFree (s : SacState) (p : Pool) (b : ℕ) : Prop where
  ge : p.fromBlockNum ≤ b
  lt : b < p.toBlockNum
  free : blockIsFree s b = true
  lowest : ∀ j, p.fromBlockNum ≤ j → j < b → blockIsFree s j = false

/-- The scan stays in the bitmap, a free block of the region is reserved, the lowest one, and
otherwise the lack of blocks is reported. -/
structure AllocatesExactly (s : SacState) (p : Pool) : Prop where
  bounded : ∀ b, Tests s p.fromBlockNum b → b < totalBlocks
  reserved : (∃ b, p.fromBlockNum ≤ b ∧ b < p.toBlockNum ∧ blockIsFree s b = true) →
    ∃ b s', p.getFree s = .ok b s' ∧ LowestFree s p b ∧ s'.disk = s.disk ∧
      ∀ c, blockIsFree s' c = (blockIsFree s c && decide (c ≠ b))
  exhausted : (∀ b, p.fromBlockNum ≤ b → b < p.toBlockNum → blockIsFree s b = false) →
    p.getFree s = .error .noBlocks s

section Scan

variable {s : SacState} {p : Pool} {lo hi b : ℕ}

/-- INTERNAL: the loop tests a bit behind blocks that are not free, by induction on its rounds. -/
theorem tests_iff : Tests s lo b ↔ lo ≤ b ∧ ∀ j, lo ≤ j → j < b → blockIsFree s j = false := by
  constructor
  · intro h
    induction h with
    | first => exact ⟨le_rfl, fun j h₁ h₂ => by omega⟩
    | @next c _ hused ih =>
      refine ⟨by omega, fun j h₁ h₂ => ?_⟩
      by_cases hj : j = c
      · rw [hj, hused]
      · exact ih.2 j h₁ (by omega)
  · rintro ⟨hle, hused⟩
    obtain ⟨k, rfl⟩ := Nat.exists_eq_add_of_le hle
    clear hle
    induction k with
    | zero => exact Tests.first
    | succ k ih =>
      exact (ih fun j h₁ h₂ => hused j h₁ (by omega)).next (hused _ (by omega) (by omega))

/-- INTERNAL: **the scan stays in the bitmap** exactly when some block from its start on is free. -/
theorem bounded_iff (hlo : lo ≤ 3000) : (∀ b, Tests s lo b → b < 3000) ↔
    ∃ b, lo ≤ b ∧ b < 3000 ∧ blockIsFree s b = true := by
  constructor
  · intro h
    by_contra hnone
    refine absurd (h 3000 (tests_iff.mpr ⟨hlo, fun j h₁ h₂ => ?_⟩)) (by omega)
    by_contra hfree
    exact hnone ⟨j, h₁, h₂, by simpa using hfree⟩
  · rintro ⟨c, hle, hlt, hfree⟩ b htests
    by_contra hge
    have hused := (tests_iff.mp htests).2 c hle (by omega)
    rw [hfree] at hused
    cases hused

variable (hi) in
/-- INTERNAL: **what `_get_free_block` does** with the first free block that it finds. SRCLINE:
bitmap.c:29-38 -/
theorem getFreeBlock_of_free (hle : lo ≤ b) (hlt : b < 3000) (hfree : blockIsFree s b = true)
    (hlowest : ∀ j, lo ≤ j → j < b → blockIsFree s j = false) :
    getFreeBlock lo hi s = if b < hi then .ok b (s.take b) else .error .noBlocks s := by
  have hscan : firstFree (fun b => !blockIsFree s b) (bitmapSize * 8 - lo) lo = some b := by
    rw [firstFree_eq_some_iff, bitmapSize_eq]
    refine ⟨hle, by omega, by simpa using hfree, fun j h₁ h₂ => by simp [hlowest j h₁ h₂]⟩
  have hwp : wp (getFreeBlock lo hi) (fun r s' => b < hi ∧ r = b ∧ s' = s.take b)
      (fun e s' => ¬ b < hi ∧ e = .noBlocks ∧ s' = s) s := by
    simp only [getFreeBlock, wp_bind, wp_get, hscan]
    split
    next hge => exact ⟨by omega, rfl, rfl⟩
    next hge =>
      rw [wp_bind]
      exact bitarraySetBit_wp hlt ⟨by omega, rfl, rfl⟩
  unfold wp at hwp
  split at hwp
  next r s' heq =>
    obtain ⟨hin, rfl, rfl⟩ := hwp
    rw [heq, if_pos hin]
  next e s' heq =>
    obtain ⟨hout, rfl, rfl⟩ := hwp
    rw [heq, if_neg hout]

theorem getFree_eq (p : Pool) : p.getFree = getFreeBlock p.fromBlockNum p.toBlockNum := by
  cases p <;> rfl

theorem fromBlockNum_le (p : Pool) : p.fromBlockNum ≤ 3000 := by cases p <;> decide

theorem toBlockNum_le (p : Pool) : p.toBlockNum ≤ 3000 := by cases p <;> decide

/-- INTERNAL: there is a lowest one among the free blocks. -/
theorem exists_lowest (h : ∃ b, lo ≤ b ∧ b < hi ∧ blockIsFree s b = true) :
    ∃ b, lo ≤ b ∧ b < hi ∧ blockIsFree s b = true ∧
      ∀ j, lo ≤ j → j < b → blockIsFree s j = false := by
  classical
  refine ⟨Nat.find h, (Nat.find_spec h).1, (Nat.find_spec h).2.1, (Nat.find_spec h).2.2,
    fun j h₁ h₂ => ?_⟩
  have hmin := Nat.find_min h h₂
  have hlt := (Nat.find_spec h).2.1
  by_contra hfree
  exact hmin ⟨h₁, by omega, by simpa using hfree⟩

theorem blockIsFree_take (c : ℕ) :
    blockIsFree (s.take b) c = (blockIsFree s c && decide (c ≠ b)) := by
  rw [blockIsFree, take_used, blockIsFree, Bool.not_or, Bool.and_comm, decide_not]

/-- **A block is reserved exactly and within bounds** if and only if some block of the disk from
the start of the region on is free. SRCLINE: bitmap.c:10-38 -/
theorem allocates_exactly_iff (s : SacState) (p : Pool) : AllocatesExactly s p ↔
    ∃ b, p.fromBlockNum ≤ b ∧ b < totalBlocks ∧ blockIsFree s b = true := by
  constructor
  · exact fun h => (bounded_iff (fromBlockNum_le p)).mp h.bounded
  · intro hsome
    obtain ⟨b, hle, hlt, hfree, hlowest⟩ := exists_lowest hsome
    have hfound := getFreeBlock_of_free p.toBlockNum hle hlt hfree hlowest
    rw [← getFree_eq] at hfound
    refine ⟨(bounded_iff (fromBlockNum_le p)).mpr hsome, ?_, fun hnone => ?_⟩
    · rintro ⟨c, hcle, hclt, hcfree⟩
      have hin : b < p.toBlockNum := by
        by_contra hout
        have hused := hlowest c hcle (by omega)
        rw [hcfree] at hused
        cases hused
      rw [if_pos hin] at hfound
      exact ⟨b, s.take b, hfound, ⟨hle, hin, hfree, hlowest⟩, rfl, blockIsFree_take⟩
    · have hout : ¬ b < p.toBlockNum := by
        intro hin
        rw [hnone b hle hin] at hfree
        cases hfree
      rw [if_neg hout] at hfound
      exact hfound

end Scan

/-- A server on a disk without a free block. -/
def fullBitmap : SacState := ⟨fun _ _ => 0, fun _ => 255, ⟨fun _ _ => 0, fun _ => 0, 0⟩⟩

/-- On a full disk the scan leaves the bitmap. SRCLINE: bitmap.c:31 -/
theorem full_disk_scan_unbounded : ¬ AllocatesExactly fullBitmap .blocks := by
  intro h
  have hused : ∀ b, blockIsFree fullBitmap b = false := by
    intro b
    rw [blockIsFree, SacState.used, testBit_eq]
    have hbits := Nat.testBit_two_pow_sub_one 8 (7 - b % 8)
    rw [decide_eq_true (by omega)] at hbits
    simpa [fullBitmap] using hbits
  obtain ⟨b, -, -, hfree⟩ := (bounded_iff (fromBlockNum_le .blocks)).mp h.bounded
  rw [hused b] at hfree
  cases hfree

end LinuseFs.Analysis
