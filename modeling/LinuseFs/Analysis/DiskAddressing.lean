import LinuseFs.Model.DiskMacros

/-!
# Which disks can be addressed

The macros of `disk.h` and the offset of `_map_block` for other numbers of blocks.  Each has a
threshold of its own: the bitmap has a bit for every block when their number is a multiple of
eight and `DISK_SIZE` fits an `int`, the offsets are right up to 2^20 blocks, and the regions
divide the disk whenever the macros do not wrap.
-/

set_option autoImplicit false

namespace LinuseFs.Analysis

open LinuseFs.Model

/-- A region has this block. -/
def InRegion (m : DiskMacros) (r : Region) (b : ℕ) : Prop := m.firstBlock r ≤ b ∧ b < m.endBlock r

/-- Every block has a bit in the bitmap, the four regions divide the disk, and the blocks are
mapped one behind the other. -/
structure Addressable (m : DiskMacros) : Prop where
  bits : (m.totalBlocks : ℤ) ≤ m.bitmapSize * 8
  disjoint : ∀ r r' b, InRegion m r b → InRegion m r' b → r = r'
  cover : ∀ b, b < m.totalBlocks ↔ ∃ r, InRegion m r b
  offset : ∀ b < m.totalBlocks, mapOffset b = 4096 * b
  apart : ∀ b c, b < m.totalBlocks → c < m.totalBlocks → b ≠ c → mapOffset b ≠ mapOffset c

/-! ## The bitmap -/

section Bitmap

variable {m : DiskMacros}

/-- INTERNAL: without overflow `BITMAP_SIZE` is an eighth of the blocks, rounded down. SRCLINE:
disk.h:22-23 -/
theorem bitmapSize_of_lt (h : m.totalBlocks < 2 ^ 19) :
    m.bitmapSize = (m.totalBlocks / 8 : ℕ) := by
  have hsize : m.diskSize = (4096 * m.totalBlocks : ℕ) := by
    have hfits := i32_of_lt (n := 4096 * m.totalBlocks) (by omega)
    rw [DiskMacros.diskSize, DiskMacros.constant, if_pos (by omega)]
    simpa [blockSize] using hfits
  rw [DiskMacros.bitmapSize, hsize, Int.tdiv_eq_ediv_of_nonneg (by omega)]
  simp only [blockSize]
  omega

/-- INTERNAL: an `int` cannot hold the size of a larger disk. SRCLINE: disk.h:22-23 -/
theorem bitmapSize_lt (h : m.totalBlocks < 2 ^ 31) : m.bitmapSize * 8 < 2 ^ 19 := by
  have hsize : m.diskSize < 2 ^ 31 := by
    rw [DiskMacros.diskSize, DiskMacros.constant, if_pos h, i32]
    exact Int.bmod_lt (by decide)
  rw [DiskMacros.bitmapSize]
  rcases le_total 0 m.diskSize with hpos | hneg
  · rw [Int.tdiv_eq_ediv_of_nonneg hpos]
    simp only [blockSize]
    omega
  · have hquot := Int.tdiv_nonneg (b := (blockSize * 8 : ℤ)) (Int.neg_nonneg_of_nonpos hneg) (by decide)
    rw [Int.neg_tdiv] at hquot
    omega

/-- INTERNAL: **the bitmap has a bit for every block** of a disk whose size is an `int` exactly
when their number is a multiple of eight below 2^19. -/
theorem bits_iff (h : m.totalBlocks < 2 ^ 31) :
    (m.totalBlocks : ℤ) ≤ m.bitmapSize * 8 ↔ m.totalBlocks % 8 = 0 ∧ m.totalBlocks < 2 ^ 19 := by
  by_cases hlt : m.totalBlocks < 2 ^ 19
  · rw [bitmapSize_of_lt hlt]
    omega
  · have := bitmapSize_lt h
    omega

end Bitmap

/-! ## The offsets -/

/-- INTERNAL: **the offsets are right** up to 2^20 blocks, which is 4 GB. SRCLINE: block.c:26-29 -/
theorem offset_iff (n : ℕ) : (∀ b < n, mapOffset b = 4096 * b) ↔ n ≤ 2 ^ 20 := by
  constructor
  · intro h
    by_contra hlt
    have hfirst := h (2 ^ 20) (by omega)
    rw [mapOffset_eq, blockSize] at hfirst
    omega
  · intro h b hb
    rw [mapOffset_eq, blockSize]
    omega

/-! ## The regions -/

section Regions

variable {m : DiskMacros}

/-- INTERNAL: the bounds of the regions, when `BITMAP_BLOCKS` is a number of blocks that fits. -/
theorem inRegion_iff {k : ℕ} (hblocks : m.bitmapBlocks = k)
    (hfits : 1 + k + m.nodeTableBlocks ≤ m.totalBlocks) (hlt : m.totalBlocks < 2 ^ 32) (b : ℕ) :
    (InRegion m .header b ↔ b = 0) ∧
    (InRegion m .bitmap b ↔ 1 ≤ b ∧ b < 1 + k) ∧
    (InRegion m .nodeTable b ↔ 1 + k ≤ b ∧ b < 1 + k + m.nodeTableBlocks) ∧
    (InRegion m .data b ↔ 1 + k + m.nodeTableBlocks ≤ b ∧ b < m.totalBlocks) := by
  have hbitmap : u32 m.bitmapBlocks = k := by rw [hblocks, u32_natCast_of_lt (by omega)]
  have htable : u32 m.nodeTableInitialBlock = 1 + k := by
    rw [DiskMacros.nodeTableInitialBlock, hblocks]
    exact u32_natCast_of_lt (n := 1 + k) (by omega)
  have hdata : u32 (m.nodeTableInitialBlock + m.nodeTableBlocks) = 1 + k + m.nodeTableBlocks := by
    rw [DiskMacros.nodeTableInitialBlock, hblocks]
    exact u32_natCast_of_lt (n := 1 + k + m.nodeTableBlocks) (by omega)
  have hend : u32 (m.totalBlocks : ℤ) = m.totalBlocks := u32_natCast_of_lt hlt
  refine ⟨?_, ?_, ?_, ?_⟩ <;>
    simp only [InRegion, DiskMacros.firstBlock, DiskMacros.endBlock, hbitmap, htable, hdata, hend,
      bitmapInitialBlock] <;> omega

/-- INTERNAL: **the regions divide the disk.** -/
theorem regions_divide {k : ℕ} (hblocks : m.bitmapBlocks = k) (hfits : m.Fits)
    (hlt : m.totalBlocks < 2 ^ 32) :
    (∀ r r' b, InRegion m r b → InRegion m r' b → r = r') ∧
      ∀ b, b < m.totalBlocks ↔ ∃ r, InRegion m r b := by
  have hfits' : 1 + k + m.nodeTableBlocks ≤ m.totalBlocks := by
    rw [DiskMacros.Fits, hblocks] at hfits
    omega
  have hregion := inRegion_iff hblocks hfits' hlt
  constructor
  · intro r r' b hr hr'
    obtain ⟨hheader, hbitmap, htable, hdata⟩ := hregion b
    cases r <;> cases r' <;> simp only [hheader, hbitmap, htable, hdata] at hr hr' <;>
      first | rfl | omega
  · intro b
    obtain ⟨hheader, hbitmap, htable, hdata⟩ := hregion b
    constructor
    · intro hb
      by_cases h0 : b = 0
      · exact ⟨.header, hheader.mpr h0⟩
      by_cases h1 : b < 1 + k
      · exact ⟨.bitmap, hbitmap.mpr ⟨by omega, h1⟩⟩
      by_cases h2 : b < 1 + k + m.nodeTableBlocks
      · exact ⟨.nodeTable, htable.mpr ⟨by omega, h2⟩⟩
      · exact ⟨.data, hdata.mpr ⟨by omega, hb⟩⟩
    · rintro ⟨r, hr⟩
      cases r <;> simp only [hheader, hbitmap, htable, hdata] at hr <;> omega

/-- INTERNAL: `BITMAP_BLOCKS` is a number of blocks when nothing wraps. SRCLINE: disk.h:27 -/
theorem exists_bitmapBlocks (h : m.totalBlocks < 2 ^ 19) : ∃ k : ℕ, m.bitmapBlocks = k := by
  rw [DiskMacros.bitmapBlocks, bitmapSize_of_lt h]
  generalize m.totalBlocks / 8 = size
  have hdiv : (size : ℤ).tdiv (4096 : ℕ) = (size / 4096 : ℕ) := rfl
  split
  · exact ⟨size / 4096, hdiv⟩
  · exact ⟨size / 4096 + 1, by rw [hdiv, Int.natCast_succ]⟩

end Regions

/-! ## Every disk -/

/-- **A disk can be addressed** exactly when its number of blocks is a multiple of eight below
2^19: its size is then an `int`. SRCLINE: disk.h:12-28, block.c:14-29, bitmap.c:10-17 -/
theorem addressable_iff {m : DiskMacros} (hfits : m.Fits) :
    Addressable m ↔ m.totalBlocks % 8 = 0 ∧ m.totalBlocks < 2 ^ 19 := by
  constructor
  · intro h
    have hoffset := (offset_iff m.totalBlocks).mp h.offset
    exact (bits_iff (by omega)).mp h.bits
  · rintro ⟨hmod, hlt⟩
    obtain ⟨k, hblocks⟩ := exists_bitmapBlocks hlt
    obtain ⟨hdisjoint, hcover⟩ := regions_divide hblocks hfits (by omega)
    have hoffset := (offset_iff m.totalBlocks).mpr (by omega)
    refine ⟨(bits_iff (by omega)).mpr ⟨hmod, hlt⟩, hdisjoint, hcover, hoffset, ?_⟩
    intro b c hb hc hbc heq
    rw [hoffset b hb, hoffset c hc] at heq
    omega

/-- The statement for the values that `disk.h` has. -/
theorem addressable_shipped : shippedMacros.Fits ∧
    (Addressable shippedMacros ↔ 3000 % 8 = 0 ∧ 3000 < 2 ^ 19) :=
  ⟨by decide, addressable_iff (by decide)⟩

/-- One block more than shipped has no bit in the bitmap. SRCLINE: disk.h:22-23 -/
theorem odd_disk_not_addressable : (DiskMacros.mk 3001 32).Fits ∧
    ¬ Addressable (DiskMacros.mk 3001 32) :=
  ⟨by decide, fun h => absurd h.bits (by decide)⟩

end LinuseFs.Analysis
