import LinuseFs.Model.Disk

/-!
# The macros of a disk of any size

`disk.h` says that `TOTAL_BLOCKS` and `NODE_TABLE_BLOCKS` may be changed with the disk.  The
other macros are computed from these two as the compiler does it: a decimal constant below
2^31 is an `int`, and a product with it wraps; a larger constant has 64 bits.  Divisions
truncate.
-/

set_option autoImplicit false

namespace LinuseFs.Model

/-- The values of `TOTAL_BLOCKS` and `NODE_TABLE_BLOCKS`. SRCLINE: disk.h:17-20 -/
structure DiskMacros where
  totalBlocks : ℕ
  nodeTableBlocks : ℕ
  deriving DecidableEq, Repr

/-- The regions of a disk. -/
inductive Region
  | header
  | bitmap
  | nodeTable
  | data
  deriving DecidableEq, Repr

namespace DiskMacros

variable (m : DiskMacros)

/-- A value in the type of an expression with the constant `TOTAL_BLOCKS`. -/
def constant (n : ℤ) : ℤ :=
  if m.totalBlocks < 2 ^ 31 then i32 n else Int.bmod n (2 ^ 64)

/-- `DISK_SIZE`. SRCLINE: disk.h:22 -/
def diskSize : ℤ := m.constant (blockSize * m.totalBlocks)

/-- `BITMAP_SIZE`. SRCLINE: disk.h:23 -/
def bitmapSize : ℤ := m.diskSize.tdiv (blockSize * 8)

/-- `BITMAP_BLOCKS`. SRCLINE: disk.h:27 -/
def bitmapBlocks : ℤ :=
  if m.bitmapSize.tmod blockSize = 0 then m.bitmapSize.tdiv blockSize
  else m.bitmapSize.tdiv blockSize + 1

/-- `NODE_TABLE_INITIAL_BLOCK`. SRCLINE: disk.h:25 -/
def nodeTableInitialBlock : ℤ := bitmapInitialBlock + m.bitmapBlocks

/-- The first block of a region, as a `u_int32_t` argument. SRCLINE: disk.c:19-26,
bitmap.c:10-17 -/
def firstBlock : Region → ℕ
  | .header => 0
  | .bitmap => bitmapInitialBlock
  | .nodeTable => u32 m.nodeTableInitialBlock
  | .data => u32 (m.nodeTableInitialBlock + m.nodeTableBlocks)

/-- The block behind a region.  `read_blocks` takes the number of the last block of the
bitmap. SRCLINE: disk.c:19-26, bitmap.c:10-17 -/
def endBlock : Region → ℕ
  | .header => 1
  | .bitmap => u32 m.bitmapBlocks + 1
  | .nodeTable => u32 (m.nodeTableInitialBlock + m.nodeTableBlocks)
  | .data => u32 m.totalBlocks

/-- The header, the bitmap and the node table fit the disk. -/
def Fits : Prop := 1 + m.bitmapBlocks + m.nodeTableBlocks ≤ m.totalBlocks

instance : Decidable m.Fits := inferInstanceAs (Decidable (_ ≤ _))

end DiskMacros

/-- The offset at which `_map_block` maps a block, behind the loop of `read_blocks` that makes
the number an `int`. SRCLINE: block.c:18, block.c:26-29 -/
def mapOffset (blockNum : ℕ) : ℕ := u32 (i32 (i32 blockNum * blockSize))

/-- The values that `disk.h` has. SRCLINE: disk.h:18-19 -/
def shippedMacros : DiskMacros := { totalBlocks := totalBlocks, nodeTableBlocks := nodeTableBlocks }

/-- INTERNAL: the constants of the other modules are the macros for the shipped values. -/
theorem shippedMacros_eq : shippedMacros.diskSize = diskSize ∧
    shippedMacros.bitmapSize = bitmapSize ∧ shippedMacros.bitmapBlocks = bitmapBlocks ∧
    shippedMacros.nodeTableInitialBlock = nodeTableInitialBlock := by
  decide

/-- INTERNAL: a 32-bit product is the product modulo 2^32, whatever wraps on the way. SRCLINE:
block.c:26-29 -/
theorem mapOffset_eq (blockNum : ℕ) : mapOffset blockNum = blockNum * blockSize % 2 ^ 32 := by
  have hwrap : ∀ n : ℤ, Int.bmod n (2 ^ 32) % 2 ^ 32 = n % 2 ^ 32 := fun n => Int.bmod_emod
  have hproduct : i32 (i32 blockNum * blockSize) % 2 ^ 32 = (blockNum * blockSize : ℤ) % 2 ^ 32 := by
    rw [i32, hwrap, Int.mul_emod, i32, hwrap, ← Int.mul_emod]
  rw [mapOffset, u32, hproduct]
  omega

/-- INTERNAL: a mapped block is the block of the file at that offset. -/
theorem mapBlock_eq (blockNum : ℕ) : mapBlock blockNum = mapOffset blockNum / blockSize := by
  rw [mapOffset_eq, mapBlock]

end LinuseFs.Model
