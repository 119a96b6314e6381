import LinuseFs.Model.Node

/-!
# Formatting a disk and keeping the bitmap

`disk.c` writes the header, the bitmap and the root directory of a new disk; the other blocks
keep whatever they hold.  `sac.c` reads the bitmap when the server starts and writes it when it
ends: `Formatted` describes the state in which a server starts on a new disk.
-/

set_option autoImplicit false

namespace LinuseFs.Model

open LinuseFs.Computation

/-- `t_header`. SRCLINE: disk.h:33-39 -/
structure Header where
  identifier : List UInt8
  version : ℕ
  bitmapInitialBlock : ℕ
  bitmapSize : ℕ

/-- `create_header`. SRCLINE: utils.c:79-86 -/
def createHeader (identifier : List UInt8) (version bitmapInitialBlock bitmapSize : ℕ) : Header :=
  { identifier := identifier.take 3
    version := version
    bitmapInitialBlock := bitmapInitialBlock
    bitmapSize := bitmapSize }

/-- `create_default_header`. SRCLINE: utils.c:54-56 -/
def createDefaultHeader : Header :=
  createHeader [83, 65, 67] 1 bitmapInitialBlock bitmapSize

/-- `header_to_block`. SRCLINE: utils.c:101-110 -/
def headerToBlock (header : Header) (block : ℕ) : Sac Unit := do
  let pos := 0
  store block pos (ofList header.identifier) 3
  let pos := pos + 3
  store block pos (leBytes header.version) 4
  let pos := pos + 4
  store block pos (leBytes header.bitmapInitialBlock) 4
  let pos := pos + 4
  store block pos (leBytes header.bitmapSize) 4

/-- The loop of `create_default_bitmap` over the blocks of the bitmap.
SRCLINE: utils.c:69-70 -/
def marcarBitmap : ℕ → ℕ → Sac Unit
  | 0, _ => return
  | n + 1, i => do
    bitarraySetBit (i + 1)
    marcarBitmap n (i + 1)

/-- `create_default_bitmap`, as the bitmap in memory. SRCLINE: utils.c:65-77 -/
def createDefaultBitmap : Sac Unit := do
  modify fun s => { s with bitmap := fun _ => 0 }
  bitarraySetBit 0
  marcarBitmap bitmapBlocks 0
  bitarraySetBit (bitmapBlocks + 1)

/-- `create_root_dir`. SRCLINE: utils.c:58-63 -/
def createRootDir : Sac Node := do
  let date ← time
  createNode 2 [47] 0 0 date date fun _ => 0

/-- `read_blocks`: the mapped blocks, in order. SRCLINE: block.c:14-24 -/
def readBlocks (fromBlock toBlock : ℕ) : List ℕ :=
  (List.range (toBlock - fromBlock + 1)).map fun i => readBlock (fromBlock + i)

/-- The index of the block for the next byte in `bitmap_to_block` and `block_to_bitmap`. -/
def nextBitmapBlock (i blockNum : ℕ) : ℕ :=
  if i % blockSize = 1 ∧ (i + 1) % blockSize = 0 then blockNum + 1 else blockNum

/-- The loop of `bitmap_to_block` from byte `i` on. SRCLINE: utils.c:130-133 -/
def bitmapToBlockFrom (bitarray : Bytes) (blocks : List ℕ) : ℕ → ℕ → ℕ → Sac Unit
  | 0, _, _ => return
  | n + 1, i, blockNum =>
    match blocks[blockNum]? with
    | none => throw .memory
    | some block => do
      store block i (fun _ => bitarray i) 1
      bitmapToBlockFrom bitarray blocks n (i + 1) (nextBitmapBlock i blockNum)

/-- `bitmap_to_block`. SRCLINE: utils.c:128-134 -/
@[irreducible] def bitmapToBlock (bitarray : Bytes) (size : ℕ) (blocks : List ℕ) : Sac Unit :=
  bitmapToBlockFrom bitarray blocks size 0 0

/-- The loop of `block_to_bitmap` from byte `i` on. SRCLINE: utils.c:139-142 -/
def blockToBitmapFrom (blocks : List ℕ) : ℕ → ℕ → ℕ → Bytes → Sac Bytes
  | 0, _, _, bitarray => return bitarray
  | n + 1, i, blockNum, bitarray =>
    match blocks[blockNum]? with
    | none => throw .memory
    | some block => do
      let byte ← load block i 1
      blockToBitmapFrom blocks n (i + 1) (nextBitmapBlock i blockNum)
        (Function.update bitarray i (byte 0))

/-- `block_to_bitmap`. SRCLINE: utils.c:136-144 -/
@[irreducible] def blockToBitmap (size : ℕ) (blocks : List ℕ) : Sac Bytes := do
  let bitarray ← malloc
  blockToBitmapFrom blocks size 0 0 bitarray

/-- `format_disk`, which ends the process. SRCLINE: disk.c:12-42 -/
def formatDisk : Sac Unit := do
  let header := createDefaultHeader
  createDefaultBitmap
  let rootDir ← createRootDir
  headerToBlock header (readBlock 0)
  let s ← get
  bitmapToBlock s.bitmap bitmapSize (readBlocks bitmapInitialBlock bitmapBlocks)
  nodeToBlock rootDir (readBlock nodeTableInitialBlock)

/-- `load_bitmap`. SRCLINE: sac.c:113-118 -/
def loadBitmap : Sac Unit := do
  let bitmap ← blockToBitmap bitmapSize (readBlocks bitmapInitialBlock bitmapBlocks)
  modify fun s => { s with bitmap := bitmap }

/-- `unmap_bitmap`. SRCLINE: sac.c:120-125 -/
def unmapBitmap : Sac Unit := do
  let s ← get
  bitmapToBlock s.bitmap bitmapSize (readBlocks bitmapInitialBlock bitmapBlocks)

/-- The state of a server process before it has read the bitmap: the disk file as it was left,
with the memory of a new process. -/
def SacState.restarted (s : SacState) (bitmap : Bytes) (env : Env) : SacState :=
  { s with bitmap := bitmap, env := env }

/-- A server has started on a disk that was just formatted, whatever its blocks held before. -/
def Formatted (s : SacState) : Prop :=
  ∃ s₀ s₁ bitmap env, formatDisk s₀ = .ok () s₁ ∧ loadBitmap (s₁.restarted bitmap env) = .ok () s

end LinuseFs.Model
