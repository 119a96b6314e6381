import LinuseFs.Computation.Outcome
import LinuseFs.Computation.Bitarray

/-!
# The disk, the memory of the server and how its functions end

`disk.h` and `block.c`.  The server maps each block of the disk file on its own
(`MAP_SHARED`), so a store into a block is a store into the file; the bitmap lives in
memory only.  A function is a computation over that state: it returns, or it stops with
one of the faults below, and what was already stored stays stored.

Memory that C leaves uninitialised (`malloc`, a local array) and the clock are read from
two streams of the state, so a statement about every state is a statement about every
content of that memory.
-/

set_option autoImplicit false

namespace LinuseFs.Model

open LinuseFs.Computation

/-! ## The macros of disk.h -/

/-- `BLOCK_SIZE`. SRCLINE: disk.h:15 -/
abbrev blockSize : ℕ := 4096

/-- `TOTAL_BLOCKS`. SRCLINE: disk.h:18 -/
abbrev totalBlocks : ℕ := 3000

/-- `NODE_TABLE_BLOCKS`. SRCLINE: disk.h:19 -/
abbrev nodeTableBlocks : ℕ := 32

/-- `BITMAP_INITIAL_BLOCK`. SRCLINE: disk.h:14 -/
abbrev bitmapInitialBlock : ℕ := 1

/-- `DISK_SIZE`. SRCLINE: disk.h:22 -/
def diskSize : ℕ := blockSize * totalBlocks

/-- `BITMAP_SIZE`, in bytes. SRCLINE: disk.h:23 -/
def bitmapSize : ℕ := diskSize / (blockSize * 8)

/-- `BITMAP_BLOCKS`. SRCLINE: disk.h:27 -/
def bitmapBlocks : ℕ :=
  if bitmapSize % blockSize = 0 then bitmapSize / blockSize else bitmapSize / blockSize + 1

/-- `NODE_TABLE_INITIAL_BLOCK`. SRCLINE: disk.h:25 -/
def nodeTableInitialBlock : ℕ := bitmapInitialBlock + bitmapBlocks

/-- `DIR_ENTRY_SIZE`. SRCLINE: disk.h:29 -/
abbrev dirEntrySize : ℕ := 128

/-- The length of `indirect_pointer_block[]`. SRCLINE: disk.h:52 -/
abbrev pointersPerNode : ℕ := 1000

/-- The length of `file_name[]`. SRCLINE: disk.h:47 -/
abbrev fileNameSize : ℕ := 71

@[simp] theorem bitmapSize_eq : bitmapSize = 375 := rfl

@[simp] theorem bitmapBlocks_eq : bitmapBlocks = 1 := rfl

@[simp] theorem nodeTableInitialBlock_eq : nodeTableInitialBlock = 2 := rfl

/-- A value as a C `u_int32_t`. -/
def u32 (n : ℤ) : ℕ := (n % 2 ^ 32).toNat

/-- A value as a C `int`. -/
def i32 (n : ℤ) : ℤ := Int.bmod n (2 ^ 32)

@[simp] theorem u32_natCast (n : ℕ) : u32 (n : ℤ) = n % 2 ^ 32 := by
  unfold u32; omega

theorem u32_natCast_of_lt {n : ℕ} (h : n < 2 ^ 32) : u32 (n : ℤ) = n := by
  rw [u32_natCast, Nat.mod_eq_of_lt h]

theorem i32_of_lt {n : ℕ} (h : n < 2 ^ 31) : i32 (n : ℤ) = n := by
  unfold i32
  rw [Int.bmod_eq_of_le] <;> omega

/-- The data models the sources can be compiled for: 4-byte pointers, `size_t` and
`long`, or 8-byte ones. -/
inductive Abi
  | ilp32
  | lp64
  deriving DecidableEq, Repr

/-- `sizeof` of a pointer variable. -/
def Abi.sizeofPointer : Abi → ℕ
  | .ilp32 => 4
  | .lp64 => 8

/-- `sizeof(size_t)`. -/
def Abi.sizeofSizeT : Abi → ℕ
  | .ilp32 => 4
  | .lp64 => 8

/-! ## The state and the faults -/

/-- Why a function does not return. -/
inductive Fault
  /-- `exit(-1)` after `perror("No hay bloques disponibles")`. -/
  | noBlocks
  /-- The scan of the bitmap tests a bit past its end. -/
  | pastBitmap
  /-- An access outside the object it addresses, or outside the mapped file. -/
  | memory
  /-- A loop that does not end. -/
  | spin
  deriving DecidableEq, Repr

/-- What the process takes from outside: the contents of the successive pieces of
uninitialised memory, and the successive readings of the clock. -/
structure Env where
  heap : ℕ → Bytes
  clock : ℕ → ℕ
  taken : ℕ

/-- The blocks of the disk file, the bitmap in memory, and the environment. -/
structure SacState where
  disk : ℕ → Bytes
  bitmap : Bytes
  env : Env

/-- A function of the server. -/
abbrev Sac := EStateM Fault SacState

/-- The bit of a block in the bitmap in memory. -/
def SacState.used (s : SacState) (b : ℕ) : Bool := testBit s.bitmap b

/-- The state after block `b` was given the contents `bytes`. -/
def SacState.setBlock (s : SacState) (b : ℕ) (bytes : Bytes) : SacState :=
  { s with disk := Function.update s.disk b bytes }

@[simp] theorem setBlock_same (s : SacState) (b : ℕ) (bytes : Bytes) :
    (s.setBlock b bytes).disk b = bytes := by simp [SacState.setBlock]

theorem setBlock_ne (s : SacState) (bytes : Bytes) {b c : ℕ} (h : c ≠ b) :
    (s.setBlock b bytes).disk c = s.disk c := by simp [SacState.setBlock, h]

@[simp] theorem setBlock_bitmap (s : SacState) (b : ℕ) (bytes : Bytes) :
    (s.setBlock b bytes).bitmap = s.bitmap := rfl

/-- A fresh piece of uninitialised memory. -/
def malloc : Sac Bytes := do
  let s ← get
  set { s with env := { s.env with taken := s.env.taken + 1 } }
  return s.env.heap s.env.taken

/-- `time(0)`, in the 64 bits of the fields it goes to. -/
def time : Sac ℕ := do
  let s ← get
  set { s with env := { s.env with taken := s.env.taken + 1 } }
  return s.env.clock s.env.taken % 2 ^ 64

/-! ## Blocks -/

/-- The block of the file that `_map_block` maps for a block number: the offset is a
32-bit product. SRCLINE: block.c:26-29 -/
def mapBlock (blockNum : ℕ) : ℕ := blockNum * blockSize % 2 ^ 32 / blockSize

/-- `read_block`: the block mapped for the number.  The page is touched when it is
accessed, not when it is mapped. SRCLINE: block.c:7-24 -/
def readBlock (blockNum : ℕ) : ℕ := mapBlock blockNum

/-- The `len` bytes at offset `pos` of a mapped block. -/
def load (block pos len : ℕ) : Sac Bytes := do
  let s ← get
  if block < totalBlocks ∧ pos + len ≤ blockSize then
    return fun i => s.disk block (pos + i)
  else throw .memory

/-- Copies `len` bytes of `src` to offset `pos` of a mapped block. -/
def store (block pos : ℕ) (src : Bytes) (len : ℕ) : Sac Unit := do
  let s ← get
  if block < totalBlocks ∧ pos + len ≤ blockSize then
    set (s.setBlock block (memcpy (s.disk block) pos src len))
  else throw .memory

/-- `_bytes_to_int32` at offset `pos` of a mapped block. SRCLINE: directory.c:314-318 -/
def bytesToInt32 (block pos : ℕ) : Sac ℕ := do
  let bytes ← load block pos 4
  return leNat bytes 0 4

/-! ## The rules of the primitives -/

section Rules

variable {E : Fault → SacState → Prop} {s : SacState}

theorem malloc_wp {Q : Bytes → SacState → Prop}
    (h : ∀ bytes e', Q bytes { s with env := e' }) : wp malloc Q E s := h _ _

theorem time_wp {Q : ℕ → SacState → Prop}
    (h : ∀ t e', t < 2 ^ 64 → Q t { s with env := e' }) : wp time Q E s :=
  h _ _ (Nat.mod_lt _ (by decide))

theorem load_wp {Q : Bytes → SacState → Prop} {block pos len : ℕ}
    (hb : block < 3000) (hp : pos + len ≤ 4096)
    (h : Q (fun i => s.disk block (pos + i)) s) : wp (load block pos len) Q E s := by
  simp only [load, wp_bind, wp_get]
  rw [if_pos ⟨hb, hp⟩]
  exact h

theorem store_wp {Q : Unit → SacState → Prop} {block pos len : ℕ} {src : Bytes}
    (hb : block < 3000) (hp : pos + len ≤ 4096)
    (h : Q () (s.setBlock block (memcpy (s.disk block) pos src len))) :
    wp (store block pos src len) Q E s := by
  simp only [store, wp_bind, wp_get]
  rw [if_pos ⟨hb, hp⟩]
  exact h

theorem load_fault_wp {Q : Bytes → SacState → Prop} {block pos len : ℕ}
    (h : ¬ (block < 3000 ∧ pos + len ≤ 4096)) (hE : E .memory s) : wp (load block pos len) Q E s := by
  simp only [load, wp_bind, wp_get]
  rw [if_neg h]
  exact hE

theorem store_fault_wp {Q : Unit → SacState → Prop} {block pos len : ℕ} {src : Bytes}
    (h : ¬ (block < 3000 ∧ pos + len ≤ 4096)) (hE : E .memory s) :
    wp (store block pos src len) Q E s := by
  simp only [store, wp_bind, wp_get]
  rw [if_neg h]
  exact hE

theorem bytesToInt32_wp {Q : ℕ → SacState → Prop} {block pos : ℕ}
    (hb : block < 3000) (hp : pos + 4 ≤ 4096)
    (h : Q (leNat (s.disk block) pos 4) s) : wp (bytesToInt32 block pos) Q E s := by
  simp only [bytesToInt32, wp_bind]
  apply load_wp hb hp
  simp only [wp_pure]
  have : leNat (fun i => s.disk block (pos + i)) 0 4 = leNat (s.disk block) pos 4 :=
    leNat_congr fun i _ => by rw [Nat.zero_add]
  rw [this]
  exact h

/-- INTERNAL: a block number of the disk is mapped at its own place.
SRCLINE: block.c:26-29 -/
theorem readBlock_of_lt {b : ℕ} (h : b < 3000) : readBlock b = b := by
  simp only [readBlock, mapBlock, blockSize]
  omega

end Rules

end LinuseFs.Model
