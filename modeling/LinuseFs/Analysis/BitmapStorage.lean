import LinuseFs.Analysis.FormattedDisk

/-!
# Bitmaps of any size

`bitmap_to_block` and `block_to_bitmap` should go on to the next block behind each 4096 bytes.
Their condition asks for an index that is 1 and -1 modulo 4096, so they never do: a bitmap of more
than one block is written, and read, past the end of its first block.
-/

set_option autoImplicit false

namespace LinuseFs.Analysis

open LinuseFs.Computation LinuseFs.Model

/-- The blocks that a bitmap of `size` bytes needs. -/
def blocksForBitmap (size : ℕ) : ℕ := (size + 4095) / 4096

/-- What `read_blocks` maps for a bitmap of `size` bytes. SRCLINE: disk.c:23, sac.c:114 -/
def bitmapBlockList (size : ℕ) : List ℕ := readBlocks bitmapInitialBlock (blocksForBitmap size)

/-- Byte `i` of the bitmap is at offset `i % 4096` of block `i / 4096`, and the other blocks are as
they were. -/
structure BitmapStored (size : ℕ) (bitarray : Bytes) (s s' : SacState) : Prop where
  byte : ∀ i < size, ∃ b, (bitmapBlockList size)[i / 4096]? = some b ∧
    s'.disk b (i % 4096) = bitarray i
  others : ∀ c, c ∉ bitmapBlockList size → s'.disk c = s.disk c
  bitmap : s'.bitmap = s.bitmap

/-- The bitmap is stored in its blocks, and read back from them, without an access outside. -/
def RoundTrips (size : ℕ) (bitarray : Bytes) (s : SacState) : Prop :=
  ∃ s', bitmapToBlock bitarray size (bitmapBlockList size) s = .ok () s' ∧
    BitmapStored size bitarray s s' ∧
    ∃ result s'', blockToBitmap size (bitmapBlockList size) s' = .ok result s'' ∧
      s''.disk = s'.disk ∧ ∀ i < size, result i = bitarray i

section Storage

variable {s : SacState} {bitarray : Bytes} {size : ℕ}

/-- INTERNAL: a bitmap of up to 4096 bytes has block 1. -/
theorem bitmapBlockList_of_le (h : size ≤ 4096) : bitmapBlockList size = [1] := by
  have hblocks : blocksForBitmap size = 0 ∨ blocksForBitmap size = 1 := by
    unfold blocksForBitmap
    omega
  rcases hblocks with hblocks | hblocks <;> rw [bitmapBlockList, hblocks] <;> rfl

/-- INTERNAL: the first block of a bitmap is block 1. -/
theorem bitmapBlockList_head : (bitmapBlockList size)[0]? = some 1 := by
  rw [bitmapBlockList, readBlocks, List.getElem?_map, List.getElem?_range (Nat.succ_pos _)]
  rfl

variable (bitarray s) in
/-- INTERNAL: **a bitmap of one block** is stored. SRCLINE: utils.c:128-134 -/
theorem exists_stored (h : size ≤ 4096) :
    ∃ s', bitmapToBlock bitarray size (bitmapBlockList size) s = .ok () s' ∧
      BitmapStored size bitarray s s' := by
  have hwp : wp (bitmapToBlock bitarray size (bitmapBlockList size))
      (fun _ s' => BitmapStored size bitarray s s') (fun _ _ => False) s := by
    rw [bitmapBlockList_of_le h, bitmapToBlock]
    apply bitmapToBlockFrom_wp (by decide) size 0 (by omega) s
    intro s' hsame hother hbitmap
    refine ⟨fun i hi => ⟨1, ?_, ?_⟩, fun c hc => ?_, hbitmap⟩
    · rw [bitmapBlockList_of_le h, Nat.div_eq_of_lt (by omega)]
      rfl
    · rw [hsame, Nat.mod_eq_of_lt (by omega)]
      exact if_pos ⟨Nat.zero_le i, by omega⟩
    · rw [bitmapBlockList_of_le h, List.mem_singleton] at hc
      exact hother c hc
  obtain ⟨⟨⟩, s', hok, hstored⟩ := exists_ok_of_wp hwp fun _ _ hf => hf
  exact ⟨s', hok, hstored⟩

variable (s) in
/-- INTERNAL: **a bitmap of one block** is read back. SRCLINE: utils.c:136-144 -/
theorem exists_read (h : size ≤ 4096) :
    ∃ result s', blockToBitmap size (bitmapBlockList size) s = .ok result s' ∧
      s'.disk = s.disk ∧ ∀ i < size, result i = s.disk 1 i := by
  have hwp : wp (blockToBitmap size (bitmapBlockList size))
      (fun result s' => s'.disk = s.disk ∧ ∀ i < size, result i = s.disk 1 i)
      (fun _ _ => False) s := by
    rw [bitmapBlockList_of_le h, blockToBitmap, wp_bind]
    apply malloc_wp
    intro bytes e'
    refine blockToBitmapFrom_wp (by decide) size 0 (by omega) bytes ⟨rfl, fun i hi => ?_⟩
    exact if_pos ⟨Nat.zero_le i, by omega⟩
  exact exists_ok_of_wp hwp fun _ _ hf => hf

/-- INTERNAL: **a larger bitmap leaves its first block**, by induction on the bytes that are left:
the byte behind the end of the block is among them. SRCLINE: utils.c:130-133 -/
theorem bitmapToBlockFrom_fault {blocks : List ℕ} {b : ℕ} (hblocks : blocks[0]? = some b)
    (n i : ℕ) (hi : i ≤ 4096) (hlong : 4096 < i + n) (s : SacState) :
    wp (bitmapToBlockFrom bitarray blocks n i 0) (fun _ _ => False) (fun e _ => e = .memory) s := by
  induction n generalizing i s with
  | zero => omega
  | succ n ih =>
    simp only [bitmapToBlockFrom, hblocks, nextBitmapBlock_eq, wp_bind]
    by_cases hstore : b < 3000 ∧ i + 1 ≤ 4096
    · exact store_wp hstore.1 hstore.2 (ih (i + 1) (by omega) (by omega) _)
    · exact store_fault_wp hstore rfl

theorem not_roundTrips (hlong : 4096 < size) : ¬ RoundTrips size bitarray s := by
  rintro ⟨s', hok, -⟩
  have hfault : wp (bitmapToBlockFrom bitarray (bitmapBlockList size) size 0 0)
      (fun _ _ => False) (fun e _ => e = .memory) s :=
    bitmapToBlockFrom_fault bitmapBlockList_head size 0 (Nat.zero_le _) (by omega) s
  rw [bitmapToBlock] at hok
  exact wp_of_ok hfault hok

/-- **A bitmap survives its storage** exactly when it fits one block. SRCLINE: utils.c:128-144,
block.c:14-24 -/
theorem round_trips_iff (size : ℕ) (bitarray : Bytes) (s : SacState) :
    RoundTrips size bitarray s ↔ size ≤ 4096 := by
  constructor
  · intro h
    by_contra hlong
    exact not_roundTrips (by omega) h
  · intro h
    obtain ⟨s', hok, hstored⟩ := exists_stored s bitarray h
    obtain ⟨result, s'', hread, hdisk, hresult⟩ := exists_read s' h
    refine ⟨s', hok, hstored, result, s'', hread, hdisk, fun i hi => ?_⟩
    obtain ⟨b, hb, hbyte⟩ := hstored.byte i hi
    rw [bitmapBlockList_of_le h, Nat.div_eq_of_lt (by omega)] at hb
    obtain rfl : 1 = b := Option.some.inj hb
    rw [Nat.mod_eq_of_lt (by omega)] at hbyte
    rw [hresult i hi, hbyte]

/-- A bitmap of one byte more than a block is not stored. SRCLINE: utils.c:132 -/
theorem two_block_bitmap_faults : ¬ RoundTrips 4097 (fun _ => 0) newDisk :=
  not_roundTrips (by decide)

end Storage

end LinuseFs.Analysis
