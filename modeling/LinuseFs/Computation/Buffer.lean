import LinuseFs.Computation.Bytes
import LinuseFs.Computation.ByteFile
import Mathlib.Algebra.Group.Int.Defs

/-!
# Allocated memory

A piece of allocated memory is a list of bytes, whose length is the size that was asked
for.  `peek` and `poke` copy out of it and into it and fail when the copy leaves it.
`le` and `leInt` are the images of numbers, `fromLe` and `fromLeInt` the numbers that an
image stands for; a number that fits the width is read back from its image.
-/

set_option autoImplicit false

namespace LinuseFs.Computation

/-- The `len` bytes at offset `pos`, if they are inside. -/
def peek (mem : List UInt8) (pos len : ℕ) : Option (List UInt8) :=
  if pos + len ≤ mem.length then some ((mem.drop pos).take len) else none

/-- The memory after `src` was copied to offset `pos`, if that is inside. -/
def poke (mem : List UInt8) (pos : ℕ) (src : List UInt8) : Option (List UInt8) :=
  if pos + src.length ≤ mem.length then some (pwrite mem pos src) else none

/-- INTERNAL: a copy out of the middle. -/
theorem peek_append {a b c : List UInt8} {p n : ℕ} (hpos : p = a.length)
    (hlen : n = b.length) : peek (a ++ b ++ c) p n = some b := by
  subst hpos hlen
  unfold peek
  rw [if_pos (by simp), List.append_assoc, List.drop_left, List.take_left]

/-- INTERNAL: a copy past the end fails. -/
theorem peek_eq_none {mem : List UInt8} {pos len : ℕ} (h : mem.length < pos + len) :
    peek mem pos len = none := by
  unfold peek
  rw [if_neg (by omega)]

theorem poke_eq_none {mem src : List UInt8} {pos : ℕ} (h : mem.length < pos + src.length) :
    poke mem pos src = none := by
  unfold poke
  rw [if_neg (by omega)]

/-- INTERNAL: **filling from the front**.  The part filled so far grows by the bytes
copied behind it. -/
theorem poke_append {d r s : List UInt8} {p : ℕ} (hpos : p = d.length)
    (h : s.length ≤ r.length) : poke (d ++ r) p s = some (d ++ s ++ r.drop s.length) := by
  subst hpos
  unfold poke
  rw [if_pos (by rw [List.length_append]; omega), pwrite, List.take_left, List.drop_append]
  simp

/-- INTERNAL: the last copy fills the block. -/
theorem poke_fill {d r s : List UInt8} {p : ℕ} (hpos : p = d.length)
    (h : s.length = r.length) : poke (d ++ r) p s = some (d ++ s) := by
  rw [poke_append hpos (Nat.le_of_eq h), h, List.drop_length, List.append_nil]

/-! ## Numbers -/

/-- The image of a number in `w` bytes. -/
def le (w n : ℕ) : List UInt8 := (List.range w).map (leBytes n)

/-- The image of an integer in `w` bytes. -/
def leInt (w : ℕ) (n : ℤ) : List UInt8 := le w (n % 256 ^ w).toNat

/-- The number an image stands for. -/
def fromLe (bytes : List UInt8) : ℕ := leNat (ofList bytes) 0 bytes.length

/-- The integer an image stands for in two's complement. -/
def fromLeInt (bytes : List UInt8) : ℤ := Int.bmod (fromLe bytes) (256 ^ bytes.length)

@[simp] theorem length_le (w n : ℕ) : (le w n).length = w := by simp [le]

@[simp] theorem length_leInt (w : ℕ) (n : ℤ) : (leInt w n).length = w := length_le _ _

/-- INTERNAL: a number is read back from its image, cut to the width. -/
theorem fromLe_le (w n : ℕ) : fromLe (le w n) = n % 256 ^ w := by
  rw [← leNat_leBytes, fromLe, length_le]
  apply leNat_congr
  intro i hi
  simp [ofList, le, hi]

theorem fromLe_le_of_lt {w n : ℕ} (h : n < 256 ^ w) : fromLe (le w n) = n := by
  rw [fromLe_le, Nat.mod_eq_of_lt h]

/-- INTERNAL: an unsigned number that fits is read back. -/
theorem fromLe_leInt {w : ℕ} {n : ℤ} (h0 : 0 ≤ n) (h : n < 256 ^ w) :
    (fromLe (leInt w n) : ℤ) = n := by
  obtain ⟨m, rfl⟩ := Int.eq_ofNat_of_zero_le h0
  have hm : m < 256 ^ w := Int.ofNat_lt.mp h
  rw [leInt, Int.emod_eq_of_lt h0 h, Int.toNat_natCast, fromLe_le_of_lt hm]

/-- INTERNAL: a signed number that fits is read back. -/
theorem fromLeInt_leInt {w : ℕ} {n : ℤ} (h0 : -(256 ^ w) ≤ n * 2) (h : n * 2 < 256 ^ w) :
    fromLeInt (leInt w n) = n := by
  have hcast : ((256 ^ w : ℕ) : ℤ) = 256 ^ w := Int.natCast_pow 256 w
  have hpos : (0 : ℤ) < 256 ^ w := Int.pow_pos (by decide)
  have hlt : (n % 256 ^ w).toNat < 256 ^ w := by
    have := Int.emod_lt_of_pos n hpos
    omega
  have hbmod : Int.bmod (n % ((256 ^ w : ℕ) : ℤ)) (256 ^ w) = n := by
    rw [Int.emod_bmod, Int.bmod_eq_of_le_mul_two] <;> rwa [hcast]
  rw [fromLeInt, length_leInt, leInt, fromLe_le_of_lt hlt,
    Int.toNat_of_nonneg (Int.emod_nonneg _ (Int.ne_of_gt hpos)), ← hcast, hbmod]

end LinuseFs.Computation
