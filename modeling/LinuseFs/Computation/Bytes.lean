import Mathlib.Algebra.Group.Nat.Defs
import Mathlib.Data.List.GetD
import Mathlib.Data.Nat.Basic

/-!
# Byte memory, little-endian numbers and C strings

A region of memory is a function from offsets to bytes; its length is checked by the
code that accesses it, not here.  `memcpy` overlays a region, `leNat` reads a
little-endian number of a given width, `leBytes` is the memory image of a number, and
`cstr` reads a string up to its terminating NUL.

Each reader comes with a frame lemma (it depends only on the bytes it reads) and a
lemma for what it reads from what was written there.
-/

set_option autoImplicit false

namespace LinuseFs.Computation

/-- A region of memory: its bytes by offset. -/
abbrev Bytes := ℕ → UInt8

/-- The region `dst` after `len` bytes of `src` were copied to offset `pos`. -/
def memcpy (dst : Bytes) (pos : ℕ) (src : Bytes) (len : ℕ) : Bytes :=
  fun i => if pos ≤ i ∧ i < pos + len then src (i - pos) else dst i

/-- The region that holds the list `l` (and zeros past its end). -/
def ofList (l : List UInt8) : Bytes := fun i => l.getD i 0

/-- INTERNAL: a byte outside the copied range keeps its value. -/
theorem memcpy_outside {dst src : Bytes} {pos len i : ℕ} (h : i < pos ∨ pos + len ≤ i) :
    memcpy dst pos src len i = dst i := by
  unfold memcpy
  rw [if_neg (by omega)]

/-- INTERNAL: a byte inside the copied range comes from the source. -/
theorem memcpy_inside {dst src : Bytes} {pos len i : ℕ} (h : i < len) :
    memcpy dst pos src len (pos + i) = src i := by
  unfold memcpy
  rw [if_pos (by omega), Nat.add_sub_cancel_left]

theorem memcpy_zero_inside {dst src : Bytes} {len i : ℕ} (h : i < len) :
    memcpy dst 0 src len i = src i := by
  unfold memcpy
  rw [if_pos (by omega), Nat.sub_zero]

/-! ## Little-endian numbers -/

/-- The little-endian value of the `w` bytes at offset `pos`. -/
def leNat (b : Bytes) (pos : ℕ) : ℕ → ℕ
  | 0 => 0
  | w + 1 => (b pos).toNat + 256 * leNat b (pos + 1) w

/-- The memory image of a number: its bytes, least significant first. -/
def leBytes (n : ℕ) : Bytes := fun i => UInt8.ofNat (n / 256 ^ i)

/-- INTERNAL: a number of `w` bytes is below `256 ^ w`. -/
theorem leNat_lt (b : Bytes) (pos w : ℕ) : leNat b pos w < 256 ^ w := by
  induction w generalizing pos with
  | zero => simp [leNat]
  | succ w ih =>
    have hb := (b pos).toNat_lt
    have hw := ih (pos + 1)
    simp only [leNat, Nat.pow_succ]
    omega

/-- INTERNAL: the value depends only on the bytes read. -/
theorem leNat_congr {b b' : Bytes} {pos pos' w : ℕ}
    (h : ∀ i < w, b (pos + i) = b' (pos' + i)) : leNat b pos w = leNat b' pos' w := by
  induction w generalizing pos pos' with
  | zero => rfl
  | succ w ih =>
    have h0 := h 0 (by omega)
    have hrest : leNat b (pos + 1) w = leNat b' (pos' + 1) w := by
      apply ih
      intro i hi
      have := h (i + 1) (by omega)
      simpa only [Nat.add_assoc, Nat.add_comm 1 i] using this
    simp only [Nat.add_zero] at h0
    simp only [leNat, h0, hrest]

/-- INTERNAL: a copy elsewhere does not change the number. -/
theorem leNat_memcpy_outside {dst src : Bytes} {pos len at' w : ℕ}
    (h : at' + w ≤ pos ∨ pos + len ≤ at') :
    leNat (memcpy dst pos src len) at' w = leNat dst at' w :=
  leNat_congr fun i hi => memcpy_outside (by omega)

/-- INTERNAL: a number inside the copied range is the source's. -/
theorem leNat_memcpy_inside {dst src : Bytes} {pos len off w : ℕ} (h : off + w ≤ len) :
    leNat (memcpy dst pos src len) (pos + off) w = leNat src off w := by
  apply leNat_congr
  intro i hi
  rw [Nat.add_assoc]
  exact memcpy_inside (by omega)

/-- INTERNAL: the image of a number from its `k`-th byte on is the image of its
quotient. -/
theorem leBytes_add (n k i : ℕ) : leBytes n (k + i) = leBytes (n / 256 ^ k) i := by
  simp only [leBytes, Nat.pow_add, Nat.div_div_eq_div_mul]

/-- INTERNAL: **reading a number's memory image** gives the number, cut to the width
read. -/
theorem leNat_leBytes (n w : ℕ) : leNat (leBytes n) 0 w = n % 256 ^ w := by
  induction w generalizing n with
  | zero => simp [leNat, Nat.mod_one]
  | succ w ih =>
    have hshift : leNat (leBytes n) (0 + 1) w = leNat (leBytes (n / 256)) 0 w := by
      apply leNat_congr
      intro i _
      rw [Nat.zero_add, Nat.zero_add, leBytes_add, Nat.pow_one]
    have h0 : (leBytes n 0).toNat = n % 256 := by simp [leBytes]
    rw [leNat, hshift, ih, h0, Nat.pow_succ, Nat.mul_comm (256 ^ w) 256, Nat.mod_mul]

/-- INTERNAL: **the memory image of a number that was read** is what it was read from. -/
theorem leBytes_leNat (b : Bytes) (pos w i : ℕ) (hi : i < w) :
    leBytes (leNat b pos w) i = b (pos + i) := by
  induction w generalizing pos i with
  | zero => omega
  | succ w ih =>
    have hb := (b pos).toNat_lt
    rw [leNat]
    cases i with
    | zero =>
      simp only [leBytes, Nat.pow_zero, Nat.div_one, Nat.add_zero]
      apply UInt8.toNat_inj.mp
      rw [UInt8.toNat_ofNat']
      omega
    | succ i =>
      have hshift : ((b pos).toNat + 256 * leNat b (pos + 1) w) / 256 = leNat b (pos + 1) w := by
        omega
      rw [Nat.add_comm i 1, leBytes_add, Nat.pow_one, hshift, ih (pos + 1) i (by omega),
        Nat.add_assoc]

/-- INTERNAL: a number written with its width is read back, cut to the width. -/
theorem leNat_memcpy_leBytes (dst : Bytes) (pos n w : ℕ) :
    leNat (memcpy dst pos (leBytes n) w) pos w = n % 256 ^ w := by
  have h : leNat (memcpy dst pos (leBytes n) w) (pos + 0) w = leNat (leBytes n) 0 w :=
    leNat_memcpy_inside (by omega)
  rwa [Nat.add_zero, leNat_leBytes] at h

/-! ## C strings -/

/-- The bytes from offset `pos` up to the first NUL, if there is one among the first
`limit` bytes. -/
def cstr (b : Bytes) (pos : ℕ) : ℕ → Option (List UInt8)
  | 0 => none
  | limit + 1 => if b pos = 0 then some [] else (cstr b (pos + 1) limit).map (b pos :: ·)

/-- INTERNAL: the string depends only on the bytes within the limit. -/
theorem cstr_congr {b b' : Bytes} {pos pos' limit : ℕ}
    (h : ∀ i < limit, b (pos + i) = b' (pos' + i)) :
    cstr b pos limit = cstr b' pos' limit := by
  induction limit generalizing pos pos' with
  | zero => rfl
  | succ limit ih =>
    have h0 := h 0 (by omega)
    have hrest : cstr b (pos + 1) limit = cstr b' (pos' + 1) limit := by
      apply ih
      intro i hi
      have := h (i + 1) (by omega)
      simpa only [Nat.add_assoc, Nat.add_comm 1 i] using this
    simp only [Nat.add_zero] at h0
    simp only [cstr, h0, hrest]

/-- INTERNAL: a copy elsewhere does not change the string. -/
theorem cstr_memcpy_outside {dst src : Bytes} {pos len at' limit : ℕ}
    (h : at' + limit ≤ pos ∨ pos + len ≤ at') :
    cstr (memcpy dst pos src len) at' limit = cstr dst at' limit :=
  cstr_congr fun i hi => memcpy_outside (by omega)

/-- INTERNAL: **the string read** is `l` exactly when the region holds `l` and a NUL
within the limit, and `l` has no NUL. -/
theorem cstr_eq_some_iff {b : Bytes} {pos limit : ℕ} {l : List UInt8} :
    cstr b pos limit = some l ↔
      l.length < limit ∧ (∀ i < l.length, b (pos + i) = l.getD i 0) ∧
        b (pos + l.length) = 0 ∧ (0 : UInt8) ∉ l := by
  induction limit generalizing pos l with
  | zero => simp [cstr]
  | succ limit ih =>
    unfold cstr
    split
    next h0 =>
      cases l with
      | nil => simp [h0]
      | cons a l =>
        simp only [Option.some.injEq, reduceCtorEq, List.length_cons, List.mem_cons, not_or,
          false_iff, not_and]
        intro _ hb _ ha _
        have := hb 0 (by omega)
        simp only [Nat.add_zero, List.getD_cons_zero] at this
        exact ha (by rw [← this, h0])
    next h0 =>
      cases l with
      | nil => simp [h0]
      | cons a l =>
        rw [Option.map_eq_some_iff]
        constructor
        · rintro ⟨t, ht, heq⟩
          obtain ⟨rfl, rfl⟩ := List.cons.inj heq
          obtain ⟨hlen, hbytes, hnul, hmem⟩ := ih.mp ht
          refine ⟨by simpa using hlen, ?_, ?_, ?_⟩
          · intro i hi
            cases i with
            | zero => simp
            | succ i =>
              have := hbytes i (by simpa using hi)
              simpa only [Nat.add_assoc, Nat.add_comm 1 i, List.getD_cons_succ] using this
          · simpa only [List.length_cons, Nat.add_assoc, Nat.add_comm 1] using hnul
          · simp only [List.mem_cons, not_or]
            exact ⟨fun h => h0 h.symm, hmem⟩
        · rintro ⟨hlen, hbytes, hnul, hmem⟩
          have hb := hbytes 0 (by simp)
          simp only [Nat.add_zero, List.getD_cons_zero] at hb
          refine ⟨l, ih.mpr ⟨by simpa using hlen, ?_, ?_, ?_⟩, by rw [hb]⟩
          · intro i hi
            have := hbytes (i + 1) (by simpa using hi)
            simpa only [Nat.add_assoc, Nat.add_comm 1 i, List.getD_cons_succ] using this
          · simpa only [List.length_cons, Nat.add_assoc, Nat.add_comm 1] using hnul
          · exact fun h => hmem (List.mem_cons_of_mem _ h)

/-- INTERNAL: with a NUL within the limit there is a string, by induction on the limit. -/
theorem exists_cstr {b : Bytes} {pos limit k : ℕ} (hk : k < limit) (hnul : b (pos + k) = 0) :
    ∃ l, cstr b pos limit = some l := by
  induction limit generalizing pos k with
  | zero => omega
  | succ limit ih =>
    unfold cstr
    split
    · exact ⟨[], rfl⟩
    next h0 =>
      cases k with
      | zero => exact absurd hnul h0
      | succ k =>
        rw [Nat.add_comm k 1, ← Nat.add_assoc] at hnul
        obtain ⟨l, hl⟩ := ih (Nat.lt_of_succ_lt_succ hk) hnul
        exact ⟨b pos :: l, by rw [hl, Option.map_some]⟩

/-- INTERNAL: **the string ends at the first NUL.** -/
theorem cstr_length {b : Bytes} {pos limit k : ℕ} {l : List UInt8} (h : cstr b pos limit = some l)
    (hnul : b (pos + k) = 0) (hfirst : ∀ j < k, b (pos + j) ≠ 0) : l.length = k := by
  obtain ⟨-, hbytes, hend, hfree⟩ := cstr_eq_some_iff.mp h
  rcases Nat.lt_trichotomy l.length k with hlt | heq | hgt
  · exact absurd hend (hfirst l.length hlt)
  · exact heq
  · have hmem := List.getElem_mem hgt
    rw [hbytes k hgt, List.getD_eq_getElem l 0 hgt] at hnul
    rw [hnul] at hmem
    exact absurd hmem hfree

/-- INTERNAL: a string copied with its NUL is read back. -/
theorem cstr_memcpy_ofList (dst : Bytes) (pos limit len : ℕ) {l : List UInt8}
    (hl : (0 : UInt8) ∉ l) (hlen : l.length < limit) (hcopy : l.length < len) :
    cstr (memcpy dst pos (ofList (l ++ [0])) len) pos limit = some l := by
  rw [cstr_eq_some_iff]
  refine ⟨hlen, ?_, ?_, hl⟩
  · intro i hi
    rw [memcpy_inside (by omega)]
    simp [ofList, List.getD_eq_getElem?_getD, List.getElem?_append_left hi]
  · rw [memcpy_inside (by omega)]
    simp [ofList, List.getD_eq_getElem?_getD]

end LinuseFs.Computation
