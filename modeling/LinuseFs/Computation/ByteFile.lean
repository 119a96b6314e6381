import Mathlib.Data.List.Basic

/-!
# Files as lists

`pwrite l off buf` is the file `l` after `buf` was written at offset `off`, with
`off ≤ l.length`: it replaces what is there and extends the file when it runs past its
end.  Writing a buffer in two pieces, one after the other, is writing it whole.

`pwriteFill` fills the gap of a write behind the end, and `resize` cuts a file or fills it up.
`writeAll` makes many writes; `consecutive` ones append their chunks (`writeAll_consecutive`).
-/

set_option autoImplicit false

namespace LinuseFs.Computation

variable {α : Type}

/-- The file `l` after the write of `buf` at offset `off`. -/
def pwrite (l : List α) (off : ℕ) (buf : List α) : List α :=
  l.take off ++ buf ++ l.drop (off + buf.length)

theorem pwrite_length {l : List α} {off : ℕ} (h : off ≤ l.length) (buf : List α) :
    (pwrite l off buf).length = max l.length (off + buf.length) := by
  simp only [pwrite, List.length_append, List.length_take, List.length_drop]
  omega

/-- INTERNAL: the bytes of a file after a write. -/
theorem getElem?_pwrite {l buf : List α} {off : ℕ} (h : off ≤ l.length) (i : ℕ) :
    (pwrite l off buf)[i]? =
      if off ≤ i ∧ i < off + buf.length then buf[i - off]? else l[i]? := by
  have htake : (l.take off).length = off := by rw [List.length_take]; omega
  unfold pwrite
  rw [List.append_assoc]
  by_cases h1 : i < off
  · rw [List.getElem?_append_left (by omega), List.getElem?_take, if_pos h1, if_neg (by omega)]
  · rw [List.getElem?_append_right (by omega), htake]
    by_cases h2 : i < off + buf.length
    · rw [List.getElem?_append_left (by omega), if_pos ⟨by omega, h2⟩]
    · rw [List.getElem?_append_right (by omega), List.getElem?_drop, if_neg (by omega)]
      congr 1
      omega

/-! ## Gaps and sizes -/

/-- The file `l` after the write of `buf` at an offset that may be behind its end: the gap is
filled with `x`. -/
def pwriteFill (x : α) (l : List α) (off : ℕ) (buf : List α) : List α :=
  pwrite (l ++ List.replicate (off - l.length) x) off buf

/-- The file `l` with the length `len`: cut, or filled up with `x`. -/
def resize (x : α) (l : List α) (len : ℕ) : List α :=
  (l ++ List.replicate (len - l.length) x).take len

section Gaps

variable {x : α} {l buf : List α} {off len : ℕ}

theorem pwriteFill_of_le (h : off ≤ l.length) : pwriteFill x l off buf = pwrite l off buf := by
  rw [pwriteFill, Nat.sub_eq_zero_of_le h, List.replicate_zero, List.append_nil]

theorem pwriteFill_of_ge (h : l.length ≤ off) :
    pwriteFill x l off buf = l ++ List.replicate (off - l.length) x ++ buf := by
  have hlen : (l ++ List.replicate (off - l.length) x).length = off := by
    rw [List.length_append, List.length_replicate]
    omega
  rw [pwriteFill, pwrite, List.take_of_length_le (by omega),
    List.drop_eq_nil_of_le (by omega), List.append_nil]

/-- INTERNAL: **what was written is read.** -/
theorem take_drop_pwriteFill : ((pwriteFill x l off buf).drop off).take buf.length = buf := by
  have hlen : ((l ++ List.replicate (off - l.length) x).take off).length = off := by
    rw [List.length_take, List.length_append, List.length_replicate]
    omega
  rw [pwriteFill, pwrite, List.append_assoc, List.drop_append,
    List.drop_of_length_le (Nat.le_of_eq hlen), List.nil_append, hlen, Nat.sub_self, List.drop_zero,
    List.take_left]

theorem resize_of_le (h : len ≤ l.length) : resize x l len = l.take len := by
  rw [resize, Nat.sub_eq_zero_of_le h, List.replicate_zero, List.append_nil]

theorem resize_of_ge (h : l.length ≤ len) :
    resize x l len = l ++ List.replicate (len - l.length) x := by
  rw [resize, List.take_of_length_le]
  rw [List.length_append, List.length_replicate]
  omega

end Gaps

/-! ## Many writes -/

/-- The file `l` after the writes, one after the other; each is an offset and what is written
there. -/
def writeAll (x : α) (l : List α) (writes : List (ℕ × List α)) : List α :=
  writes.foldl (fun l w => pwriteFill x l w.1 w.2) l

/-- The writes of the chunks, each where the one before it ends. -/
def consecutive : ℕ → List (List α) → List (ℕ × List α)
  | _, [] => []
  | off, chunk :: chunks => (off, chunk) :: consecutive (off + chunk.length) chunks

theorem writeAll_append (x : α) (l : List α) (writes writes' : List (ℕ × List α)) :
    writeAll x l (writes ++ writes') = writeAll x (writeAll x l writes) writes' :=
  List.foldl_append

/-- INTERNAL: **consecutive writes from the end of a file on append their chunks.** -/
theorem writeAll_consecutive (x : α) (l : List α) (chunks : List (List α)) :
    writeAll x l (consecutive l.length chunks) = l ++ chunks.flatten := by
  induction chunks generalizing l with
  | nil => simp [writeAll, consecutive]
  | cons chunk chunks ih =>
    have hchunk : pwriteFill x l l.length chunk = l ++ chunk := by
      rw [pwriteFill_of_ge (Nat.le_refl _), Nat.sub_self, List.replicate_zero, List.append_nil]
    have hrest := ih (l ++ chunk)
    rw [List.length_append] at hrest
    calc writeAll x l (consecutive l.length (chunk :: chunks))
        = writeAll x (pwriteFill x l l.length chunk)
            (consecutive (l.length + chunk.length) chunks) := rfl
      _ = l ++ chunk ++ chunks.flatten := by rw [hchunk, hrest]
      _ = l ++ (chunk :: chunks).flatten := by rw [List.flatten_cons, List.append_assoc]

end LinuseFs.Computation
