import LinuseFs.Computation.ByteFile
import LinuseFs.Analysis.FileBlocks

/-!
# Writing a file

Each round of `sac_write` stores a piece of the buffer in one block; a round that fills its
block takes the next one before it moves on.  `Written` says what one round does to the
bytes, and what the whole loop does: the rounds compose.
-/

set_option autoImplicit false

namespace LinuseFs.Analysis

open LinuseFs.Computation LinuseFs.Model LinuseFs.Interface

/-- The byte `i` of the file `n`. -/
def byteAt (v : View) (n i : ℕ) : UInt8 := v.data (v.place n (.data (i / 4096))) (i % 4096)

/-- The bytes of the file `n`. -/
def content (v : View) (n : ℕ) : List UInt8 :=
  (List.range (v.inode n).fileSize).map (byteAt v n)

@[simp] theorem length_content (v : View) (n : ℕ) :
    (content v n).length = (v.inode n).fileSize := by simp [content]

/-- How many blocks the file takes for its first byte. -/
def firstBlocks (nd : Inode) : ℕ := if nd.ptr 0 = 0 then 2 else 0

/-- The last pointer that a write up to `b` may need in a file of the size `S`. -/
def lastPointer (S b : ℕ) : ℕ := (max (S / 4096) (b / 4096 - 1) + 1) / 1024

/-- The blocks that a write from `a` up to `b` takes behind the last one of the file go into the
slots that the readers look in.  Inside the file each full block makes the code take the next block
of the file once more, so there the pointer behind the one for it has to be zero. -/
def InPlace (nd : Inode) (a b : ℕ) : Prop :=
  (∀ k, nd.fileSize / 4096 < k → k ≤ b / 4096 → NextInPlace nd k) ∧
    (a < nd.fileSize → nd.fileSize / 4096 < b / 4096 →
      nd.ptr ((nd.fileSize / 4096 + 1) / 1024 + 1) = 0)

theorem inPlace_of_noStray {nd : Inode} {offset count : ℕ}
    (h : NoStray nd ∨ offset % 4096 + count < 4096)
    (hoffset : offset / 4096 ≤ nd.fileSize / 4096) : InPlace nd offset (offset + count) := by
  rcases h with hstray | hinside
  · exact ⟨fun k hk _ => hstray.nextInPlace hk, fun _ _ => hstray _ (Nat.lt_succ_self _)⟩
  · exact ⟨fun k hk hle => by omega, fun _ hlt => by omega⟩

/-- What a write from `a` up to `b` takes: a data block for each block that it fills, the first
block of a file that has none, and the pointer blocks for these. -/
structure Taken (v w : View) (n a b : ℕ) : Prop where
  blocks : ∃ T : Finset ℕ,
    2 * T.card + firstBlocks (w.inode n) ≤ 2 * (b / 4096 - a / 4096) + firstBlocks (v.inode n) ∧
      ∀ c, v.used c = false → w.used c = true →
        c ∈ T ∨ ∃ i, (v.inode n).ptr i = 0 ∧ (w.inode n).ptr i = c
  pointers : ∀ i, (v.inode n).ptr i = 0 → (w.inode n).ptr i ≠ 0 →
    i = 0 ∨ a / 4096 < b / 4096 ∧ i ≤ lastPointer (v.inode n).fileSize b

/-- From `v` to `w` the bytes of the file `n` from `a` up to `b` became those of `src`; the
file has grown to `b` when it was shorter. -/
structure Written (v w : View) (n a b : ℕ) (src : ℕ → UInt8) : Prop where
  grown : Grown n v w
  size : (w.inode n).fileSize = max (v.inode n).fileSize b
  byte : ∀ i < max (v.inode n).fileSize b,
    byteAt w n i = if a ≤ i ∧ i < b then src i else byteAt v n i
  noStray : NoStray (v.inode n) → NoStray (w.inode n)
  used : (v.inode n).ptr 0 ≠ 0 → a / 4096 = b / 4096 → w.used = v.used
  lowest : ∀ x, v.used x = false → w.used x = true → ∀ y, 34 ≤ y → y < x → w.used y = true
  count : freeCount v.used 34 3000 + firstBlocks (w.inode n) ≤
    freeCount w.used 34 3000 + 2 * (b / 4096 - a / 4096) + firstBlocks (v.inode n)
  taken : Taken v w n a b

section Taken

variable {u v w : View} {n a b c x y S : ℕ}

/-- INTERNAL: what neither takes a block nor changes a pointer. -/
theorem taken_of_same (hused : w.used = v.used) (hptr : (w.inode n).ptr = (v.inode n).ptr)
    (a b : ℕ) : Taken v w n a b where
  blocks := by
    refine ⟨∅, ?_, fun c hc hc' => ?_⟩
    · rw [firstBlocks, firstBlocks, hptr, Finset.card_empty]
      omega
    · rw [hused, hc] at hc'
      cases hc'
  pointers i hi hi' := by
    rw [hptr] at hi'
    exact absurd hi hi'

/-- INTERNAL: what two writes take, one behind the other. -/
theorem Taken.trans (h : Taken u v n a c) (h' : Taken v w n c b) (hgrown : Grown n u v)
    (hgrown' : Grown n v w) (hn : u.live n)
    (hsize : (v.inode n).fileSize = max (u.inode n).fileSize c) (hac : a ≤ c) (hcb : c ≤ b) :
    Taken u w n a b where
  blocks := by
    have hac' := Nat.div_le_div_right (c := 4096) hac
    have hcb' := Nat.div_le_div_right (c := 4096) hcb
    obtain ⟨T, hT, hnew⟩ := h.blocks
    obtain ⟨T', hT', hnew'⟩ := h'.blocks
    refine ⟨T ∪ T', ?_, fun x hx hx' => ?_⟩
    · have := Finset.card_union_le T T'
      omega
    by_cases hxv : v.used x = true
    · apply (hnew x hx hxv).imp (Finset.mem_union_left _)
      rintro ⟨i, hi, hi'⟩
      have hne : x ≠ 0 := by
        rintro rfl
        rw [hgrown.low 0 (by decide), hx] at hxv
        cases hxv
      have hheld : v.held n (.ptr i) := ⟨(hgrown.live n).mpr hn, by
        change (v.inode n).ptr i ≠ 0
        rw [hi']
        exact hne⟩
      exact ⟨i, hi, (hgrown'.kept _ hheld).2.trans hi'⟩
    · apply (hnew' x (Bool.eq_false_iff.mpr hxv) hx').imp (Finset.mem_union_right _)
      rintro ⟨i, hi, hi'⟩
      refine ⟨i, ?_, hi'⟩
      by_contra hne
      exact (hgrown.kept (.ptr i) ⟨hn, hne⟩).1.2 hi
  pointers i hi hi' := by
    have hac' := Nat.div_le_div_right (c := 4096) hac
    have hcb' := Nat.div_le_div_right (c := 4096) hcb
    by_cases hiv : (v.inode n).ptr i = 0
    · apply (h'.pointers i hiv hi').imp_right
      rintro ⟨hlt, hle⟩
      rw [hsize, lastPointer] at hle
      rw [lastPointer]
      omega
    · apply (h.pointers i hi hiv).imp_right
      rintro ⟨hlt, hle⟩
      rw [lastPointer] at hle ⊢
      omega

/-- INTERNAL: a block that is taken with its pointer block, where none is. -/
theorem taken_of_update {i : ℕ} (h : OwnFile v n)
    (hused : ∀ c, w.used c = if c = x ∨ c = y then true else v.used c)
    (hptr : (w.inode n).ptr = Function.update (v.inode n).ptr i y)
    (hy : (v.inode n).ptr i = y ∧ y ≠ 0 ∨ (v.inode n).ptr i = 0)
    (hcount : 2 + firstBlocks (w.inode n) ≤ 2 * (b / 4096 - a / 4096) + firstBlocks (v.inode n))
    (hlast : (v.inode n).ptr i = 0 →
      i = 0 ∨ a / 4096 < b / 4096 ∧ i ≤ lastPointer (v.inode n).fileSize b) :
    Taken v w n a b where
  blocks := by
    refine ⟨{x}, by rw [Finset.card_singleton]; exact hcount, fun c hc hc' => ?_⟩
    rw [hused] at hc'
    by_cases hcx : c = x
    · exact Or.inl (Finset.mem_singleton.mpr hcx)
    by_cases hcy : c = y
    · right
      subst hcy
      rcases hy with ⟨hsame, hne⟩ | hzero
      · have hin := (h.inData_ptr (by rw [hsame]; exact hne)).2.2
        rw [hsame, hc] at hin
        cases hin
      · exact ⟨_, hzero, by rw [hptr]; exact Function.update_self ..⟩
    · rw [if_neg (by simp [hcx, hcy]), hc] at hc'
      cases hc'
  pointers l hl hl' := by
    have hli : l = i := by
      by_contra hne
      rw [hptr, Function.update_of_ne hne] at hl'
      exact hl' hl
    rw [hli] at hl ⊢
    exact hlast hl

end Taken

section Rounds

variable {u v w : View} {n a b c : ℕ} {src : ℕ → UInt8}

theorem Written.refl (h : OwnFile v n) (ha : a ≤ (v.inode n).fileSize) (src : ℕ → UInt8) :
    Written v v n a a src where
  grown := Grown.refl h
  size := (max_eq_left ha).symm
  byte i _ := by rw [if_neg (by omega)]
  noStray := id
  used _ _ := rfl
  lowest x hx hx' := by
    rw [hx] at hx'
    cases hx'
  count := by omega
  taken := taken_of_same rfl rfl a a

/-- INTERNAL: a write in two pieces. -/
theorem Written.trans (h : Written u v n a c src) (h' : Written v w n c b src)
    (hn : u.live n) (hac : a ≤ c) (hcb : c ≤ b) : Written u w n a b src where
  grown := h.grown.trans h'.grown
  size := by rw [h'.size, h.size]; omega
  byte i hi := by
    have hsize := h.size
    rw [h'.byte i (by omega)]
    by_cases hib : c ≤ i ∧ i < b
    · rw [if_pos hib, if_pos (by omega)]
    · rw [if_neg hib, h.byte i (by omega)]
      by_cases hic : a ≤ i ∧ i < c
      · rw [if_pos hic, if_pos (by omega)]
      · rw [if_neg hic, if_neg (by omega)]
  noStray hs := h'.noStray (h.noStray hs)
  used hptr hab := by
    have hac' : a / 4096 = c / 4096 := by
      have := Nat.div_le_div_right (c := 4096) hac
      have := Nat.div_le_div_right (c := 4096) hcb
      omega
    obtain ⟨hptr', -⟩ := h.grown.kept (.ptr 0) ⟨hn, hptr⟩
    rw [h'.used hptr'.2 (by omega), h.used hptr hac']
  lowest x hx hx' y hy hyx := by
    by_cases hxv : v.used x = true
    · exact h'.grown.used y (h.lowest x hx hxv y hy hyx)
    · exact h'.lowest x (Bool.eq_false_iff.mpr hxv) hx' y hy hyx
  count := by
    have hcount := h.count
    have hcount' := h'.count
    have hac' := Nat.div_le_div_right (c := 4096) hac
    have hcb' := Nat.div_le_div_right (c := 4096) hcb
    omega
  taken := h.taken.trans h'.taken h.grown h'.grown hn h.size hac hcb

/-- The view after `len` bytes of `f` were stored at position `pos` of the file. -/
def storedAt (v : View) (n pos : ℕ) (f : Bytes) (len : ℕ) : View :=
  v.setData (v.place n (.data (pos / 4096)))
    (memcpy (v.data (v.place n (.data (pos / 4096)))) (pos % 4096) f len)

/-- INTERNAL: the bytes after a store, in every block the file holds. SRCLINE:
sacio.c:213-215 -/
theorem byteAt_storedAt {pos len i : ℕ} {f : Bytes} (h : OwnFile v n)
    (hpos : v.held n (.data (pos / 4096))) (hlen : pos % 4096 + len ≤ 4096)
    (hi : v.held n (.data (i / 4096))) :
    byteAt (storedAt v n pos f len) n i =
      if pos ≤ i ∧ i < pos + len then f (i - pos) else byteAt v n i := by
  have hgrown := grown_setData h hpos
    (memcpy (v.data (v.place n (.data (pos / 4096)))) (pos % 4096) f len)
  have hplace := (hgrown.kept _ hi).2
  unfold byteAt storedAt
  rw [hplace]
  by_cases hsame : i / 4096 = pos / 4096
  · rw [hsame, View.setData_same]
    by_cases hin : pos ≤ i ∧ i < pos + len
    · rw [if_pos hin, show i % 4096 = pos % 4096 + (i - pos) by omega, memcpy_inside (by omega)]
    · rw [if_neg hin, memcpy_outside (by omega)]
  · have hne : v.place n (.data (i / 4096)) ≠ v.place n (.data (pos / 4096)) := by
      intro e
      exact hsame (Ref.data.inj (h.inj hi hpos e))
    rw [View.setData_ne _ hne, if_neg (by omega)]

theorem byteAt_extendedBy {x y S i : ℕ} (he : Extension v n x y) (h : OwnFile v n)
    (hi : v.held n (.data (i / 4096))) : byteAt (extendedBy v n x y S) n i = byteAt v n i := by
  unfold byteAt
  rw [extendedBy_place he h hi, extendedBy_data_ne ((he.pointer h).2.2.2 _ hi)]

theorem byteAt_resized (S i : ℕ) : byteAt (resized v n S) n i = byteAt v n i := by
  unfold byteAt
  rw [resized_place]
  rfl

/-- INTERNAL: an extension takes at most two blocks. -/
theorem freeCount_extendedBy (x y S lo hi : ℕ) :
    freeCount v.used lo hi ≤ freeCount (extendedBy v n x y S).used lo hi + 2 := by
  have hy := v.freeCount_setUsed y lo hi
  have hx := (v.setUsed y true).freeCount_setUsed x lo hi
  have hsame : (extendedBy v n x y S).used = ((v.setUsed y true).setUsed x true).used := rfl
  rw [hsame]
  omega

/-- INTERNAL: the block of a position inside the last block is held. -/
theorem held_of_div_le (hn : v.live n) (hstate : (v.inode n).state = 1)
    (hptr : (v.inode n).ptr 0 ≠ 0) {i : ℕ} (hi : i / 4096 ≤ (v.inode n).fileSize / 4096) :
    v.held n (.data (i / 4096)) := by
  refine ⟨hn, ?_⟩
  rw [Inode.refers, blocks_file hstate hptr]
  omega

variable {pos len : ℕ}

/-- INTERNAL: a file whose blocks stay where they are, with their bytes, keeps its bytes. -/
theorem content_of_held {m : ℕ} (h : Core v) (hl : v.live m) (hstate : (v.inode m).state = 1)
    (hsize : (w.inode m).fileSize = (v.inode m).fileSize)
    (hheld : ∀ r, v.held m r →
      w.place m r = v.place m r ∧ w.data (v.place m r) = v.data (v.place m r)) :
    content w m = content v m := by
  unfold Analysis.content
  rw [hsize]
  apply List.map_congr_left
  intro i hi
  rw [List.mem_range] at hi
  have hptr : (v.inode m).ptr 0 ≠ 0 := h.ptr_ne_zero hl hstate (by omega)
  obtain ⟨hplace, hdata⟩ :=
    hheld _ (held_of_div_le hl hstate hptr (Nat.div_le_div_right (c := 4096) hi.le))
  unfold byteAt
  rw [hplace, hdata]

/-- INTERNAL: **the other files keep their bytes.** -/
theorem Others.content {m : ℕ} (ho : Others n v w) (h : Core v) (hm : m ≠ n) (hl : v.live m)
    (hstate : (v.inode m).state = 1) : content w m = content v m :=
  content_of_held h hl hstate (by rw [ho.inode m hm])
    fun r hr => ⟨(ho.place h hm hr).2, ho.data m r hm hr⟩

/-- INTERNAL: **the bytes of the file after a write.** -/
theorem Written.content {offset : ℕ} {buffer : List UInt8}
    (h : Written v w n offset (offset + buffer.length) src)
    (hoffset : offset ≤ (v.inode n).fileSize)
    (hsrc : ∀ i (hi : i < buffer.length), src (offset + i) = buffer[i]) :
    content w n = pwrite (content v n) offset buffer := by
  apply List.ext_getElem?
  intro i
  rw [getElem?_pwrite (by rw [length_content]; exact hoffset)]
  unfold Analysis.content
  rw [h.size, List.getElem?_map, List.getElem?_map]
  by_cases hi : i < max (v.inode n).fileSize (offset + buffer.length)
  · rw [List.getElem?_range hi, Option.map_some, h.byte i hi]
    by_cases hin : offset ≤ i ∧ i < offset + buffer.length
    · rw [if_pos hin, if_pos hin]
      obtain ⟨j, rfl⟩ : ∃ j, i = offset + j := ⟨i - offset, by omega⟩
      rw [hsrc j (by omega), Nat.add_sub_cancel_left, List.getElem?_eq_getElem (by omega)]
    · rw [if_neg hin, if_neg hin, List.getElem?_range (by omega)]
      rfl
  · rw [if_neg (by omega), List.getElem?_eq_none (by rw [List.length_range]; omega),
      List.getElem?_eq_none (by rw [List.length_range]; omega)]
    rfl

/-- INTERNAL: a write sets no pointer behind the one for its last block. -/
theorem Written.ptr_eq_zero {i : ℕ} (h : Written v w n a c src) (hi : (v.inode n).ptr i = 0)
    (hi0 : i ≠ 0) (hlast : a / 4096 < c / 4096 → lastPointer (v.inode n).fileSize c < i) :
    (w.inode n).ptr i = 0 := by
  by_contra hne
  rcases h.taken.pointers i hi hne with hzero | ⟨hlt, hle⟩
  · exact hi0 hzero
  · have := hlast hlt
    omega

/-- INTERNAL: **the rest of a write has its blocks in place**, when the whole write has. -/
theorem Written.inPlace (h : Written v w n a c src) (hplace : InPlace (v.inode n) a b)
    (hac : a ≤ c) (hcb : c ≤ b) : InPlace (w.inode n) c b := by
  have hac' := Nat.div_le_div_right (c := 4096) hac
  have hcb' := Nat.div_le_div_right (c := 4096) hcb
  have hsize := h.size
  have hdiv := Nat.div_le_div_right (c := 4096) (le_max_left (v.inode n).fileSize c)
  have hdiv' := Nat.div_le_div_right (c := 4096) (le_max_right (v.inode n).fileSize c)
  obtain ⟨hnext, hbehind⟩ := hplace
  constructor
  · rw [hsize]
    intro k hk hkb
    rcases hnext k (by omega) hkb with hzero | ⟨hmod, hown⟩
    · left
      apply h.ptr_eq_zero hzero (by omega)
      intro _
      rw [lastPointer]
      omega
    · by_cases hfirst : k = (v.inode n).fileSize / 4096 + 1 ∧ a / 4096 < c / 4096
      · -- the block was already taken, inside the file
        obtain ⟨rfl, hlt⟩ := hfirst
        left
        apply h.ptr_eq_zero (hbehind (by omega) (by omega)) (by omega)
        intro _
        rw [lastPointer]
        omega
      · right
        refine ⟨hmod, h.ptr_eq_zero hown (by omega) fun hlt => ?_⟩
        rw [lastPointer]
        omega
  · rw [hsize]
    intro hc hlt
    have hmax : max (v.inode n).fileSize c = (v.inode n).fileSize := by omega
    rw [hmax] at hlt ⊢
    apply h.ptr_eq_zero (hbehind (by omega) hlt) (by omega)
    intro _
    rw [lastPointer]
    omega

variable (src pos len) in
/-- INTERNAL: **a round that does not fill its block.** SRCLINE: sacio.c:204-242 -/
theorem written_resized (h : OwnFile v n) (hptr : (v.inode n).ptr 0 ≠ 0) (hpos : pos ≤ (v.inode n).fileSize)
    (hlen : pos % 4096 + len < 4096) (f : Bytes) (hf : ∀ i < len, f i = src (pos + i)) :
    Written v (resized (storedAt v n pos f len) n (max (v.inode n).fileSize (pos + len))) n
      pos (pos + len) src := by
  have hk := held_of_div_le h.live h.state hptr (Nat.div_le_div_right (c := 4096) hpos)
  have hstore : Grown n v (storedAt v n pos f len) := grown_setData h hk _
  have hinode : (storedAt v n pos f len).inode n = v.inode n := rfl
  have hS : max (v.inode n).fileSize (pos + len) / 4096 = (v.inode n).fileSize / 4096 := by
    have := Nat.div_le_div_right (c := 4096) hpos
    omega
  have hresize := grown_resized hstore.own hptr (S := max (v.inode n).fileSize (pos + len)) hS
  have hsame : (resized (storedAt v n pos f len) n (max (v.inode n).fileSize (pos + len))).used =
      v.used := rfl
  refine ⟨hstore.trans hresize, ?_, fun i hi => ?_, fun hs i hi => ?_, fun _ _ => rfl,
    fun x hx hx' => ?_, ?_, taken_of_same hsame (by rw [resized_inode]; rfl) _ _⟩
  · rw [resized_inode]
  · have hi' : v.held n (.data (i / 4096)) := by
      apply held_of_div_le h.live h.state hptr
      rw [← hS]
      exact Nat.div_le_div_right hi.le
    rw [byteAt_resized, byteAt_storedAt h hk hlen.le hi']
    by_cases hin : pos ≤ i ∧ i < pos + len
    · rw [if_pos hin, if_pos hin, hf _ (by omega), show pos + (i - pos) = i by omega]
    · rw [if_neg hin, if_neg hin]
  · rw [resized_inode] at hi ⊢
    apply hs i
    have hi' : (max (v.inode n).fileSize (pos + len) / 4096 + 1) / 1024 < i := hi
    rwa [hS] at hi'
  · rw [hsame, hx] at hx'
    cases hx'
  · have hfirst : firstBlocks ((resized (storedAt v n pos f len) n
        (max (v.inode n).fileSize (pos + len))).inode n) = firstBlocks (v.inode n) := by
      rw [resized_inode]
      rfl
    rw [hfirst, hsame]
    omega

variable (src) in
/-- INTERNAL: **a round that fills its block** and takes the next one. SRCLINE:
sacio.c:223-236 -/
theorem written_extended {x y : ℕ} (h : OwnFile v n) (hptr : (v.inode n).ptr 0 ≠ 0) (hpos : pos ≤ (v.inode n).fileSize)
    (hlen : pos % 4096 + len = 4096) (f : Bytes) (hf : ∀ i < len, f i = src (pos + i))
    (he : Extension (storedAt v n pos f len) n x y) (hfirst : TakesFirst v x y) :
    Written v (extendedBy (storedAt v n pos f len) n x y (max (v.inode n).fileSize (pos + len))) n
      pos (pos + len) src := by
  have hk := held_of_div_le h.live h.state hptr (Nat.div_le_div_right (c := 4096) hpos)
  have hstore : Grown n v (storedAt v n pos f len) := grown_setData h hk _
  have hblocks : ((storedAt v n pos f len).inode n).blocks = (v.inode n).fileSize / 4096 + 1 :=
    blocks_file h.state hptr
  have hle := Nat.div_le_div_right (c := 4096) hpos
  have hS : max (v.inode n).fileSize (pos + len) / 4096 ≤
      ((storedAt v n pos f len).inode n).blocks := by
    rw [hblocks]
    omega
  have hSle : ((storedAt v n pos f len).inode n).fileSize ≤
      max (v.inode n).fileSize (pos + len) := le_max_left _ _
  have hextend := grown_extend he hstore.own hSle hS
  have hptr' := (extendedBy_ptr he hstore.own hS).2.1
  have htaken := freeCount_extendedBy (v := storedAt v n pos f len) (n := n) x y
    (max (v.inode n).fileSize (pos + len)) 34 3000
  refine ⟨hstore.trans hextend, ?_, fun i hi => ?_, fun hs => ?_, fun _ e => ?_,
    fun b hb hb' c hc hcb => ?_, ?_, ?_⟩
  · rw [extendedBy_inode]
  · have hi' : i / 4096 ≤ (v.inode n).fileSize / 4096 := by omega
    have hheld := held_of_div_le h.live h.state hptr hi'
    rw [byteAt_extendedBy he hstore.own (hstore.kept _ hheld).1,
      byteAt_storedAt h hk hlen.le hheld]
    by_cases hin : pos ≤ i ∧ i < pos + len
    · rw [if_pos hin, if_pos hin, hf _ (by omega), show pos + (i - pos) = i by omega]
    · rw [if_neg hin, if_neg hin]
  · exact NoStray.extend (v := storedAt v n pos f len) hs h.state h.file hSle
  · omega
  · have hfirst' : TakesFirst (storedAt v n pos f len) x y := ⟨hfirst.pointer, hfirst.data⟩
    exact hfirst'.lowest hb hb' hc hcb
  · have hused : (storedAt v n pos f len).used = v.used := rfl
    rw [hused] at htaken
    rw [firstBlocks, if_neg hptr']
    omega
  · have htakes : Taken (storedAt v n pos f len) (extendedBy (storedAt v n pos f len) n x y
        (max (v.inode n).fileSize (pos + len))) n pos (pos + len) := by
      refine taken_of_update hstore.own extendedBy_used (by rw [extendedBy_inode])
        (he.ptr.imp_right fun hz => hz.1) ?_ fun _ => Or.inr ⟨by omega, ?_⟩
      · rw [firstBlocks, if_neg hptr']
        omega
      · have hsize : ((storedAt v n pos f len).inode n).fileSize = (v.inode n).fileSize := rfl
        rw [hblocks, hsize, lastPointer]
        omega
    exact ⟨htakes.blocks, htakes.pointers⟩

variable (src) in
/-- INTERNAL: **a round that fills a block inside the file** takes a block that is not looked up.
SRCLINE: sacio.c:223-230 -/
theorem written_taken {i j x y : ℕ} (h : OwnFile v n) (hptr : (v.inode n).ptr 0 ≠ 0)
    (hin : pos + len ≤ (v.inode n).fileSize) (hlen : pos % 4096 + len = 4096) (f : Bytes)
    (hf : ∀ i < len, f i = src (pos + i)) (ht : TakesAt (storedAt v n pos f len) n i j x y)
    (hfirst : TakesFirst v x y)
    (hi : (v.inode n).ptr i = 0 → i ≤ ((v.inode n).fileSize / 4096 + 1) / 1024) :
    Written v (takenAt (storedAt v n pos f len) n i j x y) n pos (pos + len) src := by
  have hpos : pos ≤ (v.inode n).fileSize := by omega
  have hk := held_of_div_le h.live h.state hptr (Nat.div_le_div_right (c := 4096) hpos)
  have hstore : Grown n v (storedAt v n pos f len) := grown_setData h hk _
  have htake := grown_takenAt (v := storedAt v n pos f len) hptr ht hstore.own
  have hptr' := (htake.kept (.ptr 0) ⟨hstore.own.live, hptr⟩).1.2
  have hfirst' : TakesFirst (storedAt v n pos f len) x y := ⟨hfirst.pointer, hfirst.data⟩
  have hcount := freeCount_extendedBy (v := storedAt v n pos f len) (n := n) x y 0 34 3000
  refine ⟨hstore.trans htake, ?_, fun l hl => ?_, fun hs l hl => ?_, fun _ e => ?_,
    fun b hb hb' c hc hcb => hfirst'.lowest (n := n) (S := 0) hb hb' hc hcb, ?_, ?_⟩
  · rw [takenAt_inode, max_eq_left hin]
    rfl
  · rw [max_eq_left hin] at hl
    have hheld := held_of_div_le h.live h.state hptr (Nat.div_le_div_right (c := 4096) hl.le)
    have hheld' := (hstore.kept _ hheld).1
    have hsame : byteAt (takenAt (storedAt v n pos f len) n i j x y) n l =
        byteAt (storedAt v n pos f len) n l := by
      unfold byteAt
      rw [takenAt_place ht hstore.own hheld',
        takenAt_data_ne (ht.place_ne hstore.own hheld' (by simp))]
    rw [hsame, byteAt_storedAt h hk hlen.le hheld]
    by_cases hin : pos ≤ l ∧ l < pos + len
    · rw [if_pos hin, if_pos hin, hf _ (by omega), show pos + (l - pos) = l by omega]
    · rw [if_neg hin, if_neg hin]
  · rw [takenAt_inode] at hl ⊢
    have hl' : ((v.inode n).fileSize / 4096 + 1) / 1024 < l := hl
    have hzero : (v.inode n).ptr l = 0 := hs l hl'
    dsimp only
    rw [Function.update_of_ne]
    · exact hzero
    · rintro rfl
      exact absurd (hi hzero) (by omega)
  · omega
  · have hused : (takenAt (storedAt v n pos f len) n i j x y).used =
        (extendedBy (storedAt v n pos f len) n x y 0).used := rfl
    have hused' : (storedAt v n pos f len).used = v.used := rfl
    rw [hused'] at hcount
    rw [firstBlocks, if_neg hptr', hused]
    omega
  · have htakes : Taken (storedAt v n pos f len) (takenAt (storedAt v n pos f len) n i j x y) n
        pos (pos + len) := by
      refine taken_of_update hstore.own takenAt_used (by rw [takenAt_inode])
        (ht.ptr.imp_right fun hz => hz.1) ?_ fun hz => Or.inr ⟨by omega, ?_⟩
      · rw [firstBlocks, if_neg hptr']
        omega
      · have hle := hi hz
        have hsize : ((storedAt v n pos f len).inode n).fileSize = (v.inode n).fileSize := rfl
        rw [hsize, lastPointer]
        omega
    exact ⟨htakes.blocks, htakes.pointers⟩

end Rounds

/-! ## The loop -/

/-- The size that a round gives the node. SRCLINE: sacio.c:231-236 -/
def nuevoTamano (offset fileSizeOriginal : ℤ) (cantBytesEscritos : ℕ) (fileNode : Node) : Node :=
  if offset + cantBytesEscritos > fileSizeOriginal then
    { fileNode with fileSize := u32 (offset + cantBytesEscritos) }
  else fileNode

/-- The size of a file of `size` bytes, `orig` of them before the copy loop, when a round of that
loop has come to `stop`. -/
def newSize (orig : ℤ) (size stop : ℕ) : ℕ := if orig < stop then stop else size

section Loop

variable {E : Fault → View → Prop} {n : ℕ} {buffer : List UInt8} {offset orig : ℕ}

/-- INTERNAL: the copy loop stops behind the last byte. SRCLINE: sacio.c:204 -/
theorem escribirBuffer_done {abi : Abi} {offset orig : ℤ} {node : Node} {rounds escritos : ℕ}
    (hrounds : rounds ≠ 0) (hdone : buffer.length ≤ escritos) (bloque byte enBloque : ℕ) :
    escribirBuffer abi buffer offset orig rounds node bloque byte escritos enBloque = pure node := by
  obtain ⟨rounds, rfl⟩ := Nat.exists_eq_succ_of_ne_zero hrounds
  unfold escribirBuffer
  rw [if_neg (not_lt.mpr hdone)]

/-- The byte that the write puts at position `i` of the file. -/
def sourceByte (buffer : List UInt8) (offset i : ℕ) : UInt8 := buffer.getD (i - offset) 0

theorem newSize_newSize {orig : ℤ} {size stop stop' : ℕ} (h : stop ≤ stop') :
    newSize orig (newSize orig size stop) stop' = newSize orig size stop' := by
  unfold newSize
  split
  · rfl
  · rw [if_neg (by omega)]

theorem nuevoTamano_newSize (orig : ℤ) (node : Node) {e : ℕ} (hlt : offset + e < 2 ^ 32) :
    nuevoTamano offset orig e node =
      { node with fileSize := newSize orig node.fileSize (offset + e) } := by
  unfold nuevoTamano newSize
  rw [← Int.natCast_add, u32_natCast_of_lt hlt]
  split
  · rfl
  · rfl

variable (offset orig) in
theorem nuevoTamano_eq (node : Node) {e e' : ℕ} (horig : orig ≤ node.fileSize)
    (hsize : node.fileSize ≤ max orig (offset + e)) (he : e ≤ e') (hlt : offset + e' < 2 ^ 32) :
    nuevoTamano offset orig e' node =
      { node with fileSize := max node.fileSize (offset + e') } := by
  have hmax : newSize orig node.fileSize (offset + e') = max node.fileSize (offset + e') := by
    unfold newSize
    split <;> omega
  rw [nuevoTamano_newSize orig node hlt, hmax]

section Round

variable {Q : Node → View → Prop} {node : Node} {v : View} {rounds escritos : ℕ}

/-- INTERNAL: the beginning of a round: the block is looked up and its piece of the buffer stored
in it, whatever the rest of the file is. SRCLINE: sacio.c:204-218 -/
theorem vwp_escribirBuffer_lookup {b cant : ℕ} {orig : ℤ} (hmore : escritos < buffer.length)
    (hk : (offset + escritos) / 4096 / 1024 < 1000)
    (hp : 34 ≤ node.indirectPointerBlock ((offset + escritos) / 4096 / 1024))
    (hp' : node.indirectPointerBlock ((offset + escritos) / 4096 / 1024) < 3000)
    (hdata : v.dataBlock (inodeOfNode node) ((offset + escritos) / 4096) = b)
    (hb : 34 ≤ b) (hb' : b < 3000)
    (hcant : cant = min (buffer.length - escritos) (4096 - (offset + escritos) % 4096))
    (hrest : vwp
      (if cant = 4096 - (offset + escritos) % 4096 ∧ escritos + cant ≤ buffer.length then
        addDataBlockToNode node >>= fun node' => escribirBuffer .ilp32 buffer offset orig rounds
          (nuevoTamano offset orig (escritos + cant) node') ((offset + escritos) / 4096 + 1) 0
          (escritos + cant) 0
      else escribirBuffer .ilp32 buffer offset orig rounds
        (nuevoTamano offset orig (escritos + cant) node) ((offset + escritos) / 4096)
        ((offset + escritos) % 4096) (escritos + cant) (0 + cant)) Q E
      (v.setData b (memcpy (v.data b) ((offset + escritos) % 4096)
        (fun i => buffer.getD (escritos + i) 0) cant))) :
    vwp (escribirBuffer .ilp32 buffer offset orig (rounds + 1) node ((offset + escritos) / 4096)
      ((offset + escritos) % 4096) escritos 0) Q E v := by
  subst hdata
  unfold escribirBuffer
  rw [if_pos hmore]
  apply vwp_bind
  apply vwp_getDataBlockFromNode (Or.inl rfl) hk hp hp' hb'
  rw [Nat.add_zero]
  dsimp only [blockSize]
  rw [← hcant]
  exact vwp_bind (vwp_store hb hb' (by omega) hrest)

/-- INTERNAL: the same for a file with blocks of its own. SRCLINE: sacio.c:204-218 -/
theorem vwp_escribirBuffer_store (h : OwnFile (v.setInode n (inodeOfNode node)) n)
    (hptr : node.indirectPointerBlock 0 ≠ 0) (hmore : escritos < buffer.length)
    (hblock : (offset + escritos) / 4096 ≤ node.fileSize / 4096) (cant : ℕ)
    (hcant : cant = min (buffer.length - escritos) (4096 - (offset + escritos) % 4096))
    (hrest : ∀ w, w.used = v.used →
      w.setInode n (inodeOfNode node) =
        storedAt (v.setInode n (inodeOfNode node)) n (offset + escritos)
          (fun i => buffer.getD (escritos + i) 0) cant →
      vwp (if cant = 4096 - (offset + escritos) % 4096 ∧ escritos + cant ≤ buffer.length then
          addDataBlockToNode node >>= fun node' => escribirBuffer .ilp32 buffer offset orig rounds
            (nuevoTamano offset orig (escritos + cant) node') ((offset + escritos) / 4096 + 1) 0
            (escritos + cant) 0
        else escribirBuffer .ilp32 buffer offset orig rounds
          (nuevoTamano offset orig (escritos + cant) node) ((offset + escritos) / 4096)
          ((offset + escritos) % 4096) (escritos + cant) (0 + cant)) Q E w) :
    vwp (escribirBuffer .ilp32 buffer offset orig (rounds + 1) node ((offset + escritos) / 4096)
      ((offset + escritos) % 4096) escritos 0) Q E v := by
  generalize hV : v.setInode n (inodeOfNode node) = V at h hrest
  have hVinode : V.inode n = inodeOfNode node := by rw [← hV, View.setInode_same]
  have hVptr : (V.inode n).ptr 0 ≠ 0 := by rw [hVinode]; exact hptr
  have hVsize : (V.inode n).fileSize = node.fileSize := by rw [hVinode]; rfl
  have hheld : V.held n (.data ((offset + escritos) / 4096)) :=
    held_of_div_le h.live h.state hVptr (by rw [hVsize]; exact hblock)
  have hle := h.blocks_le
  rw [blocks_file h.state hVptr, hVsize] at hle
  obtain ⟨hp, hp', -⟩ := h.inData (h.held_ptr hheld)
  obtain ⟨hb, hb', -⟩ := h.inData hheld
  have hplace : v.dataBlock (inodeOfNode node) ((offset + escritos) / 4096) =
      V.place n (.data ((offset + escritos) / 4096)) := by
    simp only [View.place, hVinode]
    rw [← hV]
    rfl
  have hdata : V.data = v.data := by rw [← hV]; rfl
  simp only [View.place, hVinode] at hp hp'
  apply vwp_escribirBuffer_lookup hmore (by omega) hp hp' hplace hb hb' hcant
  refine hrest _ rfl ?_
  rw [storedAt, hdata, ← hV]
  rfl

/-- INTERNAL: **a round that fills its block.** SRCLINE: sacio.c:204-236 -/
theorem vwp_escribirBuffer_full (h : OwnFile (v.setInode n (inodeOfNode node)) n)
    (hptr : node.indirectPointerBlock 0 ≠ 0)
    (hblock : (offset + escritos) / 4096 ≤ node.fileSize / 4096) {cant : ℕ}
    (hcant : (offset + escritos) % 4096 + cant = 4096) (hfits : escritos + cant ≤ buffer.length)
    (hrest : ∀ w, w.used = v.used →
      w.setInode n (inodeOfNode node) =
        storedAt (v.setInode n (inodeOfNode node)) n (offset + escritos)
          (fun i => buffer.getD (escritos + i) 0) cant →
      vwp (addDataBlockToNode node >>= fun node' =>
        escribirBuffer .ilp32 buffer offset orig rounds
          (nuevoTamano offset orig (escritos + cant) node') ((offset + (escritos + cant)) / 4096)
          ((offset + (escritos + cant)) % 4096) (escritos + cant) 0) Q E w) :
    vwp (escribirBuffer .ilp32 buffer offset orig (rounds + 1) node ((offset + escritos) / 4096)
      ((offset + escritos) % 4096) escritos 0) Q E v := by
  have hnext : (offset + escritos) / 4096 + 1 = (offset + (escritos + cant)) / 4096 ∧
      (offset + (escritos + cant)) % 4096 = 0 := by omega
  apply vwp_escribirBuffer_store h hptr (by omega) hblock cant (by omega)
  intro w hused hstored
  rw [if_pos ⟨by omega, hfits⟩, hnext.1]
  have hround := hrest w hused hstored
  rw [hnext.2] at hround
  exact hround

/-- INTERNAL: **a round that does not fill its block** is the last one. SRCLINE:
sacio.c:204-242 -/
theorem vwp_escribirBuffer_part (h : OwnFile (v.setInode n (inodeOfNode node)) n)
    (hptr : node.indirectPointerBlock 0 ≠ 0)
    (hblock : (offset + escritos) / 4096 ≤ node.fileSize / 4096) {cant : ℕ} (hpos : 0 < cant)
    (hall : escritos + cant = buffer.length) (hcant : (offset + escritos) % 4096 + cant < 4096)
    (hrounds : rounds ≠ 0)
    (hQ : ∀ w, w.used = v.used →
      w.setInode n (inodeOfNode node) =
        storedAt (v.setInode n (inodeOfNode node)) n (offset + escritos)
          (fun i => buffer.getD (escritos + i) 0) cant →
      Q (nuevoTamano offset orig buffer.length node) w) :
    vwp (escribirBuffer .ilp32 buffer offset orig (rounds + 1) node ((offset + escritos) / 4096)
      ((offset + escritos) % 4096) escritos 0) Q E v := by
  apply vwp_escribirBuffer_store h hptr (by omega) hblock cant (by omega)
  intro w hused hstored
  rw [if_neg (by omega), hall, escribirBuffer_done hrounds le_rfl]
  exact vwp_pure (hQ w hused hstored)

/-- INTERNAL: **a round that has filled its block takes another one.** SRCLINE:
sacio.c:227-230 -/
theorem vwp_addDataBlockToNode_round {w : View} {pos len : ℕ} {f : Bytes} (src : ℕ → UInt8)
    (h : OwnFile (v.setInode n (inodeOfNode node)) n)
    (hptr : node.indirectPointerBlock 0 ≠ 0) (hpos : pos ≤ node.fileSize)
    (hlen : pos % 4096 + len = 4096) (hf : ∀ i < len, f i = src (pos + i))
    (hnext : node.fileSize < pos + len →
      NextInPlace (inodeOfNode node) (node.fileSize / 4096 + 1))
    (hused : w.used = v.used)
    (hstored : w.setInode n (inodeOfNode node) =
      storedAt (v.setInode n (inodeOfNode node)) n pos f len)
    (hQ : ∀ node' w', node'.fileSize = node.fileSize →
      freeCount v.used 34 3000 ≤ freeCount w'.used 34 3000 + 2 →
      Written (v.setInode n (inodeOfNode node)) (w'.setInode n (inodeOfNode
        { node' with fileSize := max node.fileSize (pos + len) })) n pos (pos + len) src →
      Q node' w')
    (hE : ∀ e u, e.IsAlloc → freeCount v.used 34 3000 ≤ 1 → OnlyTakes w u → E e u) :
    vwp (addDataBlockToNode node) Q E w := by
  generalize hV : v.setInode n (inodeOfNode node) = V at h hstored hQ
  have hVinode : V.inode n = inodeOfNode node := by rw [← hV, View.setInode_same]
  have hVused : V.used = v.used := by rw [← hV]; rfl
  have hVptr : (V.inode n).ptr 0 ≠ 0 := by rw [hVinode]; exact hptr
  have hVsize : (V.inode n).fileSize = node.fileSize := by rw [hVinode]; rfl
  have hheld := held_of_div_le h.live h.state hVptr (i := pos)
    (by rw [hVsize]; exact Nat.div_le_div_right hpos)
  have hown : OwnFile (w.setInode n (inodeOfNode node)) n := by
    rw [hstored]
    exact (grown_setData h hheld _).own
  have htakes : ∀ x y, TakesFirst w x y → TakesFirst V x y := by
    intro x y hfirst
    constructor
    · rw [hVused, ← hused]
      exact hfirst.pointer
    · rw [hVused, ← hused]
      exact hfirst.data
  have htaken : ∀ x y (w' : View), w'.used = (extendedBy V n x y 0).used →
      freeCount v.used 34 3000 ≤ freeCount w'.used 34 3000 + 2 := by
    intro x y w' hw'
    rw [hw', ← hVused]
    exact freeCount_extendedBy x y 0 34 3000
  have hstop : ∀ e u, e.IsAlloc → freeCount w.used 34 3000 ≤ 1 → OnlyTakes w u → E e u := by
    intro e u he hcount htakes
    rw [hused] at hcount
    exact hE e u he hcount htakes
  by_cases hbehind : node.fileSize < pos + len
  · -- the file goes on in the new block
    apply vwp_addDataBlockToNode hown (Or.inl (hnext hbehind)) _ hstop
    intro node' w' x y hext hfirst hw' hfs
    rw [hstored] at hext hw'
    refine hQ node' w' hfs (htaken x y w' ?_) ?_
    · have hview := congrArg View.used (hw' 0)
      exact hview
    · rw [hw']
      have := written_extended src h hVptr (by rw [hVsize]; exact hpos) hlen f hf hext
        (htakes x y hfirst)
      rwa [hVsize] at this
  · -- the block is one too many
    apply vwp_addDataBlockToNode_takes hown hptr _ _ hstop
    · have := h.fileSize_lt
      omega
    intro node' w' i j x y hat hfirst hi hw' hfs
    rw [hstored] at hat hw'
    refine hQ node' w' hfs (htaken x y w' ?_) ?_
    · have hview := congrArg View.used hw'
      exact hview
    · have hwritten := written_taken src h hVptr (by rw [hVsize]; omega) hlen f hf hat
        (htakes x y hfirst) (by rw [hVinode]; exact hi)
      have hmax : max node.fileSize (pos + len) = node.fileSize := by omega
      rw [hmax]
      have hnode' : w'.setInode n (inodeOfNode { node' with fileSize := node.fileSize }) =
          w'.setInode n (inodeOfNode node') := by rw [← hfs]
      rw [hnode', hw']
      exact hwritten

end Round

variable (offset orig) in
/-- INTERNAL: **the copy loop of `sac_write`.**  The view with the private copy of the node in
place is what the rounds act on; the induction is on the rounds that are left.
SRCLINE: sacio.c:204-242 -/
theorem vwp_escribirBuffer {Q : Node → View → Prop} (rounds : ℕ) (node : Node) (v : View)
    (escritos : ℕ) (h : OwnFile (v.setInode n (inodeOfNode node)) n)
    (hptr : node.indirectPointerBlock 0 ≠ 0)
    (hsize : node.fileSize = max orig (offset + escritos))
    (hplace : InPlace (inodeOfNode node) (offset + escritos) (offset + buffer.length))
    (hescritos : escritos ≤ buffer.length) (hrounds : buffer.length - escritos < rounds)
    (hQ : ∀ node' w, Written (v.setInode n (inodeOfNode node)) (w.setInode n (inodeOfNode node'))
      n (offset + escritos) (offset + buffer.length) (sourceByte buffer offset) → Q node' w)
    (hE : ∀ e w, e.IsAlloc → freeCount v.used 34 3000 <
      2 * (((offset + escritos) % 4096 + (buffer.length - escritos)) / 4096) → E e w) :
    vwp (escribirBuffer .ilp32 buffer offset orig rounds node ((offset + escritos) / 4096)
      ((offset + escritos) % 4096) escritos 0) Q E v := by
  induction rounds generalizing node v escritos with
  | zero => omega
  | succ rounds ih =>
    have hVinode := View.setInode_same (v := v) n (inodeOfNode node)
    have hVptr : ((v.setInode n (inodeOfNode node)).inode n).ptr 0 ≠ 0 := by
      rw [hVinode]
      exact hptr
    have hVsize : ((v.setInode n (inodeOfNode node)).inode n).fileSize = node.fileSize := by
      rw [hVinode]
      rfl
    have hposle : offset + escritos ≤ ((v.setInode n (inodeOfNode node)).inode n).fileSize := by
      omega
    have hdivle : (offset + escritos) / 4096 ≤ node.fileSize / 4096 :=
      Nat.div_le_div_right (by omega)
    have hle := h.blocks_le
    rw [blocks_file h.state hVptr, hVsize] at hle
    have hsource : ∀ cant, ∀ i < cant, (fun i => buffer.getD (escritos + i) 0) i =
        sourceByte buffer offset (offset + escritos + i) := by
      intro _ i _
      simp only [sourceByte]
      congr 1
      omega
    by_cases hdone : escritos < buffer.length
    swap
    · have hall : buffer.length = escritos := by omega
      rw [escribirBuffer_done (Nat.succ_ne_zero _) (not_lt.mp hdone)]
      apply vwp_pure
      apply hQ node v
      rw [hall]
      exact Written.refl h hposle _
    by_cases hfull : 4096 ≤ (offset + escritos) % 4096 + (buffer.length - escritos)
    · -- the block gets full
      obtain ⟨cant, hcant⟩ : ∃ cant, (offset + escritos) % 4096 + cant = 4096 :=
        ⟨4096 - (offset + escritos) % 4096, by omega⟩
      apply vwp_escribirBuffer_full h hptr hdivle hcant (by omega)
      intro w hused hstored
      apply vwp_bind
      apply vwp_addDataBlockToNode_round (sourceByte buffer offset) h hptr (by omega) hcant
        (hsource cant) _ hused hstored
      · intro node₁ w₁ hfs htaken hwritten
        rw [Nat.add_assoc] at hwritten
        rw [nuevoTamano_eq offset orig node₁ (by omega) (by omega) (Nat.le_add_right escritos cant)
          (by omega), hfs]
        have hkept := (hwritten.grown.kept (.ptr 0) ⟨h.live, hVptr⟩).1.2
        have hplace' := hwritten.inPlace (hVinode.symm ▸ hplace) (by omega) (by omega)
        rw [View.setInode_same] at hkept hplace'
        apply ih _ w₁ _ hwritten.grown.own hkept _ hplace' (by omega) (by omega)
        · intro node' w' hrest
          exact hQ node' w' (hwritten.trans hrest h.live (by omega) (by omega))
        · intro e w' he hcount
          exact hE e w' he (by omega)
        · dsimp only
          omega
      · intro e w' he hcount _
        exact hE e w' he (by omega)
      · intro hbehind
        apply hplace.1 _ (Nat.lt_succ_self _)
        have hfs : (inodeOfNode node).fileSize = node.fileSize := rfl
        omega
    · -- the last piece
      obtain ⟨cant, hcant⟩ : ∃ cant, escritos + cant = buffer.length :=
        ⟨buffer.length - escritos, by omega⟩
      apply vwp_escribirBuffer_part h hptr hdivle (by omega) hcant (by omega) (by omega)
      intro w _ hstored
      have hpart : (offset + escritos) % 4096 + cant < 4096 := by omega
      have hwritten := written_resized (sourceByte buffer offset) (offset + escritos) cant h hVptr
        hposle hpart _ (hsource cant)
      rw [hVsize, Nat.add_assoc, hcant] at hwritten
      rw [nuevoTamano_eq offset orig node (by omega) (by omega) hescritos (by omega)]
      apply hQ
      have hview : w.setInode n (inodeOfNode
          { node with fileSize := max node.fileSize (offset + buffer.length) }) =
          resized (storedAt (v.setInode n (inodeOfNode node)) n (offset + escritos)
            (fun i => buffer.getD (escritos + i) 0) cant) n
            (max node.fileSize (offset + buffer.length)) := by
        rw [resized, ← hstored, View.setInode_setInode, View.setInode_same]
        rfl
      rw [hview]
      exact hwritten

end Loop

/-! ## sac_write -/

section Operation

variable {v : View} {E : Fault → View → Prop} {n : ℕ} {buffer : List UInt8} {offset : ℕ}

theorem Written.congr {w : View} {a b : ℕ} {src src' : ℕ → UInt8} (h : Written v w n a b src)
    (hsrc : ∀ i, a ≤ i → i < b → src i = src' i) : Written v w n a b src' where
  grown := h.grown
  size := h.size
  byte i hi := by
    rw [h.byte i hi]
    by_cases hin : a ≤ i ∧ i < b
    · rw [if_pos hin, if_pos hin, hsrc i hin.1 hin.2]
    · rw [if_neg hin, if_neg hin]
  noStray := h.noStray
  used := h.used
  lowest := h.lowest
  count := h.count
  taken := h.taken

/-- INTERNAL: a file of a well-formed view is smaller than the data region. -/
theorem fileSize_lt (h : Core v) (hn : v.live n) (hstate : (v.inode n).state = 1) :
    (v.inode n).fileSize < 2966 * 4096 :=
  (ownFile_of_core h hn hstate).fileSize_lt

/-- INTERNAL: **the first block** of a file that has none. SRCLINE: sacio.c:163-166 -/
theorem vwp_primerBloque {α : Type} {f : Node → Sac α} {Q : α → View → Prop} {node : Node}
    (h : OwnFile (v.setInode n (inodeOfNode node)) n)
    {a : ℕ} (ha : a ≤ node.fileSize) (src : ℕ → UInt8)
    (hQ : ∀ node' w, node'.indirectPointerBlock 0 ≠ 0 →
      freeCount v.used 34 3000 ≤ freeCount w.used 34 3000 + 2 →
      (node.indirectPointerBlock 0 = 0 → ∃ x y, TakesFirst v x y ∧
        w.setInode n (inodeOfNode node') =
          extendedBy (v.setInode n (inodeOfNode node)) n x y 0) →
      Written (v.setInode n (inodeOfNode node)) (w.setInode n (inodeOfNode node')) n a a src →
      vwp (f node') Q E w)
    (hE : ∀ e w, e.IsAlloc → freeCount v.used 34 3000 ≤ 1 → OnlyTakes v w → E e w) :
    vwp (if node.indirectPointerBlock 0 = 0 then addDataBlockToNode node >>= f
      else pure node >>= f) Q E v := by
  by_cases hptr : node.indirectPointerBlock 0 = 0
  · rw [if_pos hptr]
    refine vwp_bind (vwp_addDataBlockToNode h (Or.inr hptr)
      (fun node' w x y he hfirst hw hfs => ?_) hE)
    generalize hV : v.setInode n (inodeOfNode node) = V at h he hw hQ
    have hVinode : V.inode n = inodeOfNode node := by rw [← hV, View.setInode_same]
    have hnone : (V.inode n).ptr 0 = 0 := by
      rw [hVinode]
      exact hptr
    have hsize : (V.inode n).fileSize = 0 := h.file.empty hnone
    have hfs₀ : node.fileSize = 0 := by
      rw [hVinode] at hsize
      exact hsize
    have hw₀ : w.setInode n (inodeOfNode node') = extendedBy V n x y 0 := by
      rw [← hw 0]
      have : { node' with fileSize := 0 } = node' := by
        rw [← hfs₀, ← hfs]
      rw [this]
    have hgrown := grown_extend he h hsize.le (Nat.zero_le _)
    have hextended := (extendedBy_ptr (S := 0) he h (Nat.zero_le _)).2.1
    have hptr' := hextended
    rw [← hw₀, View.setInode_same] at hptr'
    refine hQ node' w hptr' ?_ (fun _ => ⟨x, y, hfirst, hw₀⟩) ?_
    · have hcount := freeCount_extendedBy (v := V) (n := n) x y 0 34 3000
      rw [← hw₀, ← hV] at hcount
      exact hcount
    · rw [hw₀]
      obtain rfl : a = 0 := by omega
      have htakes : TakesFirst V x y := hV ▸ ⟨hfirst.pointer, hfirst.data⟩
      have htaken := freeCount_extendedBy (v := V) (n := n) x y 0 34 3000
      refine ⟨hgrown, ?_, fun i hi => ?_, fun hs => hs.extend h.state h.file hsize.le,
        fun e => absurd hnone e, fun b hb hb' c hc hcb => htakes.lowest hb hb' hc hcb, ?_, ?_⟩
      · rw [extendedBy_inode, hsize]
        rfl
      · rw [hsize] at hi
        omega
      · rw [firstBlocks, if_neg hextended, firstBlocks, if_pos hnone]
        omega
      · have hblocks : (V.inode n).blocks = 0 := by
          rw [Inode.blocks, if_pos h.state, if_pos hnone]
        refine taken_of_update h extendedBy_used (by rw [extendedBy_inode])
          (he.ptr.imp_right fun hz => hz.1) ?_ fun _ => Or.inl (by rw [hblocks])
        rw [firstBlocks, if_neg hextended, firstBlocks, if_pos hnone]
  · rw [if_neg hptr]
    refine vwp_bind (vwp_pure (hQ node v hptr (Nat.le_add_right _ 2) (fun e => absurd e hptr) ?_))
    refine Written.refl h ?_ src
    rw [View.setInode_same]
    exact ha

/-- INTERNAL: the fill loop stops at the offset. SRCLINE: sacio.c:181 -/
theorem vwp_completarOffset_stop {Q : Node → View → Prop} {node : Node} {rounds : ℕ}
    (hrounds : rounds ≠ 0) (hoffset : offset ≤ node.fileSize) (hsize : node.fileSize < 2 ^ 32)
    (h : Q node v) : vwp (completarOffset .ilp32 rounds node (offset : ℤ)) Q E v := by
  obtain ⟨rounds, rfl⟩ := Nat.exists_eq_succ_of_ne_zero hrounds
  have hstop : ¬ node.fileSize < offset := by omega
  unfold completarOffset
  rw [u32_natCast_of_lt (n := offset) (by omega), if_neg hstop]
  exact vwp_pure h

/-- INTERNAL: **a round of the fill loop** looks its block up by the number modulo 1024, in the
first pointer block, whatever the rest of the file is. SRCLINE: sacio.c:181-200 -/
theorem vwp_completarOffset_round {Q : Node → View → Prop} {node : Node} {rounds b : ℕ}
    (cant : ℕ) (hoffset : node.fileSize < offset) (hsmall : offset < 2 ^ 31)
    (hcant : node.fileSize % 4096 + cant = min offset 4096)
    (hp : 34 ≤ node.indirectPointerBlock 0) (hp' : node.indirectPointerBlock 0 < 3000)
    (hdata : v.dataBlock (inodeOfNode node) (node.fileSize / 4096 % 1024) = b)
    (hb : 34 ≤ b) (hb' : b < 3000)
    (hrest : vwp (if node.fileSize % 4096 + cant = 4096 ∧ cant < offset then
        addDataBlockToNode { node with fileSize := node.fileSize + cant } >>= fun node' =>
          completarOffset .ilp32 rounds node' ((offset - cant : ℕ) : ℤ)
      else completarOffset .ilp32 rounds { node with fileSize := node.fileSize + cant }
        ((offset - cant : ℕ) : ℤ)) Q E
      (v.setData b (memcpy (v.data b) (node.fileSize % 4096) (fun _ => 0) cant))) :
    vwp (completarOffset .ilp32 (rounds + 1) node (offset : ℤ)) Q E v := by
  subst hdata
  have hle : cant ≤ offset := by omega
  have hnulls : min (offset : ℤ) (blockSize : ℕ) - ((node.fileSize % 4096 : ℕ) : ℤ) =
      (cant : ℤ) := by
    simp only [blockSize]
    omega
  have hzero : node.fileSize / 4096 % 1024 / 1024 = 0 := by omega
  have hsum : u32 ((node.fileSize : ℤ) + (cant : ℤ)) = node.fileSize + cant := by
    rw [← Int.natCast_add]
    exact u32_natCast_of_lt (by omega)
  have hmore : (offset : ℤ) - (cant : ℤ) > 0 ↔ cant < offset := by omega
  unfold completarOffset
  rw [u32_natCast_of_lt (n := offset) (by omega), if_pos hoffset, getNextWritePosition]
  dsimp only [blockSize] at hnulls ⊢
  rw [hnulls, if_neg (by omega), Int.toNat_natCast]
  apply vwp_bind
  apply vwp_getDataBlockFromNode (Or.inl rfl) (by omega) (by rw [hzero]; exact hp)
    (by rw [hzero]; exact hp') hb'
  apply vwp_bind
  apply vwp_store hb hb' (by omega)
  rw [hsum]
  simp only [hmore]
  rw [Int.ofNat_sub hle] at hrest
  exact hrest

/-- INTERNAL: **the zeros before the offset.**  None are needed up to the end of the file; in the
first block one round writes them. SRCLINE: sacio.c:181-200 -/
theorem vwp_completarOffset {Q : Node → View → Prop} {node : Node} {rounds : ℕ}
    (h : OwnFile (v.setInode n (inodeOfNode node)) n)
    (hptr : node.indirectPointerBlock 0 ≠ 0) (hoffset : offset ≤ node.fileSize ∨ offset < 4096)
    (hsize : node.fileSize < 2 ^ 31) (hrounds : offset < rounds)
    (hQ : ∀ node' w, w.used = v.used → node'.fileSize = max node.fileSize offset →
      Written (v.setInode n (inodeOfNode node)) (w.setInode n (inodeOfNode node')) n
        (min offset node.fileSize) offset (fun _ => 0) → Q node' w) :
    vwp (completarOffset .ilp32 rounds node (offset : ℤ)) Q E v := by
  by_cases hle : offset ≤ node.fileSize
  · apply vwp_completarOffset_stop (by omega) hle (by omega)
    apply hQ node v rfl (by omega)
    rw [min_eq_left hle]
    apply Written.refl h
    rw [View.setInode_same]
    exact hle
  have hlt := hoffset.resolve_left hle
  generalize hV : v.setInode n (inodeOfNode node) = V at h hQ
  have hVinode : V.inode n = inodeOfNode node := by rw [← hV, View.setInode_same]
  have hVptr : (V.inode n).ptr 0 ≠ 0 := by rw [hVinode]; exact hptr
  have hVsize : (V.inode n).fileSize = node.fileSize := by rw [hVinode]; rfl
  have hzero : node.fileSize / 4096 = 0 := by omega
  have hheld : V.held n (.data (node.fileSize / 4096)) :=
    held_of_div_le h.live h.state hVptr (by rw [hVsize])
  obtain ⟨hp, hp', -⟩ := h.inData (h.held_ptr hheld)
  obtain ⟨hb, hb', -⟩ := h.inData hheld
  simp only [View.place, hzero, hVinode] at hp hp'
  have hplace : v.dataBlock (inodeOfNode node) (node.fileSize / 4096 % 1024) =
      V.place n (.data (node.fileSize / 4096)) := by
    rw [View.place, hzero, hVinode, ← hV]
    rfl
  obtain ⟨rounds, rfl⟩ : ∃ k, rounds = k + 1 := ⟨rounds - 1, by omega⟩
  apply vwp_completarOffset_round (offset - node.fileSize) (by omega) (by omega) (by omega)
    hp hp' hplace hb hb'
  rw [if_neg (by omega)]
  have hend : node.fileSize + (offset - node.fileSize) = offset := by omega
  have hwritten := written_resized (fun _ => 0) node.fileSize (offset - node.fileSize) h
    hVptr hVsize.ge (by omega) (fun _ => 0) fun _ _ => rfl
  rw [hend, hVsize, max_eq_right (by omega)] at hwritten
  rw [hend]
  -- the second round finds the size at the offset
  apply vwp_completarOffset_stop (by omega) (by dsimp only; omega) (by dsimp only; omega)
  have hmax : offset = max node.fileSize offset := by omega
  refine hQ _ _ rfl hmax ?_
  rw [min_eq_right (by omega)]
  have hview : (v.setData (V.place n (.data (node.fileSize / 4096)))
      (memcpy (v.data (V.place n (.data (node.fileSize / 4096)))) (node.fileSize % 4096)
        (fun _ => 0) (offset - node.fileSize))).setInode n
        (inodeOfNode { node with fileSize := offset }) =
      resized (storedAt V n node.fileSize (fun _ => 0) (offset - node.fileSize)) n offset := by
    have hdata : V.data = v.data := by rw [← hV]; rfl
    rw [resized, storedAt, hdata, View.setData_inode, hVinode, ← hV, View.setInode_setData,
      View.setInode_setInode]
    rfl
  rw [hview]
  exact hwritten

/-- INTERNAL: **the copy loop and the last store** of `sac_write`. SRCLINE: sacio.c:202-246 -/
theorem vwp_sacWrite_copy {Q : ℕ → View → Prop} {node : Node}
    (h : OwnFile (v.setInode n (inodeOfNode node)) n)
    (hptr : node.indirectPointerBlock 0 ≠ 0) (hoffset : offset ≤ node.fileSize)
    (hplace : InPlace (inodeOfNode node) offset (offset + buffer.length))
    (hQ : ∀ w, Written (v.setInode n (inodeOfNode node)) w n offset (offset + buffer.length)
      (sourceByte buffer offset) → Q buffer.length w)
    (hE : ∀ e w, e.IsAlloc → freeCount v.used 34 3000 <
      2 * ((offset % 4096 + buffer.length) / 4096) → E e w) :
    vwp (escribirBuffer .ilp32 buffer offset (i32 node.fileSize) (buffer.length + 1) node
      (offset / 4096) (offset % 4096) 0 0 >>= fun node' =>
        unmapAndDestroyNode node' (2 + n) >>= fun _ => pure buffer.length) Q E v := by
  have hsize := h.fileSize_lt
  rw [View.setInode_same] at hsize
  have hsize' : node.fileSize < 2966 * 4096 := hsize
  rw [i32_of_lt (n := node.fileSize) (by omega)]
  have hroom : node.fileSize = max node.fileSize (offset + 0) := by omega
  refine vwp_bind (vwp_escribirBuffer (n := n) offset node.fileSize
    (buffer.length + 1) node v 0 h hptr hroom hplace (Nat.zero_le _)
    (by omega) (fun node' w hw => ?_) fun e w he hcount => hE e w he ?_)
  · have hfits := hw.grown.own.fits
    rw [View.setInode_same] at hfits
    exact vwp_bind (vwp_unmapAndDestroyNode h.live.1 hfits (vwp_pure (hQ _ hw)))
  · rw [Nat.add_zero, Nat.sub_zero] at hcount
    exact hcount

/-- The bytes of a write at `offset`, with the zeros that fill the file up to it. -/
def writtenByte (buffer : List UInt8) (offset i : ℕ) : UInt8 :=
  if i < offset then 0 else sourceByte buffer offset i

/-- INTERNAL: the block and the byte of an offset. SRCLINE: sacio.c:167-168 -/
theorem offset_position (hoffset : offset < 2 ^ 31) :
    u32 ((offset : ℤ).tdiv (blockSize : ℕ)) = offset / 4096 ∧
      u32 ((offset : ℤ).tmod (blockSize : ℕ)) = offset % 4096 := by
  constructor
  · rw [Int.tdiv_eq_ediv_of_nonneg (by omega), ← Int.natCast_ediv]
    exact u32_natCast_of_lt (show offset / 4096 < 2 ^ 32 by omega)
  · rw [Int.tmod_eq_emod_of_nonneg (by omega), ← Int.natCast_emod]
    exact u32_natCast_of_lt (show offset % 4096 < 2 ^ 32 by omega)

/-- INTERNAL: **the beginning of `sac_write`**, up to the copy loop: the first block and the zeros
before the offset. SRCLINE: sacio.c:152-202 -/
theorem vwp_sacWrite_filled {Q : ℕ → View → Prop} (h : OwnFile v n)
    (hname : (v.inode n).name.isSome)
    (hoffset : offset ≤ (v.inode n).fileSize ∨ offset < 4096)
    (hcopy : ∀ node w, OwnFile (w.setInode n (inodeOfNode node)) n →
      node.indirectPointerBlock 0 ≠ 0 → node.fileSize = max (v.inode n).fileSize offset →
      freeCount v.used 34 3000 ≤ freeCount w.used 34 3000 + 2 →
      Written v (w.setInode n (inodeOfNode node)) n (min offset (v.inode n).fileSize) offset
        (fun _ => 0) →
      vwp (escribirBuffer .ilp32 buffer offset (i32 node.fileSize) (buffer.length + 1) node
        (offset / 4096) (offset % 4096) 0 0 >>= fun node' =>
          unmapAndDestroyNode node' (2 + n) >>= fun _ => pure buffer.length) Q E w)
    (hE : ∀ e w, e.IsAlloc → freeCount v.used 34 3000 ≤ 1 → OnlyTakes v w → E e w) :
    vwp (sacWrite .ilp32 n buffer (offset : ℤ)) Q E v := by
  have hsize := h.fileSize_lt
  obtain ⟨hdiv, hmod⟩ := offset_position (show offset < 2 ^ 31 by omega)
  have hi32 : i32 (offset : ℤ) = offset := i32_of_lt (by omega)
  have hu32 : u32 (offset : ℤ) = offset := u32_natCast_of_lt (by omega)
  unfold sacWrite
  refine vwp_bind (vwp_readNode h.live.1 hname fun file hfile => ?_)
  have hself : v.setInode n (inodeOfNode file) = v := by rw [hfile, View.setInode_self]
  have hfs : file.fileSize = (v.inode n).fileSize := by rw [← hfile]; rfl
  dsimp only
  refine (vwp_primerBloque (n := n) (a := min offset (v.inode n).fileSize)
    (by rw [hself]; exact h) (by omega) (fun _ => 0)
    (fun node₁ v₁ hptr₁ hcount₁ _ hwritten₁ => ?_) hE)
  rw [hself] at hwritten₁
  have hinode₁ := View.setInode_same (v := v₁) n (inodeOfNode node₁)
  have hsize₁ := hwritten₁.size
  rw [hinode₁] at hsize₁
  have hsize₁' : node₁.fileSize = (v.inode n).fileSize := by
    have : (inodeOfNode node₁).fileSize = node₁.fileSize := rfl
    omega
  rw [hdiv, hmod, hi32, hu32]
  refine vwp_bind (vwp_completarOffset hwritten₁.grown.own hptr₁
    (by rw [hsize₁']; exact hoffset) (by omega) (Nat.lt_succ_self _)
    fun node₂ v₂ hused₂ hfs₂ hwritten₂ => ?_)
  have hinode₂ := View.setInode_same (v := v₂) n (inodeOfNode node₂)
  have hptr₂ := (hwritten₂.grown.kept (.ptr 0)
    ⟨hwritten₁.grown.own.live, by rw [hinode₁]; exact hptr₁⟩).1.2
  rw [hinode₂] at hptr₂
  rw [hsize₁'] at hfs₂ hwritten₂
  apply hcopy node₂ v₂ hwritten₂.grown.own hptr₂ hfs₂
  · rw [hused₂]
    exact hcount₁
  · exact hwritten₁.trans hwritten₂ h.live le_rfl (by omega)

/-- INTERNAL: **`sac_write`** writes the buffer at the offset and nothing else, for a file that
has blocks of its own and whose next blocks are in place. SRCLINE: sacio.c:152-246 -/
theorem vwp_sacWrite {Q : ℕ → View → Prop} (h : OwnFile v n) (hname : (v.inode n).name.isSome)
    (hoffset : offset ≤ (v.inode n).fileSize ∨ offset < 4096)
    (hplace : InPlace (v.inode n) offset (offset + buffer.length))
    (hQ : ∀ w, Written v w n (min offset (v.inode n).fileSize) (offset + buffer.length)
      (writtenByte buffer offset) → Q buffer.length w)
    (hE : ∀ e w, e.IsAlloc → freeCount v.used 34 3000 <
      2 * ((offset % 4096 + buffer.length) / 4096 + 1) → E e w) :
    vwp (sacWrite .ilp32 n buffer (offset : ℤ)) Q E v := by
  apply vwp_sacWrite_filled h hname hoffset
  · intro node w hown hptr hsize hcount hzeros
    have hzeros' : Written v (w.setInode n (inodeOfNode node)) n
        (min offset (v.inode n).fileSize) offset (writtenByte buffer offset) := by
      apply hzeros.congr
      intro i _ hi
      rw [writtenByte, if_pos hi]
    have hplace₀ : InPlace (v.inode n) (min offset (v.inode n).fileSize)
        (offset + buffer.length) := ⟨hplace.1, fun hlt => hplace.2 (by omega)⟩
    have hplace' := hzeros.inPlace hplace₀ (by omega) (by omega)
    rw [View.setInode_same] at hplace'
    apply vwp_sacWrite_copy hown hptr (by omega) hplace'
    · intro w' hwritten
      apply hQ
      apply hzeros'.trans _ h.live (by omega) (by omega)
      apply hwritten.congr
      intro i hi _
      rw [writtenByte, if_neg (by omega)]
    · intro e w' he hcount'
      exact hE e w' he (by omega)
  · intro e w he hcount _
    exact hE e w he (by omega)

/-- INTERNAL: the same for a file of a well-formed disk that has no stray pointer, or a write that
fills no block. -/
theorem vwp_sacWrite_noStray {Q : ℕ → View → Prop} (h : Inv v none) (hn : v.live n)
    (hstate : (v.inode n).state = 1)
    (hoffset : offset ≤ (v.inode n).fileSize ∨ offset < 4096)
    (hstray : NoStray (v.inode n) ∨ offset % 4096 + buffer.length < 4096)
    (hQ : ∀ w, Written v w n (min offset (v.inode n).fileSize) (offset + buffer.length)
      (writtenByte buffer offset) → Q buffer.length w)
    (hE : ∀ e w, e.IsAlloc → freeCount v.used 34 3000 <
      2 * ((offset % 4096 + buffer.length) / 4096 + 1) → E e w) :
    vwp (sacWrite .ilp32 n buffer (offset : ℤ)) Q E v :=
  vwp_sacWrite (ownFile_of_core h.toCore hn hstate) (h.node n hn).named hoffset
    (inPlace_of_noStray hstray (by omega)) hQ hE

end Operation

end LinuseFs.Analysis
