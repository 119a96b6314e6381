import LinuseFs.Computation.Bytes
import Mathlib.Data.Finset.Card
import Mathlib.Order.Interval.Finset.Nat

/-!
# Bit arrays and the search for a free bit

A bit array is a byte region in which bit `i` is the bit of weight `0x80 >> (i % 8)` of
byte `i / 8` (most significant bit first).  `testBit_setBit` and `testBit_cleanBit` say
that an update changes the addressed bit and no other.

`firstFree used n i` looks for the first unused number from `i` on, at most `n` of
them; `firstFree_eq_some_iff` and `firstFree_eq_none_iff` characterise its answer.
`freeCount` counts the unused numbers of a range, the measure by which allocations are
bounded.
-/

set_option autoImplicit false

namespace LinuseFs.Computation

/-- The mask of the bit `i` in its byte, most significant bit first. -/
def bitMask (i : ℕ) : UInt8 := 0x80 >>> UInt8.ofNat (i % 8)

/-- Whether the bit `i` is set. -/
def testBit (a : Bytes) (i : ℕ) : Bool := (a (i / 8) &&& bitMask i) != 0

/-- The array with the bit `i` set. -/
def setBit (a : Bytes) (i : ℕ) : Bytes :=
  fun j => if j = i / 8 then a j ||| bitMask i else a j

/-- The array with the bit `i` cleared. -/
def cleanBit (a : Bytes) (i : ℕ) : Bytes :=
  fun j => if j = i / 8 then a j &&& ~~~ bitMask i else a j

/-- INTERNAL: masking with the mask of position `q` selects the `q`-th most significant
bit. -/
theorem and_mask_ne_zero_iff (x : UInt8) {q : ℕ} (hq : q < 8) :
    (x &&& (0x80 >>> UInt8.ofNat q)) ≠ 0 ↔ x.toNat.testBit (7 - q) = true := by
  have key : ∀ y : Fin 256, ∀ p : Fin 8,
      decide ((UInt8.ofNat y.val &&& (0x80 >>> UInt8.ofNat p.val)) ≠ 0) =
        y.val.testBit (7 - p.val) := by
    decide +kernel
  have := key ⟨x.toNat, x.toNat_lt⟩ ⟨q, hq⟩
  simp only [UInt8.ofNat_toNat] at this
  rw [← this, decide_eq_true_eq]

/-- INTERNAL: a bit test is a test of the byte's bit. -/
theorem testBit_eq (a : Bytes) (i : ℕ) :
    testBit a i = (a (i / 8)).toNat.testBit (7 - i % 8) := by
  rw [Bool.eq_iff_iff, ← and_mask_ne_zero_iff _ (Nat.mod_lt i (by omega))]
  simp [testBit, bitMask]

/-- INTERNAL: the mask of the bit `i` has exactly the bit `7 - i % 8`. -/
theorem testBit_bitMask (i q : ℕ) (hq : q < 8) :
    (bitMask i).toNat.testBit q = decide (q = 7 - i % 8) := by
  have key : ∀ p r : Fin 8,
      ((0x80 : UInt8) >>> UInt8.ofNat p.val).toNat.testBit r.val =
        decide (r.val = 7 - p.val) := by
    decide +kernel
  exact key ⟨i % 8, Nat.mod_lt i (by omega)⟩ ⟨q, hq⟩

/-- INTERNAL: complementing a byte complements each of its eight bits. -/
theorem testBit_not (x : UInt8) {q : ℕ} (hq : q < 8) :
    (~~~ x).toNat.testBit q = !x.toNat.testBit q := by
  have key : ∀ y : Fin 256, ∀ r : Fin 8,
      (~~~ UInt8.ofNat y.val).toNat.testBit r.val = !y.val.testBit r.val := by
    decide +kernel
  simpa only [UInt8.ofNat_toNat] using key ⟨x.toNat, x.toNat_lt⟩ ⟨q, hq⟩

/-- INTERNAL: **setting a bit** sets it and leaves every other bit as it was. -/
theorem testBit_setBit (a : Bytes) (i j : ℕ) :
    testBit (setBit a i) j = (decide (j = i) || testBit a j) := by
  simp only [testBit_eq, setBit]
  split
  next h =>
    rw [UInt8.toNat_or, Nat.testBit_or, testBit_bitMask _ _ (by omega)]
    rw [Bool.or_comm]
    congr 1
    rw [decide_eq_decide]
    omega
  next h =>
    have hne : j ≠ i := by rintro rfl; exact h rfl
    simp [hne]

/-- INTERNAL: **cleaning a bit** clears it and leaves every other bit as it was. -/
theorem testBit_cleanBit (a : Bytes) (i j : ℕ) :
    testBit (cleanBit a i) j = (!decide (j = i) && testBit a j) := by
  simp only [testBit_eq, cleanBit]
  split
  next h =>
    rw [UInt8.toNat_and, Nat.testBit_and, testBit_not _ (by omega),
      testBit_bitMask _ _ (by omega), Bool.and_comm]
    congr 2
    rw [decide_eq_decide]
    omega
  next h =>
    have hne : j ≠ i := by rintro rfl; exact h rfl
    simp [hne]

/-! ## The first free bit -/

/-- The first number from `i` on that is not used, looking at no more than `n` of
them. -/
def firstFree (used : ℕ → Bool) : ℕ → ℕ → Option ℕ
  | 0, _ => none
  | n + 1, i => if used i then firstFree used n (i + 1) else some i

/-- INTERNAL: the search finds `b` exactly when `b` is in range and unused and
everything before it is used. -/
theorem firstFree_eq_some_iff {used : ℕ → Bool} {n i b : ℕ} :
    firstFree used n i = some b ↔
      i ≤ b ∧ b < i + n ∧ used b = false ∧ ∀ j, i ≤ j → j < b → used j = true := by
  induction n generalizing i with
  | zero => simp only [firstFree, reduceCtorEq, false_iff]; omega
  | succ n ih =>
    unfold firstFree
    split
    next hi =>
      rw [ih]
      constructor
      · rintro ⟨h1, h2, h3, h4⟩
        refine ⟨by omega, by omega, h3, fun j hj hjb => ?_⟩
        by_cases hji : j = i
        · rw [hji]; exact hi
        · exact h4 j (by omega) hjb
      · rintro ⟨h1, h2, h3, h4⟩
        have : b ≠ i := by rintro rfl; simp [hi] at h3
        exact ⟨by omega, by omega, h3, fun j hj hjb => h4 j (by omega) hjb⟩
    next hi =>
      simp only [Option.some.injEq]
      constructor
      · rintro rfl
        exact ⟨le_rfl, by omega, by simpa using hi, fun j h1 h2 => by omega⟩
      · rintro ⟨h1, _, _, h4⟩
        by_contra hne
        exact hi (h4 i le_rfl (by omega))

/-- INTERNAL: the search fails exactly when the whole range is used. -/
theorem firstFree_eq_none_iff {used : ℕ → Bool} {n i : ℕ} :
    firstFree used n i = none ↔ ∀ j, i ≤ j → j < i + n → used j = true := by
  induction n generalizing i with
  | zero => simp only [firstFree, true_iff]; intro j h1 h2; omega
  | succ n ih =>
    unfold firstFree
    split
    next hi =>
      rw [ih]
      constructor
      · intro h j h1 h2
        by_cases hji : j = i
        · rw [hji]; exact hi
        · exact h j (by omega) (by omega)
      · exact fun h j h1 h2 => h j (by omega) (by omega)
    next hi =>
      simp only [reduceCtorEq, false_iff]
      intro h
      exact hi (h i le_rfl (by omega))

/-! ## Counting the free numbers of a range -/

/-- How many numbers of `[lo, hi)` are not used. -/
def freeCount (used : ℕ → Bool) (lo hi : ℕ) : ℕ :=
  ((Finset.Ico lo hi).filter fun b => used b = false).card

/-- INTERNAL: if no number of the range is free, the count is zero. -/
theorem freeCount_eq_zero_iff {used : ℕ → Bool} {lo hi : ℕ} :
    freeCount used lo hi = 0 ↔ ∀ b, lo ≤ b → b < hi → used b = true := by
  simp only [freeCount, Finset.card_eq_zero, Finset.filter_eq_empty_iff, Finset.mem_Ico,
    Bool.not_eq_false, and_imp]

/-- INTERNAL: taking one more number lowers the count by at most one. -/
theorem freeCount_le_succ {used used' : ℕ → Bool} {lo hi x : ℕ}
    (h : ∀ b, b ≠ x → used b = false → used' b = false) :
    freeCount used lo hi ≤ freeCount used' lo hi + 1 := by
  have hsub : ((Finset.Ico lo hi).filter fun b => used b = false) ⊆
      insert x ((Finset.Ico lo hi).filter fun b => used' b = false) := by
    intro b hb
    simp only [Finset.mem_filter, Finset.mem_insert] at hb ⊢
    by_cases hbx : b = x
    · exact Or.inl hbx
    · exact Or.inr ⟨hb.1, h b hbx hb.2⟩
  calc freeCount used lo hi
      ≤ (insert x ((Finset.Ico lo hi).filter fun b => used' b = false)).card :=
        Finset.card_le_card hsub
    _ ≤ freeCount used' lo hi + 1 := Finset.card_insert_le _ _

/-- INTERNAL: **taking a free number of the range** lowers the count. -/
theorem freeCount_lt_of_taken {used used' : ℕ → Bool} {lo hi x : ℕ} (hx : lo ≤ x) (hx' : x < hi)
    (hfree : used x = false) (htaken : used' x = true)
    (h : ∀ b, used' b = false → used b = false) : freeCount used' lo hi < freeCount used lo hi := by
  apply Finset.card_lt_card
  rw [Finset.ssubset_iff_of_subset]
  · refine ⟨x, ?_, ?_⟩
    · simp only [Finset.mem_filter, Finset.mem_Ico]
      exact ⟨⟨hx, hx'⟩, hfree⟩
    · simp [htaken]
  · intro b hb
    simp only [Finset.mem_filter] at hb ⊢
    exact ⟨hb.1, h b hb.2⟩

/-- INTERNAL: at most the whole range is free. -/
theorem freeCount_le (used : ℕ → Bool) (lo hi : ℕ) : freeCount used lo hi ≤ hi - lo := by
  rw [← Nat.card_Ico lo hi]
  exact Finset.card_filter_le ..

/-- INTERNAL: two free numbers are counted. -/
theorem two_le_freeCount {used : ℕ → Bool} {x y lo hi : ℕ} (hx : lo ≤ x) (hx' : x < hi)
    (hy : lo ≤ y) (hy' : y < hi) (hxy : x ≠ y) (hxfree : used x = false) (hyfree : used y = false) :
    2 ≤ freeCount used lo hi := by
  have hsub : {x, y} ⊆ (Finset.Ico lo hi).filter fun b => used b = false := by
    intro b hb
    rw [Finset.mem_insert, Finset.mem_singleton] at hb
    rw [Finset.mem_filter, Finset.mem_Ico]
    rcases hb with rfl | rfl
    · exact ⟨⟨hx, hx'⟩, hxfree⟩
    · exact ⟨⟨hy, hy'⟩, hyfree⟩
  calc 2 = ({x, y} : Finset ℕ).card := (Finset.card_pair hxy).symm
    _ ≤ freeCount used lo hi := Finset.card_le_card hsub

/-- INTERNAL: with fewer used numbers the count is not smaller. -/
theorem freeCount_mono {used used' : ℕ → Bool} {lo hi : ℕ}
    (h : ∀ b, lo ≤ b → b < hi → used b = false → used' b = false) :
    freeCount used lo hi ≤ freeCount used' lo hi := by
  apply Finset.card_le_card
  intro b hb
  simp only [Finset.mem_filter, Finset.mem_Ico] at hb ⊢
  exact ⟨hb.1, h b hb.1.1 hb.1.2 hb.2⟩

/-! ## Numbers that are taken in order -/

/-- From `used` to `used'` numbers were taken, each when the numbers in front of it, from the first
one of its region on, were in use; `start` is the first number of the region. -/
structure TakenInOrder (start : ℕ → ℕ) (used used' : ℕ → Bool) : Prop where
  kept : ∀ b, used b = true → used' b = true
  below : ∀ b, used b = false → used' b = true → ∀ y, start b ≤ y → y < b → used' y = true

namespace TakenInOrder

variable {start : ℕ → ℕ} {used used' used'' : ℕ → Bool} {x k : ℕ} {T : Finset ℕ}

theorem refl (start : ℕ → ℕ) (used : ℕ → Bool) : TakenInOrder start used used :=
  ⟨fun _ hb => hb, fun b hfree hused => by rw [hfree] at hused; cases hused⟩

theorem trans (h : TakenInOrder start used used') (h' : TakenInOrder start used' used'') :
    TakenInOrder start used used'' := by
  refine ⟨fun b hb => h'.kept b (h.kept b hb), fun b hfree hused y hy hlt => ?_⟩
  cases hb : used' b with
  | true => exact h'.kept y (h.below b hfree hb y hy hlt)
  | false => exact h'.below b hb hused y hy hlt

/-- INTERNAL: **what is taken in order is among the first free numbers**: fewer free ones than were
taken lie in front of it. -/
theorem freeCount_lt (h : TakenInOrder start used used') (hT : T.card ≤ k) (hx : start x ≤ x)
    (hfree : used x = false) (htaken : used' x = true)
    (hnew : ∀ y, start x ≤ y → y ≤ x → used y = false → used' y = true → y ∈ T) :
    freeCount used (start x) x < k := by
  have hnot : x ∉ (Finset.Ico (start x) x).filter fun b => used b = false := by
    simp only [Finset.mem_filter, Finset.mem_Ico, lt_irrefl, and_false, false_and,
      not_false_eq_true]
  have hsub : insert x ((Finset.Ico (start x) x).filter fun b => used b = false) ⊆ T := by
    intro y hy
    rcases Finset.mem_insert.mp hy with rfl | hy
    · exact hnew y hx le_rfl hfree htaken
    · obtain ⟨hin, hyfree⟩ := Finset.mem_filter.mp hy
      obtain ⟨hylo, hyx⟩ := Finset.mem_Ico.mp hin
      exact hnew y hylo hyx.le hyfree (h.below x hfree htaken y hylo hyx)
  calc freeCount used (start x) x
      < (insert x ((Finset.Ico (start x) x).filter fun b => used b = false)).card := by
        rw [Finset.card_insert_of_notMem hnot]
        exact Nat.lt_succ_self _
    _ ≤ T.card := Finset.card_le_card hsub
    _ ≤ k := hT

end TakenInOrder

end LinuseFs.Computation
