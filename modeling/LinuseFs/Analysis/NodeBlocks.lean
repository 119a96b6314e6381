import LinuseFs.Model.Node
import LinuseFs.Interface.WellFormed

/-!
# The pointer blocks of a node

One rule for each function of `node.c` that reserves a block, stores its number in a slot
or reads a slot, with four-byte pointers.
-/

set_option autoImplicit false

namespace LinuseFs.Analysis

open LinuseFs.Computation LinuseFs.Model LinuseFs.Interface

/-! ## Slots -/

/-- The view with the number `x` in slot `j` of the pointer block `p`. -/
def setSlot (v : View) (p j x : ℕ) : View :=
  v.setData p (memcpy (v.data p) (j * 4) (leBytes x) 4)

section Slot

variable {v : View} {p j x : ℕ}

@[simp] theorem setSlot_inode : (setSlot v p j x).inode = v.inode := rfl

@[simp] theorem setSlot_used : (setSlot v p j x).used = v.used := rfl

@[simp] theorem setSlot_metadata : (setSlot v p j x).metadata = v.metadata := rfl

theorem setSlot_data_ne {b : ℕ} (h : b ≠ p) : (setSlot v p j x).data b = v.data b :=
  View.setData_ne _ h

/-- INTERNAL: **a slot after a store.** -/
theorem slot_setSlot (hx : x < 2 ^ 32) (q i : ℕ) :
    (setSlot v p j x).slot q i = if q = p ∧ i = j then x else v.slot q i := by
  unfold View.slot setSlot
  by_cases hq : q = p
  · subst hq
    rw [View.setData_same]
    by_cases hi : i = j
    · subst hi
      rw [if_pos ⟨rfl, rfl⟩, leNat_memcpy_leBytes, Nat.mod_eq_of_lt (by omega)]
    · rw [if_neg fun h => hi h.2, leNat_memcpy_outside (by omega)]
  · rw [if_neg fun h => hq h.1, View.setData_ne _ hq]

end Slot

/-! ## The leading pointers -/

/-- INTERNAL: the pointers up to the first zero one. SRCLINE: node.c:95-96 -/
theorem leadingPointers_spec (node : Node) :
    node.leadingPointers ≤ 1000 ∧
      (∀ i < node.leadingPointers, node.indirectPointerBlock i ≠ 0) ∧
      (node.leadingPointers < 1000 → node.indirectPointerBlock node.leadingPointers = 0) := by
  unfold Node.leadingPointers
  cases hfree : firstFree (fun i => node.indirectPointerBlock i != 0) pointersPerNode 0 with
  | none =>
    rw [firstFree_eq_none_iff] at hfree
    refine ⟨le_rfl, fun i hi => ?_, fun hlt => absurd hlt (by decide)⟩
    simpa using hfree i (Nat.zero_le i) (by simpa using hi)
  | some k =>
    obtain ⟨-, hk, hzero, hbefore⟩ := firstFree_eq_some_iff.mp hfree
    refine ⟨by simpa using hk.le, fun i hi => ?_, fun _ => by simpa using hzero⟩
    simpa using hbefore i (Nat.zero_le i) hi

/-! ## The rules -/

section Rules

variable {v : View} {E : Fault → View → Prop} {node : Node} {i j k n : ℕ}

theorem vwp_pointerAt {Q : ℕ → View → Prop} (hi : i < 1000)
    (h : Q (node.indirectPointerBlock i) v) : vwp (node.pointerAt i) Q E v := by
  unfold Node.pointerAt
  rw [if_pos (show i < pointersPerNode from hi)]
  exact vwp_pure h

theorem vwp_setPointer {Q : Node → View → Prop} (hi : i < 1000) {x : ℕ}
    (h : Q { node with
      indirectPointerBlock := Function.update node.indirectPointerBlock i x } v) :
    vwp (node.setPointer i x) Q E v := by
  unfold Node.setPointer
  rw [if_pos (show i < pointersPerNode from hi)]
  exact vwp_pure h

/-- INTERNAL: a new pointer block. SRCLINE: node.c:55-62 -/
theorem vwp_createPointersBlockInNode {Q : ℕ × Node → View → Prop} (hi : i < 1000)
    (hQ : ∀ y, 34 ≤ y → y < 3000 → v.used y = false → (∀ b, 34 ≤ b → b < y → v.used b = true) →
      Q (y, { node with
        indirectPointerBlock := Function.update node.indirectPointerBlock i y })
        (v.setUsed y true))
    (hE : ∀ e, e.IsAlloc → freeCount v.used 34 3000 = 0 → E e v) :
    vwp (createPointersBlockInNode node i) Q E v := by
  refine vwp_bind (vwp_getFreeDataBlock (fun y h1 h2 h3 h4 => ?_) hE)
  exact vwp_bind (vwp_setPointer hi (vwp_pure (hQ y h1 h2 h3 h4)))

/-- INTERNAL: a new data block in a slot of a pointer block. SRCLINE: node.c:66-78 -/
theorem vwp_createDataBlockInPointerBlock {Q : ℕ → View → Prop} (hi : i < 1000) (hj : j < 1024)
    (hptr : 34 ≤ node.indirectPointerBlock i) (hptr' : node.indirectPointerBlock i < 3000)
    (hQ : ∀ x, 34 ≤ x → x < 3000 → v.used x = false → (∀ b, 34 ≤ b → b < x → v.used b = true) →
      Q x (setSlot (v.setUsed x true) (node.indirectPointerBlock i) j x))
    (hE : ∀ e, e.IsAlloc → freeCount v.used 34 3000 = 0 → E e v) :
    vwp (createDataBlockInPointerBlock node i j) Q E v := by
  refine vwp_bind (vwp_getFreeDataBlock (fun x h1 h2 h3 h4 => ?_) hE)
  refine vwp_bind (vwp_pointerAt hi ?_)
  dsimp only
  rw [readBlock_of_lt hptr']
  exact vwp_bind (vwp_store hptr hptr' (by omega) (vwp_pure (hQ x h1 h2 h3 h4)))

/-- INTERNAL: the number of a data block, with four-byte pointers. SRCLINE: node.c:207-222 -/
theorem vwp_getBlockNumberFromNodeDataBlock {Q : ℕ → View → Prop} (hk : k / 1024 < 1000)
    (hptr : 34 ≤ node.indirectPointerBlock (k / 1024))
    (hptr' : node.indirectPointerBlock (k / 1024) < 3000)
    (h : Q (v.dataBlock (inodeOfNode node) k) v) :
    vwp (getBlockNumberFromNodeDataBlock .ilp32 node k) Q E v := by
  refine vwp_bind (vwp_pointerAt hk ?_)
  dsimp only [Abi.sizeofPointer]
  rw [readBlock_of_lt hptr']
  refine vwp_bind (vwp_load hptr hptr' (by omega) (vwp_pure ?_))
  have hvalue : leNat (fun i => v.data (node.indirectPointerBlock (k / 1024))
      (k % 1024 * 4 + i)) 0 4 = v.dataBlock (inodeOfNode node) k :=
    leNat_congr fun i _ => by rw [Nat.zero_add]; rfl
  rw [hvalue]
  exact h

/-- INTERNAL: a data block, with four-byte pointers or when it is the first one of its pointer
block, wherever its slot points. SRCLINE: node.c:128-144 -/
theorem vwp_getDataBlockFromNode_mapped {Q : ℕ → View → Prop} {abi : Abi}
    (habi : abi = .ilp32 ∨ k % 1024 = 0) (hk : k / 1024 < 1000)
    (hptr : 34 ≤ node.indirectPointerBlock (k / 1024))
    (hptr' : node.indirectPointerBlock (k / 1024) < 3000)
    (h : Q (readBlock (v.dataBlock (inodeOfNode node) k)) v) :
    vwp (getDataBlockFromNode abi node k) Q E v := by
  have hstride : k % 1024 * abi.sizeofPointer = k % 1024 * 4 := by
    rcases habi with rfl | hzero
    · rfl
    · rw [hzero, Nat.zero_mul, Nat.zero_mul]
  have hroom : k % 1024 * 4 + abi.sizeofPointer ≤ 4096 := by
    rcases habi with rfl | hzero
    · simp only [Abi.sizeofPointer]
      omega
    · rw [hzero]
      cases abi <;> decide
  refine vwp_bind (vwp_pointerAt hk ?_)
  dsimp only
  rw [readBlock_of_lt hptr', hstride]
  refine vwp_bind (vwp_load hptr hptr' hroom (vwp_pure ?_))
  have hvalue : leNat (fun i => v.data (node.indirectPointerBlock (k / 1024))
      (k % 1024 * 4 + i)) 0 4 = v.dataBlock (inodeOfNode node) k :=
    leNat_congr fun i _ => by rw [Nat.zero_add]; rfl
  rw [hvalue]
  exact h

theorem vwp_getDataBlockFromNode {Q : ℕ → View → Prop} {abi : Abi}
    (habi : abi = .ilp32 ∨ k % 1024 = 0) (hk : k / 1024 < 1000)
    (hptr : 34 ≤ node.indirectPointerBlock (k / 1024))
    (hptr' : node.indirectPointerBlock (k / 1024) < 3000)
    (hdata : v.dataBlock (inodeOfNode node) k < 3000)
    (h : Q (v.dataBlock (inodeOfNode node) k) v) :
    vwp (getDataBlockFromNode abi node k) Q E v := by
  apply vwp_getDataBlockFromNode_mapped habi hk hptr hptr'
  rw [readBlock_of_lt hdata]
  exact h

end Rules

end LinuseFs.Analysis
