import LinuseFs.Model.Sacio
import LinuseFs.Analysis.NodeBlocks

/-!
# The blocks of a file

How a file grows: its bytes change in a block that it holds, or it takes one more block.
`Grown` is what both keep; it is transitive, so a loop that grows a file keeps it too.

`add_data_block_to_node` chooses the pointer block by counting the pointers before the first
zero one, the readers by dividing the block number.  The two agree when there is no pointer
past the one that the next block needs (`NoStray`), and for a single block number already when
there is none right behind that one (`NextInPlace`).
-/

set_option autoImplicit false

namespace LinuseFs.Analysis

open LinuseFs.Computation LinuseFs.Model LinuseFs.Interface

/-- There is no pointer past the one that the next data block needs. -/
def NoStray (nd : Inode) : Prop := ∀ i, (nd.fileSize / 4096 + 1) / 1024 < i → nd.ptr i = 0

/-- The block `k`, when it is the next one, goes into the slot that the readers look in: the
pointer behind its own is zero, or it is the first of its pointer block and that is to be taken. -/
def NextInPlace (nd : Inode) (k : ℕ) : Prop :=
  nd.ptr (k / 1024 + 1) = 0 ∨ k % 1024 = 0 ∧ nd.ptr (k / 1024) = 0

theorem NoStray.nextInPlace {nd : Inode} (h : NoStray nd) {k : ℕ} (hk : nd.fileSize / 4096 < k) :
    NextInPlace nd k :=
  Or.inl (h _ (by omega))

/-- The file `n` is in use and its blocks are its own: each one is marked used, and none is there
twice. -/
structure OwnFile (v : View) (n : ℕ) : Prop where
  live : v.live n
  state : (v.inode n).state = 1
  fits : (v.inode n).Fits
  file : FileOk (v.inode n)
  own : Exclusive (fun (_ : Unit) r => v.held n r) (fun _ r => v.place n r) v.InData

section OwnFile

variable {v w : View} {n i k : ℕ} {r q : Ref}

theorem ownFile_of_core (h : Core v) (hn : v.live n) (hstate : (v.inode n).state = 1) :
    OwnFile v n where
  live := hn
  state := hstate
  fits := (h.node n hn).fits
  file := (h.node n hn).file hstate
  own := ⟨fun _ _ hr => h.inData hr, fun _ r _ q hr hq he => ⟨rfl, (h.own.inj n r n q hr hq he).2⟩⟩

theorem OwnFile.inData (h : OwnFile v n) (hr : v.held n r) : v.InData (v.place n r) :=
  h.own.ok () r hr

theorem OwnFile.inj (h : OwnFile v n) (hr : v.held n r) (hq : v.held n q)
    (he : v.place n r = v.place n q) : r = q :=
  (h.own.inj () r () q hr hq he).2

theorem OwnFile.inData_ptr (h : OwnFile v n) (hi : (v.inode n).ptr i ≠ 0) :
    v.InData ((v.inode n).ptr i) :=
  h.inData (r := .ptr i) ⟨h.live, hi⟩

/-- INTERNAL: the number of blocks of a file, by its first pointer. -/
theorem file_blocks {nd : Inode} (h : FileOk nd) (hstate : nd.state = 1) :
    nd.ptr 0 = 0 ∧ nd.fileSize = 0 ∧ nd.blocks = 0 ∨
      nd.ptr 0 ≠ 0 ∧ nd.blocks = nd.fileSize / 4096 + 1 := by
  by_cases hptr : nd.ptr 0 = 0
  · refine Or.inl ⟨hptr, h.empty hptr, ?_⟩
    unfold Inode.blocks
    rw [if_pos hstate, if_pos hptr]
  · exact Or.inr ⟨hptr, blocks_file hstate hptr⟩

theorem OwnFile.held_ptr (h : OwnFile v n) (hk : v.held n (.data k)) :
    v.held n (.ptr (k / 1024)) := by
  have hlt : k < (v.inode n).blocks := hk.2
  refine ⟨h.live, ?_⟩
  rcases file_blocks h.file h.state with ⟨-, -, hblocks⟩ | ⟨hptr, hblocks⟩
  · omega
  · exact h.file.ptr hptr _ (by omega)

/-- INTERNAL: the pointer blocks and the data blocks of a file are different blocks. -/
theorem OwnFile.ptr_ne_data (h : OwnFile v n) (hi : v.held n (.ptr i))
    (hk : v.held n (.data k)) : v.place n (.ptr i) ≠ v.place n (.data k) := by
  intro he
  cases h.inj hi hk he

theorem OwnFile.blocks_le (h : OwnFile v n) : (v.inode n).blocks ≤ 2966 := by
  apply le_of_distinct_blocks (f := v.dataBlock (v.inode n))
  · intro k hk
    obtain ⟨hge, hlt, -⟩ := h.inData (r := .data k) ⟨h.live, hk⟩
    exact ⟨hge, hlt⟩
  · intro j k hj hk he
    exact Ref.data.inj (h.inj (r := .data j) (q := .data k) ⟨h.live, hj⟩ ⟨h.live, hk⟩ he)

/-- INTERNAL: a file with blocks of its own is smaller than the data region. -/
theorem OwnFile.fileSize_lt (h : OwnFile v n) : (v.inode n).fileSize < 2966 * 4096 := by
  have hle := h.blocks_le
  rcases file_blocks h.file h.state with ⟨-, hsize, -⟩ | ⟨-, hb⟩
  · rw [hsize]
    decide
  · omega

/-- INTERNAL: **a file keeps its blocks its own**, if what it held stays where it was and what is
new to it was free. -/
theorem OwnFile.update (h : OwnFile v n) (hlive : w.live n) (hstate : (w.inode n).state = 1)
    (hfits : (w.inode n).Fits) (hfile : FileOk (w.inode n))
    (hused : ∀ b, v.used b = true → w.used b = true)
    (hold : ∀ r, v.held n r → w.place n r = v.place n r)
    (hnew : ∀ r, w.held n r → ¬ v.held n r →
      v.used (w.place n r) = false ∧ w.InData (w.place n r))
    (hinj : ∀ r q, w.held n r → ¬ v.held n r → w.held n q → ¬ v.held n q →
      w.place n r = w.place n q → r = q) : OwnFile w n where
  live := hlive
  state := hstate
  fits := hfits
  file := hfile
  own := by
    apply h.own.update (fun _ r => ¬ v.held n r)
    · intro _ r _ hr
      have hr := not_not.mp hr
      obtain ⟨hge, hlt, hmarked⟩ := h.inData hr
      exact ⟨hr, hold r hr, hge, hlt, hused _ hmarked⟩
    · intro _ r hr hnot
      obtain ⟨hfree, hin⟩ := hnew r hr hnot
      exact ⟨not_inData hfree, hin⟩
    · intro _ r _ q hr hnot hq hnot' he
      exact ⟨rfl, hinj r q hr hnot hq hnot' he⟩

end OwnFile

/-- From `v` to `w` the file `n` has kept its blocks, the blocks it has taken were free, and the
bytes of all other blocks in use are the same. -/
structure Grown (n : ℕ) (v w : View) : Prop where
  own : OwnFile w n
  inode : ∀ m, m ≠ n → w.inode m = v.inode m
  low : ∀ b < 34, w.used b = v.used b
  name : (w.inode n).name = (v.inode n).name
  state : (w.inode n).state = (v.inode n).state
  parentBlock : (w.inode n).parentBlock = (v.inode n).parentBlock
  used : ∀ b, v.used b = true → w.used b = true
  kept : ∀ r, v.held n r → w.held n r ∧ w.place n r = v.place n r
  fresh : ∀ r, w.held n r → v.held n r ∨ v.used (w.place n r) = false
  metadata : w.metadata = v.metadata
  frame : ∀ b, v.used b = true → (∀ r, v.held n r → v.place n r ≠ b) → w.data b = v.data b

section Grown

variable {u v w : View} {n k : ℕ}

theorem Grown.refl (h : OwnFile v n) : Grown n v v :=
  ⟨h, fun _ _ => rfl, fun _ _ => rfl, rfl, rfl, rfl, fun _ hb => hb, fun _ hr => ⟨hr, rfl⟩,
    fun _ hr => Or.inl hr, rfl, fun _ _ _ => rfl⟩

theorem Grown.live (h : Grown n v w) (m : ℕ) : w.live m ↔ v.live m := by
  unfold View.live
  constructor
  · rintro ⟨hm, hused⟩
    exact ⟨hm, h.low (2 + m) (by omega) ▸ hused⟩
  · rintro ⟨hm, hused⟩
    exact ⟨hm, (h.low (2 + m) (by omega)).trans hused⟩

theorem Grown.trans (h : Grown n u v) (h' : Grown n v w) : Grown n u w where
  own := h'.own
  inode m hm := (h'.inode m hm).trans (h.inode m hm)
  low b hb := (h'.low b hb).trans (h.low b hb)
  name := h'.name.trans h.name
  state := h'.state.trans h.state
  parentBlock := h'.parentBlock.trans h.parentBlock
  used b hb := h'.used b (h.used b hb)
  kept r hr := by
    obtain ⟨hr', he⟩ := h.kept r hr
    obtain ⟨hr'', he'⟩ := h'.kept r hr'
    exact ⟨hr'', he'.trans he⟩
  fresh r hr := by
    rcases h'.fresh r hr with hr' | hfree
    · rcases h.fresh r hr' with hr'' | hfree
      · exact Or.inl hr''
      · rw [← (h'.kept r hr').2] at hfree
        exact Or.inr hfree
    · apply Or.inr
      by_contra hne
      rw [Bool.not_eq_false] at hne
      rw [h.used _ hne] at hfree
      cases hfree
  metadata := h'.metadata.trans h.metadata
  frame b hb hnot := by
    refine (h'.frame b (h.used b hb) fun r hr e => ?_).trans (h.frame b hb hnot)
    rcases h.fresh r hr with hr' | hfree
    · exact hnot r hr' ((h.kept r hr').2 ▸ e)
    · rw [e, hb] at hfree
      cases hfree

/-- INTERNAL: the nodes other than the file see nothing of the change. -/
theorem Grown.others (h : Grown n v w) (hv : Core v) : Others n v w where
  metadata b hb _ := h.low b (by omega)
  inode := h.inode
  live m _ := h.live m
  used m r _ hr := h.used _ (hv.inData hr).2.2
  data m r hm hr :=
    h.frame _ (hv.inData hr).2.2 fun q hq he => hm (hv.own.inj m r n q hr hq he.symm).1

/-- INTERNAL: **a file that grows keeps every node well formed** and its blocks its own. -/
theorem Grown.core (h : Grown n v w) (hv : Core v) : Core w := by
  have hn : v.live n := (h.live n).mp h.own.live
  have hnode := hv.node n hn
  have hstate := h.own.state
  apply hv.change (h.others hv) (fun r => ¬ v.held n r)
  · rintro rfl
    rw [h.state, hv.root] at hstate
    exact absurd hstate (by decide)
  · intro _
    refine ⟨h.own.fits, Or.inl hstate, h.name ▸ hnode.named, fun hdir => ?_, fun _ => h.own.file⟩
    rw [hstate] at hdir
    exact absurd hdir (by decide)
  · intro _ hn0
    rw [h.parentBlock]
    exact hv.parent n hn hn0
  · intro r _ hr
    obtain ⟨hheld, hplace⟩ := h.kept r (not_not.mp hr)
    exact ⟨not_not.mp hr, hplace, hplace ▸ h.own.inData hheld⟩
  · intro r hr hnot
    exact ⟨not_inData ((h.fresh r hr).resolve_left hnot), h.own.inData hr⟩
  · intro r q hr _ hq _ he
    exact h.own.inj hr hq he

/-- INTERNAL: **the namespace does not see a file that changed.** -/
theorem tree_of_others (ho : Others n v w) (h : Core v) (hlive : ∀ m, w.live m ↔ v.live m)
    (hstate : (v.inode n).state ≠ 2) (hstate' : (w.inode n).state = (v.inode n).state)
    (hparentBlock : (w.inode n).parentBlock = (v.inode n).parentBlock) : w.tree = v.tree := by
  have hlive' : w.tree.live = v.tree.live := by
    funext m
    exact propext (hlive m)
  have hentries : w.tree.entries = v.tree.entries := by
    funext m
    by_cases hm : m = n
    · subst hm
      rw [entries_of_state_ne hstate, entries_of_state_ne (by rw [hstate']; exact hstate)]
    · exact (ho.entries h hm).1
  have hparent : w.tree.parent = v.tree.parent := by
    funext m
    by_cases hm : m = n
    · subst hm
      simp only [View.tree, hparentBlock]
    · exact (ho.entries h hm).2
  calc w.tree = ⟨w.tree.live, w.tree.entries, w.tree.parent⟩ := rfl
    _ = v.tree := by rw [hlive', hentries, hparent]

theorem Grown.tree (h : Grown n v w) (hv : Core v) (hstate : (v.inode n).state ≠ 2) :
    w.tree = v.tree :=
  tree_of_others (h.others hv) hv h.live hstate h.state h.parentBlock

theorem Grown.inv {orphan : Option ℕ} (h : Grown n v w) (hv : Inv v orphan)
    (hstate : (v.inode n).state ≠ 2) : Inv w orphan :=
  ⟨h.core hv.toCore, by rw [h.tree hv.toCore hstate]; exact hv.tree⟩

/-- INTERNAL: **writing into a data block of the file** changes the bytes of that block.
SRCLINE: sacio.c:213-215 -/
theorem grown_setData (h : OwnFile v n) (hk : v.held n (.data k)) (bytes : Bytes) :
    Grown n v (v.setData (v.place n (.data k)) bytes) := by
  have hdata : ∀ c, c ≠ v.place n (.data k) →
      (v.setData (v.place n (.data k)) bytes).data c = v.data c :=
    fun c hc => View.setData_ne _ hc
  have hplace : ∀ r, v.held n r →
      (v.setData (v.place n (.data k)) bytes).place n r = v.place n r := by
    intro r hr
    cases r with
    | ptr i => rfl
    | data j => exact dataBlock_congr (hdata _ (h.ptr_ne_data (h.held_ptr hr) hk))
  refine ⟨?_, fun _ _ => rfl, fun _ _ => rfl, rfl, rfl, rfl, fun _ hb => hb,
    fun r hr => ⟨hr, hplace r hr⟩, fun _ hr => Or.inl hr, rfl,
    fun b _ hnot => hdata b (hnot _ hk).symm⟩
  exact h.update h.live h.state h.fits h.file (fun _ hb => hb) hplace
    (fun r hr hnot => absurd hr hnot) fun r _ hr hnot => absurd hr hnot

end Grown

/-! ## One more block -/

/-- The view after the file `n` got the size `S`, the pointer block `y` for its next data block
and the block `x` in the slot of that data block. -/
def extendedBy (v : View) (n x y S : ℕ) : View :=
  (setSlot ((v.setUsed y true).setUsed x true) y ((v.inode n).blocks % 1024) x).setInode n
    { v.inode n with
      fileSize := S
      ptr := Function.update (v.inode n).ptr ((v.inode n).blocks / 1024) y }

/-- The blocks `x` and `y` can extend the file: `x` is free, and `y` is the pointer block that
the file has for its next data block or, when it has none, another free block. -/
structure Extension (v : View) (n x y : ℕ) : Prop where
  x_ge : 34 ≤ x
  x_lt : x < 3000
  x_free : v.used x = false
  ptr : (v.inode n).ptr ((v.inode n).blocks / 1024) = y ∧ y ≠ 0 ∨
    (v.inode n).ptr ((v.inode n).blocks / 1024) = 0 ∧ 34 ≤ y ∧ y < 3000 ∧ v.used y = false ∧ x ≠ y

/-- The blocks `y`, unless it is in use, and then `x` are the first free ones. -/
structure TakesFirst (v : View) (x y : ℕ) : Prop where
  pointer : v.used y = false → ∀ j, 34 ≤ j → j < y → v.used j = true
  data : ∀ j, 34 ≤ j → j < x → j ≠ y → v.used j = true

section Extend

variable {v : View} {n x y S : ℕ}

theorem extendedBy_inode : (extendedBy v n x y S).inode n =
    { v.inode n with
      fileSize := S
      ptr := Function.update (v.inode n).ptr ((v.inode n).blocks / 1024) y } :=
  View.setInode_same ..

theorem extendedBy_data_ne {c : ℕ} (hc : c ≠ y) : (extendedBy v n x y S).data c = v.data c :=
  setSlot_data_ne hc

theorem extendedBy_used (c : ℕ) :
    (extendedBy v n x y S).used c = if c = x ∨ c = y then true else v.used c := by
  show ((v.setUsed y true).setUsed x true).used c = _
  by_cases hx : c = x
  · subst hx
    rw [View.setUsed_same, if_pos (Or.inl rfl)]
  · rw [View.setUsed_ne _ hx]
    by_cases hy : c = y
    · subst hy
      rw [View.setUsed_same, if_pos (Or.inr rfl)]
    · rw [View.setUsed_ne _ hy, if_neg (by simp [hx, hy])]

/-- INTERNAL: an extension by the first free blocks leaves no free block below them. -/
theorem TakesFirst.lowest (hf : TakesFirst v x y) {b c : ℕ} (hb : v.used b = false)
    (hb' : (extendedBy v n x y S).used b = true) (hc : 34 ≤ c) (hcb : c < b) :
    (extendedBy v n x y S).used c = true := by
  rw [extendedBy_used] at hb' ⊢
  split at hb'
  next htaken =>
    split
    next => rfl
    next hnot =>
      rcases htaken with rfl | rfl
      · exact hf.data c hc hcb fun e => hnot (Or.inr e)
      · exact hf.pointer hb c hc hcb
  next =>
    rw [hb] at hb'
    cases hb'

/-- INTERNAL: the pointer block of an extension is in the data region, and it is neither the
new block nor a data block of the file. -/
theorem Extension.pointer (he : Extension v n x y) (h : OwnFile v n) :
    34 ≤ y ∧ y < 3000 ∧ x ≠ y ∧ ∀ l, v.held n (.data l) → v.place n (.data l) ≠ y := by
  rcases he.ptr with ⟨hy, hy0⟩ | ⟨-, hge, hlt, hfree, hxy⟩
  · have hheld : v.held n (.ptr ((v.inode n).blocks / 1024)) := ⟨h.live, by
      show (v.inode n).ptr _ ≠ 0
      rw [hy]
      exact hy0⟩
    have hplace : v.place n (.ptr ((v.inode n).blocks / 1024)) = y := hy
    have hin := h.inData hheld
    rw [hplace] at hin
    refine ⟨hin.1, hin.2.1, ?_, fun l hl e => ?_⟩
    · rintro rfl
      have := he.x_free
      rw [hin.2.2] at this
      cases this
    · exact h.ptr_ne_data hheld hl (hplace.trans e.symm)
  · refine ⟨hge, hlt, hxy, fun l hl e => ?_⟩
    have := (h.inData hl).2.2
    rw [e, hfree] at this
    cases this

/-- INTERNAL: **the data blocks after an extension**: the old ones stay where they were, and the
next one is `x`. -/
theorem extendedBy_dataBlock (he : Extension v n x y) (h : OwnFile v n) :
    (∀ l, (v.inode n).refers (.data l) →
      (extendedBy v n x y S).dataBlock ((extendedBy v n x y S).inode n) l =
        v.dataBlock (v.inode n) l) ∧
    (extendedBy v n x y S).dataBlock ((extendedBy v n x y S).inode n) (v.inode n).blocks = x := by
  have hxlt := he.x_lt
  have hslot : ∀ q j, (extendedBy v n x y S).slot q j =
      if q = y ∧ j = (v.inode n).blocks % 1024 then x else v.slot q j :=
    fun q j => slot_setSlot (by omega) q j
  constructor
  · intro l hl
    have hne : l ≠ (v.inode n).blocks := by
      have : l < (v.inode n).blocks := hl
      omega
    have hheld : v.held n (.ptr (l / 1024)) := h.held_ptr ⟨h.live, hl⟩
    have hsame : ((extendedBy v n x y S).inode n).ptr (l / 1024) = (v.inode n).ptr (l / 1024) := by
      rw [extendedBy_inode]
      dsimp only
      by_cases hi : l / 1024 = (v.inode n).blocks / 1024
      · rw [hi, Function.update_self]
        rcases he.ptr with ⟨hy, -⟩ | ⟨hzero, -⟩
        · exact hy.symm
        · rw [hi] at hheld
          exact absurd hzero hheld.2
      · rw [Function.update_of_ne hi]
    simp only [View.dataBlock]
    rw [hsame, hslot, if_neg]
    rintro ⟨hy, hj⟩
    have hi : l / 1024 ≠ (v.inode n).blocks / 1024 := by omega
    rcases he.ptr with ⟨hy', hy0⟩ | ⟨-, -, -, hfree, -⟩
    · have hblock : v.held n (.ptr ((v.inode n).blocks / 1024)) :=
        ⟨h.live, by show (v.inode n).ptr _ ≠ 0; rw [hy']; exact hy0⟩
      exact hi (Ref.ptr.inj (h.inj hheld hblock (hy.trans hy'.symm)))
    · have := (h.inData hheld).2.2
      rw [show v.place n (.ptr (l / 1024)) = y from hy, hfree] at this
      cases this
  · have hptr : ((extendedBy v n x y S).inode n).ptr ((v.inode n).blocks / 1024) = y := by
      rw [extendedBy_inode]
      exact Function.update_self ..
    simp only [View.dataBlock]
    rw [hslot, if_pos ⟨hptr, rfl⟩]

/-- INTERNAL: the pointers of the file after an extension. -/
theorem extendedBy_ptr (he : Extension v n x y) (h : OwnFile v n)
    (hSk : S / 4096 ≤ (v.inode n).blocks) :
    y ≠ 0 ∧ ((extendedBy v n x y S).inode n).ptr 0 ≠ 0 ∧
      ∀ i ≤ S / 4096 / 1024, ((extendedBy v n x y S).inode n).ptr i ≠ 0 := by
  have hy := (he.pointer h).1
  have hptr : ∀ i ≤ S / 4096 / 1024, ((extendedBy v n x y S).inode n).ptr i ≠ 0 := by
    intro i hi
    rw [extendedBy_inode]
    dsimp only
    by_cases hik : i = (v.inode n).blocks / 1024
    · rw [hik, Function.update_self]
      omega
    · rw [Function.update_of_ne hik]
      rcases file_blocks h.file h.state with ⟨-, -, hblocks⟩ | ⟨hptr, hblocks⟩
      · omega
      · exact h.file.ptr hptr i (by omega)
  exact ⟨by omega, hptr 0 (Nat.zero_le _), hptr⟩

/-- INTERNAL: what the file refers to after an extension: what it referred to before, the next
data block and its pointer block. -/
theorem extendedBy_refers (he : Extension v n x y) (h : OwnFile v n)
    (hS : (v.inode n).fileSize ≤ S) (hSk : S / 4096 ≤ (v.inode n).blocks) (r : Ref) :
    ((v.inode n).refers r → ((extendedBy v n x y S).inode n).refers r) ∧
    (((extendedBy v n x y S).inode n).refers r → (v.inode n).refers r ∨
      r = .data (v.inode n).blocks ∨ r = .ptr ((v.inode n).blocks / 1024)) := by
  obtain ⟨hy0, hptr0, -⟩ := extendedBy_ptr he h hSk
  have hstate' : ((extendedBy v n x y S).inode n).state = 1 := by
    rw [extendedBy_inode]
    exact h.state
  have hblocks : ((extendedBy v n x y S).inode n).blocks = S / 4096 + 1 := by
    rw [blocks_file hstate' hptr0, extendedBy_inode]
  have hle : (v.inode n).blocks ≤ S / 4096 + 1 := by
    rcases file_blocks h.file h.state with ⟨-, -, hb⟩ | ⟨-, hb⟩
    · omega
    · have := Nat.div_le_div_right (c := 4096) hS
      omega
  cases r with
  | ptr i =>
    simp only [Inode.refers, extendedBy_inode]
    by_cases hi : i = (v.inode n).blocks / 1024
    · subst hi
      exact ⟨fun _ => by rw [Function.update_self]; exact hy0, fun _ => Or.inr (Or.inr rfl)⟩
    · rw [Function.update_of_ne hi]
      exact ⟨id, Or.inl⟩
  | data l =>
    simp only [Inode.refers, hblocks]
    refine ⟨fun hl => by omega, fun hl => ?_⟩
    by_cases hlk : l = (v.inode n).blocks
    · exact Or.inr (Or.inl (by rw [hlk]))
    · exact Or.inl (by omega)

/-- INTERNAL: what the file holds stays where it was. -/
theorem extendedBy_place (he : Extension v n x y) (h : OwnFile v n) {r : Ref}
    (hr : v.held n r) : (extendedBy v n x y S).place n r = v.place n r := by
  cases r with
  | data l => exact (extendedBy_dataBlock he h).1 l hr.2
  | ptr i =>
    simp only [View.place, extendedBy_inode]
    by_cases hi : i = (v.inode n).blocks / 1024
    · subst hi
      rw [Function.update_self]
      rcases he.ptr with ⟨hp, -⟩ | ⟨hzero, -⟩
      · exact hp.symm
      · exact absurd hzero hr.2
    · rw [Function.update_of_ne hi]

/-- INTERNAL: **what the file takes**: the block `x` for its data and, where it had no pointer
block for it, the block `y`; both were free. -/
theorem extendedBy_fresh (he : Extension v n x y) (h : OwnFile v n)
    (hS : (v.inode n).fileSize ≤ S) (hSk : S / 4096 ≤ (v.inode n).blocks) {r : Ref}
    (hr : (extendedBy v n x y S).held n r) (hnot : ¬ v.held n r) :
    (r = .data (v.inode n).blocks ∧ (extendedBy v n x y S).place n r = x ∨
      r = .ptr ((v.inode n).blocks / 1024) ∧ (extendedBy v n x y S).place n r = y) ∧
    v.used ((extendedBy v n x y S).place n r) = false := by
  rcases (extendedBy_refers he h hS hSk r).2 hr.2 with hr' | rfl | rfl
  · exact absurd ⟨h.live, hr'⟩ hnot
  · have hp : (extendedBy v n x y S).place n (.data (v.inode n).blocks) = x :=
      (extendedBy_dataBlock he h).2
    rw [hp]
    exact ⟨Or.inl ⟨rfl, rfl⟩, he.x_free⟩
  · have hp : (extendedBy v n x y S).place n (.ptr ((v.inode n).blocks / 1024)) = y := by
      simp only [View.place, extendedBy_inode, Function.update_self]
    rw [hp]
    refine ⟨Or.inr ⟨rfl, rfl⟩, ?_⟩
    rcases he.ptr with ⟨hp', hp0⟩ | ⟨-, -, -, hfree, -⟩
    · exact absurd ⟨h.live, by rw [← hp'] at hp0; exact hp0⟩ hnot
    · exact hfree

theorem extendedBy_fits (he : Extension v n x y) (h : OwnFile v n)
    (hSk : S / 4096 ≤ (v.inode n).blocks) : ((extendedBy v n x y S).inode n).Fits := by
  have hfits := h.fits
  have hle := h.blocks_le
  obtain ⟨-, hy, -, -⟩ := he.pointer h
  rw [extendedBy_inode]
  refine ⟨hfits.1, ?_, hfits.3, hfits.4, fun i => ?_, fun i hi => ?_⟩
  · show S < 2 ^ 32
    omega
  · dsimp only
    rw [Function.update_apply]
    split
    · omega
    · exact hfits.ptr i
  · dsimp only
    rw [Function.update_of_ne (by omega)]
    exact hfits.ptr_past i hi

/-- INTERNAL: **after an extension the blocks of the file are its own**, the new ones too. -/
theorem extendedBy_ownFile (he : Extension v n x y) (h : OwnFile v n)
    (hS : (v.inode n).fileSize ≤ S) (hSk : S / 4096 ≤ (v.inode n).blocks) :
    OwnFile (extendedBy v n x y S) n := by
  obtain ⟨hy, hy', hxy, -⟩ := he.pointer h
  obtain ⟨-, hptr0, hptr⟩ := extendedBy_ptr he h hSk
  have hused := extendedBy_used (v := v) (n := n) (x := x) (y := y) (S := S)
  have hkept : ∀ b, v.used b = true → (extendedBy v n x y S).used b = true := by
    intro b hb
    rw [hused]
    split
    · rfl
    · exact hb
  apply h.update ⟨h.live.1, hkept _ h.live.2⟩
  · rw [extendedBy_inode]
    exact h.state
  · exact extendedBy_fits he h hSk
  · refine ⟨fun e => absurd e hptr0, fun _ i hi => hptr i ?_⟩
    rw [extendedBy_inode] at hi
    exact hi
  · exact hkept
  · exact fun r hr => extendedBy_place he h hr
  · intro r hr hnot
    obtain ⟨⟨-, hp⟩ | ⟨-, hp⟩, hfree⟩ := extendedBy_fresh he h hS hSk hr hnot
    · rw [hp] at hfree ⊢
      exact ⟨hfree, he.x_ge, he.x_lt, by rw [hused, if_pos (Or.inl rfl)]⟩
    · rw [hp] at hfree ⊢
      exact ⟨hfree, hy, hy', by rw [hused, if_pos (Or.inr rfl)]⟩
  · intro r q hr hr' hq hq' e
    rcases (extendedBy_fresh he h hS hSk hr hr').1 with ⟨rfl, hp⟩ | ⟨rfl, hp⟩ <;>
      rcases (extendedBy_fresh he h hS hSk hq hq').1 with ⟨rfl, hp'⟩ | ⟨rfl, hp'⟩
    · rfl
    · rw [hp, hp'] at e
      exact absurd e hxy
    · rw [hp, hp'] at e
      exact absurd e.symm hxy
    · rfl

/-- INTERNAL: **a file that takes one more block** keeps those it has. SRCLINE: node.c:85-127 -/
theorem grown_extend (he : Extension v n x y) (h : OwnFile v n) (hS : (v.inode n).fileSize ≤ S)
    (hSk : S / 4096 ≤ (v.inode n).blocks) : Grown n v (extendedBy v n x y S) := by
  have hx := he.x_ge
  obtain ⟨hy, -, -, -⟩ := he.pointer h
  have hown := extendedBy_ownFile he h hS hSk
  refine ⟨hown, fun m hm => View.setInode_ne _ hm, fun b hb => ?_, ?_, ?_, ?_, fun b hb => ?_,
    fun r hr => ⟨⟨hown.live, (extendedBy_refers he h hS hSk r).1 hr.2⟩, extendedBy_place he h hr⟩,
    fun r hr => ?_, rfl, fun b hb hnot => ?_⟩
  · rw [extendedBy_used, if_neg (by omega)]
  · rw [extendedBy_inode]
  · rw [extendedBy_inode]
  · rw [extendedBy_inode]
  · rw [extendedBy_used]
    split
    · rfl
    · exact hb
  · by_cases hvr : v.held n r
    · exact Or.inl hvr
    · exact Or.inr (extendedBy_fresh he h hS hSk hr hvr).2
  · apply extendedBy_data_ne
    rintro rfl
    rcases he.ptr with ⟨hp, hp0⟩ | ⟨-, -, -, hfree, -⟩
    · exact hnot (.ptr _) ⟨h.live, by rw [← hp] at hp0; exact hp0⟩ hp
    · rw [hb] at hfree
      cases hfree

end Extend

/-! ## A block in a slot that no block of the file has -/

/-- The view after the file `n` got the pointer block `y` as its pointer `i` and the block `x` in
the slot `j` of it. -/
def takenAt (v : View) (n i j x y : ℕ) : View :=
  (setSlot ((v.setUsed y true).setUsed x true) y j x).setInode n
    { v.inode n with ptr := Function.update (v.inode n).ptr i y }

/-- The block `x` is free, the block `y` is the pointer block `i` of the file or, when it has none,
another free block; and the slot `j` in it is that of no block of the file. -/
structure TakesAt (v : View) (n i j x y : ℕ) : Prop where
  x_ge : 34 ≤ x
  x_lt : x < 3000
  x_free : v.used x = false
  index : i < 1000
  ptr : (v.inode n).ptr i = y ∧ y ≠ 0 ∨
    (v.inode n).ptr i = 0 ∧ 34 ≤ y ∧ y < 3000 ∧ v.used y = false ∧ x ≠ y
  slot : ∀ k < (v.inode n).blocks, k / 1024 = i → k % 1024 ≠ j

section Take

variable {v : View} {n i j x y : ℕ}

theorem takenAt_inode : (takenAt v n i j x y).inode n =
    { v.inode n with ptr := Function.update (v.inode n).ptr i y } :=
  View.setInode_same ..

theorem takenAt_data_ne {c : ℕ} (hc : c ≠ y) : (takenAt v n i j x y).data c = v.data c :=
  setSlot_data_ne hc

theorem takenAt_used (c : ℕ) :
    (takenAt v n i j x y).used c = if c = x ∨ c = y then true else v.used c :=
  extendedBy_used (n := n) (S := 0) c

theorem TakesAt.pointer (ht : TakesAt v n i j x y) (h : OwnFile v n) :
    34 ≤ y ∧ y < 3000 ∧ x ≠ y := by
  rcases ht.ptr with ⟨rfl, hy0⟩ | ⟨-, hge, hlt, -, hxy⟩
  · obtain ⟨hge, hlt, hused⟩ := h.inData_ptr hy0
    refine ⟨hge, hlt, ?_⟩
    rintro rfl
    rw [ht.x_free] at hused
    cases hused
  · exact ⟨hge, hlt, hxy⟩

/-- INTERNAL: the pointer block is no data block of the file, and only its own pointer leads to
it. -/
theorem TakesAt.place_ne (ht : TakesAt v n i j x y) (h : OwnFile v n) {r : Ref} (hr : v.held n r)
    (hne : r ≠ .ptr i) : v.place n r ≠ y := by
  intro he
  rcases ht.ptr with ⟨hy, hy0⟩ | ⟨-, -, -, hfree, -⟩
  · have hi : v.held n (.ptr i) := ⟨h.live, by
      change (v.inode n).ptr i ≠ 0
      rw [hy]
      exact hy0⟩
    exact hne (h.inj hr hi (he.trans hy.symm))
  · have hused := (h.inData hr).2.2
    rw [he, hfree] at hused
    cases hused

/-- INTERNAL: what the file holds stays where it was. -/
theorem takenAt_place (ht : TakesAt v n i j x y) (h : OwnFile v n) {r : Ref} (hr : v.held n r) :
    (takenAt v n i j x y).place n r = v.place n r := by
  have hkept : ∀ l, (v.inode n).ptr l ≠ 0 →
      ((takenAt v n i j x y).inode n).ptr l = (v.inode n).ptr l := by
    intro l hl
    rw [takenAt_inode]
    dsimp only
    by_cases hi : l = i
    · subst hi
      rw [Function.update_self]
      exact ((ht.ptr.resolve_right fun hz => hl hz.1).1).symm
    · rw [Function.update_of_ne hi]
  cases r with
  | ptr l => exact hkept l hr.2
  | data k =>
    have hheld := h.held_ptr hr
    have hxlt := ht.x_lt
    simp only [View.place, View.dataBlock]
    rw [hkept _ hheld.2]
    have hslot : ∀ q l, (takenAt v n i j x y).slot q l =
        if q = y ∧ l = j then x else v.slot q l := fun q l => slot_setSlot (by omega) q l
    rw [hslot, if_neg]
    rintro ⟨hy, hj⟩
    by_cases hi : k / 1024 = i
    · exact ht.slot k hr.2 hi hj
    · exact ht.place_ne h hheld (fun e => hi (Ref.ptr.inj e)) hy

theorem takenAt_blocks (hptr : (v.inode n).ptr 0 ≠ 0) (ht : TakesAt v n i j x y)
    (h : OwnFile v n) : ((takenAt v n i j x y).inode n).blocks = (v.inode n).blocks := by
  obtain ⟨hy, -, -⟩ := ht.pointer h
  have hptr' : ((takenAt v n i j x y).inode n).ptr 0 ≠ 0 := by
    rw [takenAt_inode]
    dsimp only
    rw [Function.update_apply]
    split
    · omega
    · exact hptr
  have hstate' : ((takenAt v n i j x y).inode n).state = 1 := by
    rw [takenAt_inode]
    exact h.state
  rw [blocks_file hstate' hptr', blocks_file h.state hptr, takenAt_inode]

/-- INTERNAL: **a block in a slot of no block of the file** leaves the file as it is.
SRCLINE: node.c:85-127 -/
theorem grown_takenAt (hptr : (v.inode n).ptr 0 ≠ 0) (ht : TakesAt v n i j x y)
    (h : OwnFile v n) : Grown n v (takenAt v n i j x y) := by
  obtain ⟨hy, hy', hxy⟩ := ht.pointer h
  have hblocks := takenAt_blocks hptr ht h
  have hx := ht.x_ge
  have hi := ht.index
  have hkept : ∀ b, v.used b = true → (takenAt v n i j x y).used b = true := by
    intro b hb
    rw [takenAt_used]
    split
    · rfl
    · exact hb
  have hplace := fun r (hr : v.held n r) => takenAt_place ht h hr
  have hnonzero : ∀ l, (v.inode n).ptr l ≠ 0 → ((takenAt v n i j x y).inode n).ptr l ≠ 0 := by
    intro l hl
    have := hplace (.ptr l) ⟨h.live, hl⟩
    change ((takenAt v n i j x y).inode n).ptr l = (v.inode n).ptr l at this
    rwa [this]
  have hheld : ∀ r, v.held n r → (takenAt v n i j x y).held n r := by
    rintro (l | k) ⟨hn, hr⟩
    · exact ⟨⟨hn.1, hkept _ hn.2⟩, hnonzero l hr⟩
    · refine ⟨⟨hn.1, hkept _ hn.2⟩, ?_⟩
      rw [Inode.refers, hblocks]
      exact hr
  -- at most the pointer block is new
  have hfresh : ∀ r, (takenAt v n i j x y).held n r → ¬ v.held n r →
      r = .ptr i ∧ (takenAt v n i j x y).place n r = y ∧ v.used y = false := by
    rintro (l | k) ⟨-, hr⟩ hnot
    · have hl : (v.inode n).ptr l = 0 := by
        by_contra hne
        exact hnot ⟨h.live, hne⟩
      obtain rfl : l = i := by
        by_contra hne
        rw [takenAt_inode, Inode.refers] at hr
        dsimp only at hr
        rw [Function.update_of_ne hne] at hr
        exact hr hl
      rcases ht.ptr with ⟨he, hy0⟩ | ⟨-, -, -, hfree, -⟩
      · exact absurd (he ▸ hl) hy0
      · refine ⟨rfl, ?_, hfree⟩
        simp only [View.place, takenAt_inode, Function.update_self]
    · rw [Inode.refers, hblocks] at hr
      exact absurd ⟨h.live, hr⟩ hnot
  have hown : OwnFile (takenAt v n i j x y) n := by
    have hfits := h.fits
    apply h.update ⟨h.live.1, hkept _ h.live.2⟩
    · rw [takenAt_inode]
      exact h.state
    · rw [takenAt_inode]
      refine ⟨hfits.1, hfits.2, hfits.3, hfits.4, fun l => ?_, fun l hl => ?_⟩
      · dsimp only
        rw [Function.update_apply]
        split
        · omega
        · exact hfits.ptr l
      · dsimp only
        rw [Function.update_of_ne (by omega)]
        exact hfits.ptr_past l hl
    · refine ⟨fun e => absurd e (hnonzero 0 hptr), fun _ l hl => hnonzero l (h.file.ptr hptr l ?_)⟩
      rw [takenAt_inode] at hl
      exact hl
    · exact hkept
    · exact hplace
    · intro r hr hnot
      obtain ⟨-, hp, hfree⟩ := hfresh r hr hnot
      rw [hp]
      exact ⟨hfree, hy, hy', by rw [takenAt_used, if_pos (Or.inr rfl)]⟩
    · intro r q hr hr' hq hq' _
      rw [(hfresh r hr hr').1, (hfresh q hq hq').1]
  refine ⟨hown, fun m hm => View.setInode_ne _ hm, fun b hb => ?_, by rw [takenAt_inode],
    by rw [takenAt_inode], by rw [takenAt_inode], hkept,
    fun r hr => ⟨hheld r hr, hplace r hr⟩, fun r hr => ?_, rfl, fun b hb hnot => ?_⟩
  · rw [takenAt_used, if_neg (by omega)]
  · by_cases hvr : v.held n r
    · exact Or.inl hvr
    · obtain ⟨-, hp, hfree⟩ := hfresh r hr hvr
      rw [hp]
      exact Or.inr hfree
  · apply takenAt_data_ne
    rintro rfl
    rcases ht.ptr with ⟨hp, hp0⟩ | ⟨-, -, -, hfree, -⟩
    · exact hnot (.ptr i) ⟨h.live, by rw [← hp] at hp0; exact hp0⟩ hp
    · rw [hb] at hfree
      cases hfree

end Take

/-! ## Another size -/

/-- The view after the file `n` got the size `S`. -/
def resized (v : View) (n S : ℕ) : View := v.setInode n { v.inode n with fileSize := S }

section Resize

variable {v : View} {n S : ℕ}

theorem resized_inode : (resized v n S).inode n = { v.inode n with fileSize := S } :=
  View.setInode_same ..

theorem resized_place (r : Ref) : (resized v n S).place n r = v.place n r := by
  cases r with
  | ptr i => simp only [View.place, resized_inode]
  | data k =>
    simp only [View.place, resized_inode]
    rfl

/-- INTERNAL: **a size within the last block, or below it,** leaves the file with blocks of its
own. SRCLINE: sacio.c:219-221, sacio.c:544-548 -/
theorem resized_spec (h : Core v) (hn : v.live n) (hstate : (v.inode n).state = 1)
    (hptr : (v.inode n).ptr 0 ≠ 0) (hS : S / 4096 ≤ (v.inode n).fileSize / 4096) :
    Core (resized v n S) ∧ Others n v (resized v n S) ∧
      (∀ r, (resized v n S).held n r → v.held n r) ∧
      (S / 4096 = (v.inode n).fileSize / 4096 → ∀ r, v.held n r → (resized v n S).held n r) := by
  have hnode := h.node n hn
  have hfile := hnode.file hstate
  have hothers : Others n v (resized v n S) :=
    Others.of_touched h hn.1 (fun _ => False) (fun _ hf => hf.elim)
      (fun m hm => View.setInode_ne _ hm) (fun _ _ => rfl) fun _ _ => rfl
  have hblocks : (v.inode n).blocks = (v.inode n).fileSize / 4096 + 1 := blocks_file hstate hptr
  have hblocks' : ((resized v n S).inode n).blocks = S / 4096 + 1 := by
    rw [resized_inode]
    exact blocks_file hstate hptr
  have hheld : ∀ r, (resized v n S).held n r → v.held n r := by
    rintro (i | k) ⟨hl, hr⟩
    · rw [resized_inode] at hr
      exact ⟨hl, hr⟩
    · simp only [Inode.refers, hblocks'] at hr
      refine ⟨hl, ?_⟩
      simp only [Inode.refers, hblocks]
      omega
  have hnode' : NodeOk (resized v n S) ((resized v n S).inode n) := by
    have hfits := hnode.fits
    rw [resized_inode]
    refine ⟨⟨hfits.1, ?_, hfits.3, hfits.4, hfits.5, hfits.6⟩, hnode.kind, hnode.named,
      fun e => ?_, fun _ => ⟨fun e => absurd e hptr, fun _ i hi => hfile.ptr hptr i ?_⟩⟩
    · have := hfits.fileSize
      show S < 2 ^ 32
      omega
    · rw [show (v.inode n).state = 2 from e] at hstate
      exact absurd hstate (by decide)
    · have : i ≤ S / 4096 / 1024 := hi
      omega
  refine ⟨?_, hothers, hheld, ?_⟩
  · refine h.change hothers (fun _ => False) ?_ (fun _ => hnode') ?_ ?_ ?_ ?_
    · rintro rfl
      rw [h.root] at hstate
      exact absurd hstate (by decide)
    · intro _ hn0
      rw [resized_inode]
      exact h.parent n hn hn0
    · exact fun r hr _ => ⟨hheld r hr, resized_place r, h.inData (hheld r hr)⟩
    · exact fun _ _ hf => hf.elim
    · exact fun _ _ _ hf => hf.elim
  · rintro hsame (i | k) ⟨hl, hr⟩
    · exact ⟨hl, by rw [resized_inode]; exact hr⟩
    · refine ⟨hl, ?_⟩
      simp only [Inode.refers, hblocks] at hr
      simp only [Inode.refers, hblocks', hsame]
      exact hr

/-- INTERNAL: **a size within the last block** leaves the file as it is. SRCLINE: sacio.c:219-221 -/
theorem grown_resized (h : OwnFile v n) (hptr : (v.inode n).ptr 0 ≠ 0)
    (hS : S / 4096 = (v.inode n).fileSize / 4096) : Grown n v (resized v n S) := by
  have hblocks : ((resized v n S).inode n).blocks = (v.inode n).blocks := by
    rw [resized_inode, blocks_file h.state hptr, ← hS]
    exact blocks_file h.state hptr
  have hheld : ∀ r, (resized v n S).held n r ↔ v.held n r := by
    rintro (i | k)
    · simp only [View.held, Inode.refers, resized_inode]
      rfl
    · simp only [View.held, Inode.refers, hblocks]
      rfl
  have hle := h.blocks_le
  rw [blocks_file h.state hptr] at hle
  have hown : OwnFile (resized v n S) n := by
    have hfits := h.fits
    refine h.update h.live ?_ ?_ ⟨?_, ?_⟩ (fun _ hb => hb) (fun r _ => resized_place r)
      (fun r hr hnot => absurd ((hheld r).mp hr) hnot)
      (fun r _ hr hnot => absurd ((hheld r).mp hr) hnot)
    all_goals rw [resized_inode]
    · exact h.state
    · refine ⟨hfits.1, ?_, hfits.3, hfits.4, hfits.5, hfits.6⟩
      change S < 2 ^ 32
      omega
    · exact fun e => absurd e hptr
    · intro _ i hi
      have hi : i ≤ S / 4096 / 1024 := hi
      exact h.file.ptr hptr i (by omega)
  exact ⟨hown, fun m hm => View.setInode_ne _ hm, fun _ _ => rfl, by rw [resized_inode],
    by rw [resized_inode], by rw [resized_inode], fun _ hb => hb,
    fun r hr => ⟨(hheld r).mpr hr, resized_place r⟩, fun r hr => Or.inl ((hheld r).mp hr), rfl,
    fun _ _ _ => rfl⟩

end Resize

/-! ## add_data_block_to_node -/

/-- From `v` to `w` only free blocks of the data region were taken. -/
structure OnlyTakes (v w : View) : Prop where
  inode : w.inode = v.inode
  data : w.data = v.data
  metadata : w.metadata = v.metadata
  used : ∀ b, v.used b = true → w.used b = true
  low : ∀ b < 34, w.used b = v.used b

theorem OnlyTakes.refl (v : View) : OnlyTakes v v :=
  ⟨rfl, rfl, rfl, fun _ hb => hb, fun _ _ => rfl⟩

theorem OnlyTakes.setUsed {v w : View} (h : OnlyTakes v w) {b : ℕ} (hb : 34 ≤ b) :
    OnlyTakes v (w.setUsed b true) where
  inode := h.inode
  data := h.data
  metadata := h.metadata
  used c hc := View.used_setUsed_true (h.used c hc)
  low c hc := (View.setUsed_ne true (by omega)).trans (h.low c hc)

section AddBlock

variable {v : View} {E : Fault → View → Prop} {node : Node} {n : ℕ}

/-- INTERNAL: **which slot `add_data_block_to_node` writes**: the one of the next block number
in the last of the leading pointer blocks, or slot 0 of a new one. SRCLINE: node.c:85-127 -/
theorem vwp_addDataBlockToNode_slot {Q : Node → View → Prop}
    (hptr : node.fileSize / 4096 + 1 < 1024 * node.leadingPointers →
      freeCount v.used 34 3000 ≠ 0 → 34 ≤ node.indirectPointerBlock (node.leadingPointers - 1) ∧
        node.indirectPointerBlock (node.leadingPointers - 1) < 3000)
    (hroom : 1024 * node.leadingPointers ≤ node.fileSize / 4096 + 1 → node.leadingPointers < 1000)
    (hold : node.fileSize / 4096 + 1 < 1024 * node.leadingPointers →
      ∀ x, 34 ≤ x → x < 3000 → v.used x = false → (∀ j, 34 ≤ j → j < x → v.used j = true) →
      Q node (setSlot (v.setUsed x true)
        (node.indirectPointerBlock (node.leadingPointers - 1))
        ((node.fileSize / 4096 + 1) % 1024) x))
    (hnew : 1024 * node.leadingPointers ≤ node.fileSize / 4096 + 1 →
      ∀ x y, 34 ≤ x → x < 3000 → v.used x = false → 34 ≤ y → y < 3000 → v.used y = false →
      x ≠ y → TakesFirst v x y →
      Q { node with indirectPointerBlock :=
            Function.update node.indirectPointerBlock node.leadingPointers y }
        (setSlot ((v.setUsed y true).setUsed x true) y 0 x))
    (hE : ∀ e w, e.IsAlloc → freeCount v.used 34 3000 ≤ 1 →
      (node.fileSize / 4096 + 1 < 1024 * node.leadingPointers →
        freeCount v.used 34 3000 = 0) → OnlyTakes v w → E e w) :
    vwp (addDataBlockToNode node) Q E v := by
  unfold addDataBlockToNode
  dsimp only [blockSize]
  by_cases hcase : node.fileSize / 4096 + 1 < 1024 * node.leadingPointers
  · rw [if_pos hcase]
    obtain ⟨hle, -, -⟩ := leadingPointers_spec node
    by_cases hnone : freeCount v.used 34 3000 = 0
    · -- the allocator stops before the pointer block is read
      refine vwp_bind (vwp_bind (vwp_getFreeDataBlock (fun x hx hx' hfree _ => ?_)
        fun e he _ => hE e _ he (by omega) (fun _ => hnone) (OnlyTakes.refl v)))
      have hone := View.freeCount_setUsed_free hx hx' hfree
      omega
    obtain ⟨hp, hp'⟩ := hptr hcase hnone
    exact vwp_bind (vwp_createDataBlockInPointerBlock (by omega) (by omega) hp hp'
      (fun x hx hx' hfree hfirst => vwp_pure (hold hcase x hx hx' hfree hfirst))
      fun e he hcount => hE e _ he (by omega) (fun _ => hcount) (OnlyTakes.refl v))
  · rw [if_neg hcase]
    have hlt := hroom (by omega)
    refine vwp_bind (vwp_createPointersBlockInNode hlt (fun y hy hy' hyfree hyfirst => ?_)
      fun e he hcount => hE e _ he (by omega) (fun _ => hcount) (OnlyTakes.refl v))
    have hsame : Function.update node.indirectPointerBlock node.leadingPointers y
        node.leadingPointers = y := Function.update_self ..
    refine vwp_bind (vwp_createDataBlockInPointerBlock hlt (by omega)
      (by dsimp only; rw [hsame]; exact hy) (by dsimp only; rw [hsame]; exact hy')
      (fun x hx hx' hfree hfirst => ?_) ?_)
    · have hxy : x ≠ y := by
        rintro rfl
        rw [View.setUsed_same] at hfree
        cases hfree
      rw [View.setUsed_ne _ hxy] at hfree
      dsimp only
      rw [hsame]
      refine vwp_pure (hnew (by omega) x y hx hx' hfree hy hy' hyfree hxy
        ⟨fun _ => hyfirst, fun j hj hjx hjy => ?_⟩)
      rw [← hfirst j hj hjx, View.setUsed_ne _ hjy]
    · intro e he hcount
      refine hE e _ he ?_ (fun hroom => absurd hroom hcase) ((OnlyTakes.refl v).setUsed hy)
      have hstep := v.freeCount_setUsed y 34 3000
      omega

/-- INTERNAL: **`add_data_block_to_node`** extends the file by the block that the readers will
look for, when no pointer behind the one for it is in the way. SRCLINE: node.c:85-127 -/
theorem vwp_addDataBlockToNode {Q : Node → View → Prop}
    (h : OwnFile (v.setInode n (inodeOfNode node)) n)
    (hnext : NextInPlace (inodeOfNode node) (node.fileSize / 4096 + 1) ∨
      node.indirectPointerBlock 0 = 0)
    (hQ : ∀ node' w x y, Extension (v.setInode n (inodeOfNode node)) n x y → TakesFirst v x y →
      (∀ S, w.setInode n (inodeOfNode { node' with fileSize := S }) =
        extendedBy (v.setInode n (inodeOfNode node)) n x y S) →
      node'.fileSize = node.fileSize → Q node' w)
    (hE : ∀ e w, e.IsAlloc → freeCount v.used 34 3000 ≤ 1 → OnlyTakes v w → E e w) :
    vwp (addDataBlockToNode node) Q E v := by
  generalize hV : v.setInode n (inodeOfNode node) = V at h hQ
  have hVinode : V.inode n = inodeOfNode node := by rw [← hV, View.setInode_same]
  have hVused : V.used = v.used := by rw [← hV]; rfl
  have hnd : (inodeOfNode node).fileSize = node.fileSize := rfl
  have hndptr : (inodeOfNode node).ptr = node.indirectPointerBlock := rfl
  have hfile := h.file
  have hstate := h.state
  have hle := h.blocks_le
  rw [hVinode] at hfile hstate hle
  have hblocks := file_blocks hfile hstate
  rw [hnd, hndptr] at hblocks
  obtain ⟨hlead, hleading, hend⟩ := leadingPointers_spec node
  have hin : ∀ i < node.leadingPointers, V.InData (node.indirectPointerBlock i) := by
    intro i hi
    have := h.inData_ptr (i := i) (by rw [hVinode]; exact hleading i hi)
    rwa [hVinode] at this
  have hroom : 1024 * node.leadingPointers ≤ node.fileSize / 4096 + 1 →
      node.leadingPointers < 1000 := by
    intro hcase
    rcases hblocks with ⟨-, hzero, -⟩ | ⟨-, hb⟩
    · rw [hzero] at hcase
      omega
    · omega
  have hlastIn : node.fileSize / 4096 + 1 < 1024 * node.leadingPointers →
      V.InData (node.indirectPointerBlock (node.leadingPointers - 1)) :=
    fun hcase => hin _ (by omega)
  refine vwp_addDataBlockToNode_slot (fun hcase _ => ⟨(hlastIn hcase).1, (hlastIn hcase).2.1⟩) hroom
    (fun hcase x hx hx' hfree hfirst => ?_)
    (fun hcase x y hx hx' hfree hy hy' hyfree hxy hfirst => ?_)
    fun e w he hcount _ htakes => hE e w he hcount htakes
  · -- the slot is in the last leading pointer block
    have hptr0 : node.indirectPointerBlock 0 ≠ 0 := hleading 0 (by omega)
    obtain ⟨-, hb⟩ := hblocks.resolve_left fun hz => hptr0 hz.1
    have hlast : (node.fileSize / 4096 + 1) / 1024 = node.leadingPointers - 1 := by
      by_contra hne
      rcases hnext.resolve_right hptr0 with hbehind | ⟨-, hown⟩
      · exact hleading _ (by omega) hbehind
      · exact hleading _ (by omega) hown
    have hy := hin (node.leadingPointers - 1) (by omega)
    have hext : Extension V n x (node.indirectPointerBlock (node.leadingPointers - 1)) := by
      refine ⟨hx, hx', by rw [hVused]; exact hfree, Or.inl ⟨?_, ?_⟩⟩
      · rw [hVinode, hb, hlast]
        rfl
      · have := hy.1
        omega
    have htakes : TakesFirst v x (node.indirectPointerBlock (node.leadingPointers - 1)) := by
      refine ⟨fun hfree' => ?_, fun j hj hjx _ => hfirst j hj hjx⟩
      rw [← hVused, hy.2.2] at hfree'
      cases hfree'
    refine hQ node _ x _ hext htakes (fun S => ?_) rfl
    have hsame : V.setUsed (node.indirectPointerBlock (node.leadingPointers - 1)) true = V :=
      View.setUsed_self hy.2.2
    unfold extendedBy
    rw [hsame, hVinode, hb, hlast, hndptr, Function.update_eq_self, ← hV]
    simp only [setSlot, View.setInode_setUsed, View.setInode_setData, View.setInode_setInode,
      View.setInode_data, View.setUsed_data]
    rfl
  · -- the slot is the first one of a new pointer block
    have hb : (inodeOfNode node).blocks / 1024 = node.leadingPointers ∧
        (inodeOfNode node).blocks % 1024 = 0 ∧
        node.indirectPointerBlock node.leadingPointers = 0 := by
      have hzero := hend (hroom hcase)
      rcases hblocks with ⟨hptr0, hsize, hb⟩ | ⟨hptr0, hb⟩
      · have hnone : node.leadingPointers = 0 := by
          by_contra hne
          exact hleading 0 (by omega) hptr0
        rw [hb, hnone] at *
        exact ⟨rfl, rfl, hptr0⟩
      · have hge : ¬ node.leadingPointers ≤ node.fileSize / 4096 / 1024 :=
          fun hlt => hfile.ptr hptr0 _ hlt hzero
        refine ⟨by omega, by omega, hzero⟩
    have hext : Extension V n x y := by
      refine ⟨hx, hx', by rw [hVused]; exact hfree,
        Or.inr ⟨?_, hy, hy', by rw [hVused]; exact hyfree, hxy⟩⟩
      rw [hVinode, hb.1]
      exact hb.2.2
    refine hQ _ _ x y hext hfirst (fun S => ?_) rfl
    unfold extendedBy
    rw [hVinode, hb.1, hb.2.1, ← hV]
    simp only [setSlot, View.setInode_setUsed, View.setInode_setData, View.setInode_setInode,
      View.setInode_data, View.setUsed_data]
    rfl

/-- INTERNAL: **wherever `add_data_block_to_node` stores the next block**, it is in a slot that no
block of the file has. SRCLINE: node.c:85-127 -/
theorem vwp_addDataBlockToNode_takes {Q : Node → View → Prop}
    (h : OwnFile (v.setInode n (inodeOfNode node)) n) (hptr : node.indirectPointerBlock 0 ≠ 0)
    (hsmall : node.fileSize < 2 ^ 31)
    (hQ : ∀ node' w i j x y,
      TakesAt (v.setInode n (inodeOfNode node)) n i j x y →
      TakesFirst v x y →
      (node.indirectPointerBlock i = 0 → i ≤ (node.fileSize / 4096 + 1) / 1024) →
      w.setInode n (inodeOfNode node') =
        takenAt (v.setInode n (inodeOfNode node)) n i j x y →
      node'.fileSize = node.fileSize → Q node' w)
    (hE : ∀ e w, e.IsAlloc → freeCount v.used 34 3000 ≤ 1 → OnlyTakes v w → E e w) :
    vwp (addDataBlockToNode node) Q E v := by
  generalize hV : v.setInode n (inodeOfNode node) = V at h hQ
  have hVinode : V.inode n = inodeOfNode node := by rw [← hV, View.setInode_same]
  have hVused : V.used = v.used := by rw [← hV]; rfl
  have hVptr : (V.inode n).ptr = node.indirectPointerBlock := by
    rw [hVinode]
    rfl
  have hptr' : (V.inode n).ptr 0 ≠ 0 := by rw [hVptr]; exact hptr
  have hblocks : (V.inode n).blocks = node.fileSize / 4096 + 1 := by
    rw [blocks_file h.state hptr', hVinode]
    rfl
  have hfile : ∀ l ≤ node.fileSize / 4096 / 1024, node.indirectPointerBlock l ≠ 0 := by
    intro l hl
    rw [← hVptr]
    exact h.file.ptr hptr' l (by rw [hVinode]; exact hl)
  obtain ⟨hlead, hleading, hend⟩ := leadingPointers_spec node
  have hin : ∀ l < node.leadingPointers, V.InData (node.indirectPointerBlock l) := by
    intro l hl
    rw [← hVptr]
    exact h.inData_ptr (by rw [hVptr]; exact hleading l hl)
  have hlastIn : node.fileSize / 4096 + 1 < 1024 * node.leadingPointers →
      V.InData (node.indirectPointerBlock (node.leadingPointers - 1)) :=
    fun hcase => hin _ (by omega)
  apply vwp_addDataBlockToNode_slot (fun hcase _ => ⟨(hlastIn hcase).1, (hlastIn hcase).2.1⟩)
    (by omega)
  · intro hcase x hx hx' hfree hfirst
    have hy := hin (node.leadingPointers - 1) (by omega)
    refine hQ node _ (node.leadingPointers - 1) ((node.fileSize / 4096 + 1) % 1024) x
      (node.indirectPointerBlock (node.leadingPointers - 1)) ?_ ?_
      (fun hz => absurd hz (hleading _ (by omega))) ?_ rfl
    · refine ⟨hx, hx', by rw [hVused]; exact hfree, by omega, Or.inl ⟨by rw [hVptr], ?_⟩, ?_⟩
      · exact hleading _ (by omega)
      · rw [hblocks]
        omega
    · refine ⟨fun hfree' => ?_, fun l hl hlx _ => hfirst l hl hlx⟩
      rw [← hVused, hy.2.2] at hfree'
      cases hfree'
    · have hsame : V.setUsed (node.indirectPointerBlock (node.leadingPointers - 1)) true = V :=
        View.setUsed_self hy.2.2
      unfold takenAt
      rw [hsame, hVptr, Function.update_eq_self, hVinode, ← hV]
      simp only [setSlot, View.setInode_setUsed, View.setInode_setData, View.setInode_setInode,
        View.setInode_data, View.setUsed_data]
      rfl
  · intro hcase x y hx hx' hfree hy hy' hyfree hxy hfirst
    have hzero := hend (by omega)
    refine hQ _ _ node.leadingPointers 0 x y ?_ hfirst (fun _ => by omega) ?_ rfl
    · refine ⟨hx, hx', by rw [hVused]; exact hfree, by omega,
        Or.inr ⟨by rw [hVptr]; exact hzero, hy, hy', by rw [hVused]; exact hyfree, hxy⟩, ?_⟩
      rw [hblocks]
      intro k hk hki
      exact absurd (hki ▸ hzero) (hfile _ (by omega))
    · unfold takenAt
      rw [hVptr, hVinode, ← hV]
      simp only [setSlot, View.setInode_setUsed, View.setInode_setData, View.setInode_setInode,
        View.setInode_data, View.setUsed_data]
      rfl
  · exact fun e w he hcount _ htakes => hE e w he hcount htakes

/-- INTERNAL: an extension leaves no stray pointer. -/
theorem NoStray.extend {x y S : ℕ} (hstray : NoStray (v.inode n)) (hstate : (v.inode n).state = 1)
    (hok : FileOk (v.inode n)) (hS : (v.inode n).fileSize ≤ S) :
    NoStray ((extendedBy v n x y S).inode n) := by
  intro i hi
  rw [extendedBy_inode] at hi ⊢
  have hle : (v.inode n).fileSize / 4096 ≤ S / 4096 := Nat.div_le_div_right hS
  have hi' : (S / 4096 + 1) / 1024 < i := hi
  dsimp only
  rw [Function.update_of_ne]
  · exact hstray i (by omega)
  · rcases file_blocks hok hstate with ⟨-, -, hb⟩ | ⟨-, hb⟩ <;> omega

end AddBlock

end LinuseFs.Analysis
