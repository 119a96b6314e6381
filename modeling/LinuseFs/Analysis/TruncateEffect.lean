import LinuseFs.Analysis.FileRead
import LinuseFs.Analysis.NameRuns

/-!
# What a truncation does to a file

`sac_truncate` cuts a file by whole blocks as long as 4096 bytes or more have to go, and lowers
the size otherwise.  Where the new end is inside an earlier block than the old one it loses a
block too many or keeps one too many (`blocksLeft`, `sizeLeft`).  To make a file longer it writes
the letter A.
-/

set_option autoImplicit false

namespace LinuseFs.Analysis

open LinuseFs.Computation LinuseFs.Model LinuseFs.Interface

/-- `sac_read` returns the pieces of the list for the file `n`. -/
def ReadsAs (s : SacState) (n : ℕ) (c : List UInt8) : Prop :=
  ∀ count offset, 0 < count → offset + count ≤ c.length →
    ∃ s', sacRead .ilp32 n count (offset : ℤ) s = .ok (count, (c.drop offset).take count) s'

/-- The reference is to a block that holds none of the first `len` bytes. -/
def Beyond (len : ℕ) : Ref → Prop
  | .ptr i => len ≤ 1024 * i * 4096
  | .data k => len ≤ k * 4096

/-- The reference is to the data block `k` or to its pointer block. -/
def NeededFor (k : ℕ) : Ref → Prop
  | .ptr i => i = k / 1024
  | .data j => j = k

/-- The node has no pointer blocks but those of its data blocks. -/
def NoSurplus (nd : Inode) : Prop := ∀ i, nd.fileSize / 4096 / 1024 < i → nd.ptr i = 0

/-- From `s` to `s'` the file `n` was cut to its first `len` bytes, and what is not needed for
them is free. -/
structure ShrunkTo (s s' : SacState) (n len : ℕ) : Prop where
  size : ((viewOf s').inode n).fileSize = len
  reads : ReadsAs s' n ((content (viewOf s) n).take len)
  cleared : ∀ b, s.used b = true ∧ s'.used b = false ↔
    ∃ r, (viewOf s).held n r ∧ (viewOf s).place n r = b ∧ Beyond len r ∧
      ¬ (NeededFor (len / 4096) r ∧ (viewOf s').held n r)

theorem NoSurplus.le {nd : Inode} {i : ℕ} (h : NoSurplus nd) (hi : nd.ptr i ≠ 0) :
    i ≤ nd.fileSize / 4096 / 1024 := by
  by_contra hlt
  exact hi (h i (not_le.mp hlt))

section Reads

variable {v w : View} {s : SacState} {n : ℕ} {c : List UInt8}

/-- INTERNAL: a well-formed file reads as what it holds. -/
theorem readsAs_of_content (h : Core (viewOf s)) (hn : (viewOf s).live n)
    (hstate : ((viewOf s).inode n).state = 1) (hc : content (viewOf s) n = c) : ReadsAs s n c := by
  intro count offset hcount hend
  have hlen : c.length = ((viewOf s).inode n).fileSize := by rw [← hc, length_content]
  have hsmall := fileSize_lt h hn hstate
  have hptr : ((viewOf s).inode n).ptr 0 ≠ 0 := h.ptr_ne_zero hn hstate (by omega)
  have hwp : vwp (sacRead .ilp32 n count (offset : ℤ))
      (fun r _ => r = (count, (c.drop offset).take count)) (fun _ _ => False) (viewOf s) := by
    refine vwp_sacRead h hn hstate hptr (by omega) (by omega) (fun _ => Or.inl ⟨rfl, by omega⟩)
      fun l hl => ?_
    rw [hc] at hl
    rw [hl, List.length_take, List.length_drop, min_eq_left (by omega)]
  obtain ⟨r, s', hok, rfl⟩ := exists_ok_of_wp (hwp s rfl) fun _ _ hf => hf
  exact ⟨s', hok⟩

/-- INTERNAL: what is left of a file is the beginning of what it held. -/
theorem Shrunk.content (hs : Shrunk n v w) (hn : v.live n) (hstate : (v.inode n).state = 1) :
    Analysis.content w n = (Analysis.content v n).take (w.inode n).fileSize := by
  have hsize := hs.size
  have hwn := (hs.live n).mpr hn
  have hwstate := hs.state.trans hstate
  unfold Analysis.content
  rw [← List.map_take, List.take_range, min_eq_left hsize]
  apply List.map_congr_left
  intro i hi
  rw [List.mem_range] at hi
  have hptr : (w.inode n).ptr 0 ≠ 0 := hs.core.ptr_ne_zero hwn hwstate (by omega)
  obtain ⟨-, hplace⟩ :=
    hs.kept _ (held_of_div_le hwn hwstate hptr (Nat.div_le_div_right (c := 4096) hi.le))
  rw [byteAt, hplace, hs.data, byteAt]

end Reads

/-! ## Shorter files -/

section Shorter

variable {v : View} {n c S len : ℕ}

/-- INTERNAL: the blocks that a cut releases. -/
theorem cut_used (b : ℕ) : (cut v n c S).used b = true ↔ v.used b = true ∧
    ¬ ∃ r, v.held n r ∧ Ref.CutAt c (v.inode n).blocks r ∧ v.place n r = b :=
  View.released_used _ b

/-- INTERNAL: **which bits a cut clears.** -/
theorem cut_cleared (h : Core v) (b : ℕ) : v.used b = true ∧ (cut v n c S).used b = false ↔
    ∃ r, v.held n r ∧ Ref.CutAt c (v.inode n).blocks r ∧ v.place n r = b := by
  rw [Bool.eq_false_iff, ne_eq, cut_used]
  constructor
  · rintro ⟨hused, hcut⟩
    exact not_not.mp fun hnot => hcut ⟨hused, hnot⟩
  · rintro ⟨r, hr, hcut, rfl⟩
    exact ⟨(h.inData hr).2.2, fun hk => hk.2 ⟨r, hr, hcut, rfl⟩⟩

/-- INTERNAL: when the cut is where the claim wants it. -/
theorem blocksLeft_exact {s : ℕ} (hlt : len < s) (hwhere : len / 4096 = s / 4096 ∨ len % 4096 = 0) :
    sizeLeft len s = len ∧ (blocksLeft len s = len / 4096 + 1 ∨
      (len = 0 ∧ s / 4096 = 0 ∧ blocksLeft len s = 0)) := by
  constructor
  · unfold sizeLeft
    split <;> omega
  · unfold blocksLeft
    by_cases hsame : len / 4096 = s / 4096
    · rw [if_pos hsame]
      split
      · right
        omega
      · left
        omega
    · rw [if_neg hsame, if_pos (Or.inl (hwhere.resolve_left hsame))]
      exact Or.inl rfl

/-- INTERNAL: otherwise the file is too short, or it keeps the block behind its last one. -/
theorem blocksLeft_not_exact {s : ℕ} (hlt : len < s)
    (hwhere : ¬ (len / 4096 = s / 4096 ∨ len % 4096 = 0)) :
    sizeLeft len s ≠ len ∨ (blocksLeft len s = len / 4096 + 2 ∧ len / 4096 + 1 ≤ s / 4096) := by
  rw [not_or] at hwhere
  unfold sizeLeft blocksLeft
  by_cases hlast : s / 4096 = len / 4096 + 1 ∧ 4096 ≤ s - len
  · left
    rw [if_pos hlast]
    omega
  · right
    have hnot : ¬ (len % 4096 = 0 ∨ s / 4096 = len / 4096 + 1 ∧ 4096 ≤ s - len) :=
      not_or.mpr ⟨hwhere.2, hlast⟩
    rw [if_neg hwhere.1, if_neg hnot]
    exact ⟨rfl, by omega⟩

/-- INTERNAL: **the blocks from the new end on** are those that hold nothing of the rest and are
not kept for it. -/
theorem cutAt_iff_beyond (h : Core v) (hn : v.live n) (hstate : (v.inode n).state = 1)
    (hexact : NoSurplus (v.inode n))
    (hlt : len < (v.inode n).fileSize)
    (hleft : c = len / 4096 + 1 ∨ (len = 0 ∧ (v.inode n).fileSize / 4096 = 0 ∧ c = 0)) {r : Ref}
    (hr : v.held n r) : Ref.CutAt c (v.inode n).blocks r ↔
      Beyond len r ∧ ¬ (NeededFor (len / 4096) r ∧ (cut v n c len).held n r) := by
  have hptr : (v.inode n).ptr 0 ≠ 0 := h.ptr_ne_zero hn hstate (by omega)
  have hblocks := blocks_file hstate hptr
  rcases hleft with rfl | ⟨rfl, hsmall, rfl⟩
  · obtain ⟨hlive, -, hptr', -, hblocks'⟩ :=
      cut_below (S := len) h hn hstate hptr (Nat.succ_pos (len / 4096))
    cases r with
    | ptr i =>
      have hi := hexact.le hr.2
      have hkept : 1024 * i ≤ len / 4096 → (cut v n (len / 4096 + 1) len).held n (.ptr i) := by
        intro hle
        refine ⟨hlive, ?_⟩
        rw [Inode.refers, hptr' i (by omega)]
        exact hr.2
      simp only [Ref.CutAt, Beyond, NeededFor]
      constructor
      · rintro ⟨hge, -⟩
        exact ⟨by omega, fun hk => by omega⟩
      · rintro ⟨hbeyond, hnot⟩
        refine ⟨?_, by omega⟩
        by_contra hle
        exact hnot ⟨by omega, hkept (by omega)⟩
    | data k =>
      have hkept : (cut v n (len / 4096 + 1) len).held n (.data (len / 4096)) := by
        refine ⟨hlive, ?_⟩
        rw [Inode.refers, hblocks']
        exact Nat.lt_succ_self _
      simp only [Ref.CutAt, Beyond, NeededFor]
      constructor
      · intro hge
        exact ⟨by omega, fun hk => by omega⟩
      · rintro ⟨hbeyond, hnot⟩
        by_contra hle
        obtain rfl : k = len / 4096 := by omega
        exact hnot ⟨rfl, hkept⟩
  · -- the only block goes, and its pointer block
    have hnone : ((cut v n 0 0).inode n).ptr 0 = 0 := by
      rw [cut_inode]
      exact if_pos ⟨le_rfl, by omega⟩
    have hempty : ((cut v n 0 0).inode n).blocks = 0 := by
      have hstate' : ((cut v n 0 0).inode n).state = 1 := by
        rw [cut_inode]
        exact hstate
      rw [Inode.blocks, if_pos hstate', if_pos hnone]
    cases r with
    | ptr i =>
      have hi := hexact.le hr.2
      obtain rfl : i = 0 := by omega
      refine ⟨fun _ => ⟨Nat.zero_le _, fun hk => hk.2.2 hnone⟩, fun _ => ⟨le_rfl, by omega⟩⟩
    | data k =>
      refine ⟨fun _ => ⟨Nat.zero_le _, fun hk => ?_⟩, fun _ => Nat.zero_le k⟩
      have := hk.2.2
      rw [Inode.refers, hempty] at this
      omega

end Shorter

section Shrinking

variable {s : SacState} {path : CString} {n len : ℕ}

/-- INTERNAL: the path of a file is one of the kernel's. -/
theorem exists_target_of_found (hpath : isValidPath path.val = true ∧ path.val ≠ [slash])
    (hfound : leadsTo s (stringSplit path.val) = some n) :
    ∃ d, Target (viewOf s) path d ((stringSplit path.val).getLastD []) ∧
      (viewOf s).tree.lookup d ((stringSplit path.val).getLastD []) = some n := by
  have hne : stringSplit path.val ≠ [] := by
    obtain ⟨front, name, heq, hslash, hname⟩ := exists_last_piece hpath.1 hpath.2
    rw [heq, stringSplit_append front hslash hname]
    simp
  obtain ⟨d, hwalk, hstate⟩ := walk_dropLast hne hfound
  have ht := exists_target hpath.1 hpath.2 hwalk hstate
  exact ⟨d, ht, by rw [← ht.walk]; exact hfound⟩

/-- INTERNAL: what `sac_truncate` does to a longer file. -/
theorem exists_truncate (len : ℕ) (h : Inv (viewOf s) none)
    (hpath : isValidPath path.val = true ∧ path.val ≠ [slash])
    (hfound : leadsTo s (stringSplit path.val) = some n)
    (hstate : ((viewOf s).inode n).state = 1) (hlt : len ≤ ((viewOf s).inode n).fileSize) :
    (viewOf s).live n ∧ ∃ s', sacTruncate .ilp32 path (len : ℤ) s = .ok 0 s' ∧
      Shrunk n (viewOf s) (viewOf s') ∧ viewOf s' = shortened (viewOf s) n len := by
  obtain ⟨d, ht, hlookup⟩ := exists_target_of_found hpath hfound
  have hn := (parentBlock_of_lookup h (ht.live h) hlookup).1
  have hsmall := fileSize_lt h.toCore hn hstate
  have hthis : ∀ m, (viewOf s).tree.lookup d ((stringSplit path.val).getLastD []) = some m →
      m = n := by
    intro m hm
    rw [hlookup] at hm
    exact (Option.some.inj hm).symm
  have hwp : vwp (sacTruncate .ilp32 path (len : ℤ))
      (fun r w => r = 0 ∧ Shrunk n (viewOf s) w ∧ w = shortened (viewOf s) n len)
      (fun _ _ => False) (viewOf s) := by
    apply vwp_sacTruncate h ht (by omega) (fun hno => absurd hstate (hno n hlookup))
    · intro m hm _ hgrow
      rw [hthis m hm] at hgrow
      omega
    · intro m w count hm _ hcount hpos _
      rw [hthis m hm] at hcount
      omega
    · intro m w hm _ _ hs hw
      rw [hthis m hm] at hs hw
      exact ⟨rfl, hs, hw⟩
    · intro m e w hm hgrow _
      rw [hthis m hm] at hgrow
      omega
  obtain ⟨r, s', hok, rfl, hs, hw⟩ := exists_ok_of_wp (hwp s rfl) fun _ _ hf => hf
  exact ⟨hn, s', hok, hs, hw⟩

/-- INTERNAL: the rest of the file as `sac_read` shows it, and the bits that were cleared, when
the cut is where it should be. -/
theorem shrunkTo_of_exact {s' : SacState} (h : Core (viewOf s)) (hn : (viewOf s).live n)
    (hstate : ((viewOf s).inode n).state = 1)
    (hexact : NoSurplus ((viewOf s).inode n))
    (hlt : len < ((viewOf s).inode n).fileSize)
    (hwhere : len / 4096 = ((viewOf s).inode n).fileSize / 4096 ∨ len % 4096 = 0)
    (hs : Shrunk n (viewOf s) (viewOf s'))
    (hcut : viewOf s' = shortened (viewOf s) n len) : ShrunkTo s s' n len := by
  obtain ⟨hsizeLeft, hleft⟩ := blocksLeft_exact hlt hwhere
  rw [shortened, if_pos hlt, hsizeLeft] at hcut
  have hsize : ((viewOf s').inode n).fileSize = len := by rw [hcut, cut_inode]
  refine ⟨hsize, ?_, fun b => ?_⟩
  · apply readsAs_of_content hs.core ((hs.live n).mpr hn) (hs.state.trans hstate)
    rw [hs.content hn hstate, hsize]
  · change (viewOf s).used b = true ∧ (viewOf s').used b = false ↔ _
    rw [hcut, cut_cleared h]
    constructor
    · rintro ⟨r, hr, hat, he⟩
      obtain ⟨hbeyond, hnot⟩ := (cutAt_iff_beyond h hn hstate hexact hlt hleft hr).mp hat
      exact ⟨r, hr, he, hbeyond, hnot⟩
    · rintro ⟨r, hr, he, hbeyond, hnot⟩
      exact ⟨r, hr, (cutAt_iff_beyond h hn hstate hexact hlt hleft hr).mpr ⟨hbeyond, hnot⟩, he⟩

/-- **Shrinking a file is exact if and only if** the new end is in the same block as the old one,
or at the beginning of a block. SRCLINE: sacio.c:536-552, node.c:189-206 -/
theorem shrinks_exactly_iff (h : Inv (viewOf s) none)
    (hpath : isValidPath path.val = true ∧ path.val ≠ [slash])
    (hfound : leadsTo s (stringSplit path.val) = some n)
    (hstate : ((viewOf s).inode n).state = 1)
    (hexact : NoSurplus ((viewOf s).inode n))
    (hlt : len < ((viewOf s).inode n).fileSize) :
    (∃ s', sacTruncate .ilp32 path (len : ℤ) s = .ok 0 s' ∧ ShrunkTo s s' n len) ↔
      len / 4096 = ((viewOf s).inode n).fileSize / 4096 ∨ len % 4096 = 0 := by
  obtain ⟨hn, s₁, hok, hs, hcut⟩ := exists_truncate len h hpath hfound hstate hlt.le
  constructor
  · rintro ⟨s', hok', hto⟩
    rw [hok] at hok'
    obtain rfl : s₁ = s' := (EStateM.Result.ok.inj hok').2
    rw [shortened, if_pos hlt] at hcut
    by_contra hwhere
    rcases blocksLeft_not_exact hlt hwhere with hsize | ⟨hleft, hlast⟩
    · have hto_size := hto.size
      rw [hcut, cut_inode] at hto_size
      exact hsize hto_size
    · -- the block behind the new last one is not needed, and still there
      have hptr : ((viewOf s).inode n).ptr 0 ≠ 0 := h.ptr_ne_zero hn hstate (by omega)
      have hheld : (viewOf s).held n (.data (len / 4096 + 1)) := by
        refine ⟨hn, ?_⟩
        rw [Inode.refers, blocks_file hstate hptr]
        omega
      have hbeyond : Beyond len (.data (len / 4096 + 1)) := by
        simp only [Beyond]
        omega
      have hcleared := (hto.cleared _).mpr ⟨_, hheld, rfl, hbeyond, fun hk => by
        have := hk.1
        simp only [NeededFor] at this
        omega⟩
      change (viewOf s).used _ = true ∧ (viewOf s₁).used _ = false at hcleared
      rw [hcut, cut_cleared h.toCore] at hcleared
      obtain ⟨r, hr, hat, he⟩ := hcleared
      obtain rfl := (h.own.inj n _ n _ hr hheld he).2
      simp only [Ref.CutAt, hleft] at hat
      omega
  · intro hwhere
    exact ⟨s₁, hok, shrunkTo_of_exact h.toCore hn hstate hexact hlt hwhere hs hcut⟩

/-- INTERNAL: the surplus of a small file. -/
theorem OneFile.noSurplus {t : SacState} {size : ℕ} (ht : OneFile t n size)
    (hsize : size / 4096 + 1 < 1024) : NoSurplus ((viewOf t).inode n) := by
  intro i hi
  apply ht.noStray
  rw [ht.size_eq] at hi ⊢
  omega

/-- The statement for a file of one byte that loses it. -/
theorem shrinks_exactly_to_nothing : ∃ (t : SacState) (n : ℕ), OneFile t n 1 ∧
    (∃ s', sacTruncate .ilp32 aPath 0 t = .ok 0 s' ∧ ShrunkTo t s' n 0) := by
  obtain ⟨n, -, t, -, -, ht, -⟩ := exists_oneFile [1] Nat.one_pos (by decide)
  refine ⟨t, n, ht, ?_⟩
  have hlt : 0 < ((viewOf t).inode n).fileSize := by
    rw [ht.size_eq]
    exact Nat.one_pos
  exact (@shrinks_exactly_iff _ aPath n 0 ht.toInv (by decide) ht.found ht.state
    (ht.noSurplus (by decide)) hlt).mpr (Or.inr rfl)

/-- **A file of 4097 bytes, cut to one byte, has none.** SRCLINE: sacio.c:538-541 -/
theorem truncate_loses_byte : ∃ (t : SacState) (n : ℕ) (s' : SacState), OneFile t n 4097 ∧
    NoSurplus ((viewOf t).inode n) ∧ sacTruncate .ilp32 aPath 1 t = .ok 0 s' ∧
    ((viewOf s').inode n).fileSize = 0 ∧ ¬ ShrunkTo t s' n 1 := by
  have hlen : (List.replicate 4097 (0 : UInt8)).length = 4097 := List.length_replicate
  obtain ⟨n, -, t, -, -, ht, -⟩ :=
    exists_oneFile (List.replicate 4097 0) (by omega) (by omega)
  rw [hlen] at ht
  have hlt : 1 < ((viewOf t).inode n).fileSize := by
    rw [ht.size_eq]
    decide
  obtain ⟨-, s', hok, -, hcut⟩ :=
    exists_truncate 1 ht.toInv (by decide) ht.found ht.state hlt.le
  have hsize : ((viewOf s').inode n).fileSize = 0 := by
    rw [hcut, shortened, if_pos hlt, cut_inode, ht.size_eq]
    exact show sizeLeft 1 4097 = 0 by decide
  refine ⟨t, n, s', ht, ht.noSurplus (by decide), hok, hsize, fun hto => ?_⟩
  have := hto.size
  omega

end Shrinking

end LinuseFs.Analysis
