import LinuseFs.Analysis.FileRead
import LinuseFs.Analysis.Operations

/-!
# Files as byte arrays

A run of `sac_open` and `sac_write` refines a map from the files to lists of bytes, in which
each write is a `pwrite` of its buffer to one file (`fileAfter`): `sac_read` returns pieces of
these lists.
-/

set_option autoImplicit false

namespace LinuseFs.Analysis

open LinuseFs.Computation LinuseFs.Model LinuseFs.Interface

/-- The bytes of the file `n` after an operation, when the file is a list of bytes. -/
def fileStep (n : ℕ) (c : List UInt8) : Operation → List UInt8
  | .write fd buffer offset => if fd = n then pwrite c offset buffer else c
  | _ => c

/-- The bytes of the file `n` after its writes among `ops`, in order. -/
def fileAfter (ops : List Operation) (n : ℕ) : List UInt8 := ops.foldl (fileStep n) []

/-- The operation creates a file or writes to one. -/
def Operation.OpensOrWrites : Operation → Prop
  | .open _ => True
  | .write _ _ _ => True
  | _ => False

/-- The disk holds the bytes that the writes have left. -/
structure Holds (ops : List Operation) (v : View) : Prop extends Inv v none where
  noStrays : NoStrays v
  file : ∀ n, v.live n → (v.inode n).state = 1 → content v n = fileAfter ops n
  other : ∀ n, ¬ (v.live n ∧ (v.inode n).state = 1) → fileAfter ops n = []

section Holds

variable {v w : View} {d n : ℕ} {name : List UInt8} {state : UInt8} {date : ℕ}
  {ops : List Operation} {op : Operation}

theorem fileAfter_append : fileAfter (ops ++ [op]) n = fileStep n (fileAfter ops n) op := by
  simp [fileAfter]

/-- INTERNAL: a creation leaves the bytes of the files. -/
theorem Created.content {m : ℕ} {nd : Inode} (hc : Created v w d name n nd) (h : Core v)
    (hm : v.live m) (hstate : (v.inode m).state = 1) (hmd : m ≠ d) :
    content w m = content v m := by
  have hmn : m ≠ n := by
    rintro rfl
    exact hc.dead hm
  exact content_of_held h hm hstate (by rw [hc.inode m hmn hmd]) fun r hr => (hc.held m r hmd hr).2

/-- INTERNAL: **a new file is an empty list.** -/
theorem Created.holds (hc : Created v w d name n (newInode 1 name d date)) (h : Holds ops v)
    (hd : (v.inode d).state = 2) : Holds ops w := by
  obtain ⟨t, hborn, hlinked⟩ := hc.tree
  have hlive : ∀ m, w.live m ↔ v.live m ∨ m = n :=
    fun m => (hlinked.live m).trans (hborn.live m)
  refine ⟨hc.inv, hc.noStrays h.noStrays, fun m hm hstate => ?_, fun m hm => ?_⟩
  · by_cases hmn : m = n
    · rw [hmn, h.other n fun hfile => hc.dead hfile.1]
      simp [Analysis.content, hc.node, newInode]
    · have hmd : m ≠ d := by
        rintro rfl
        rw [hc.dir] at hstate
        exact absurd hstate (by decide)
      have hmv := ((hlive m).mp hm).resolve_right hmn
      rw [hc.inode m hmn hmd] at hstate
      rw [hc.content h.toCore hmv hstate hmd]
      exact h.file m hmv hstate
  · refine h.other m fun hfile => hm ⟨(hlive m).mpr (Or.inl hfile.1), ?_⟩
    obtain ⟨hmv, hstate⟩ := hfile
    have hmn : m ≠ n := by
      rintro rfl
      exact hc.dead hmv
    have hmd : m ≠ d := by
      rintro rfl
      rw [hd] at hstate
      exact absurd hstate (by decide)
    rw [hc.inode m hmn hmd]
    exact hstate

/-- INTERNAL: **a write is a `pwrite`** to its file. -/
theorem Written.holds {buffer : List UInt8} {offset : ℕ} (h : Holds ops v) (hn : v.live n)
    (hstate : (v.inode n).state = 1) (hoffset : offset ≤ (v.inode n).fileSize)
    (hw : Written v w n (min offset (v.inode n).fileSize) (offset + buffer.length)
      (writtenByte buffer offset)) : Holds (ops ++ [.write n buffer offset]) w := by
  rw [min_eq_left hoffset] at hw
  have hstates : ∀ m, (w.inode m).state = (v.inode m).state := by
    intro m
    by_cases hmn : m = n
    · subst hmn
      exact hw.grown.state
    · rw [hw.grown.inode m hmn]
  refine ⟨hw.grown.inv h.toInv (by rw [hstate]; decide), hw.noStrays h.noStrays,
    fun m hm hmstate => ?_, fun m hm => ?_⟩
  · have hmv := (hw.grown.live m).mp hm
    rw [hstates m] at hmstate
    rw [fileAfter_append, fileStep]
    by_cases hmn : m = n
    · subst hmn
      rw [if_pos rfl, ← h.file m hmv hmstate]
      apply hw.content hoffset
      intro i hi
      rw [writtenByte, if_neg (by omega), sourceByte, Nat.add_sub_cancel_left,
        List.getD_eq_getElem _ _ hi]
    · rw [if_neg (Ne.symm hmn), Others.content (hw.grown.others h.toCore) h.toCore hmn hmv hmstate]
      exact h.file m hmv hmstate
  · rw [fileAfter_append, fileStep]
    have hmn : n ≠ m := by
      rintro rfl
      exact hm ⟨(hw.grown.live n).mpr hn, by rw [hstates n, hstate]⟩
    rw [if_neg hmn]
    refine h.other m fun hmv => hm ⟨(hw.grown.live m).mpr hmv.1, ?_⟩
    rw [hstates m]
    exact hmv.2

/-- INTERNAL: **runs keep the bytes of all files**, by induction on the run. -/
theorem holds_of_run {s t : SacState} (hs : Formatted s)
    (hrun : Run (Step fun v op => Promised v op ∧ op.OpensOrWrites) s ops t) :
    Holds ops (viewOf t) := by
  have hfresh := fresh_of_formatted hs
  apply hrun.induct (I := fun ops s => Holds ops (viewOf s))
  · refine ⟨hfresh.inv.1, hfresh.noStrays, fun n hn hstate => ?_, fun _ _ => rfl⟩
    obtain rfl := hfresh.live.mp hn
    rw [hfresh.inv.1.root] at hstate
    exact absurd hstate (by decide)
  · rintro ops s op s' h ⟨⟨hp, hkind⟩, r, hok⟩
    cases op with
    | «open» path =>
      obtain ⟨d, ht, -⟩ := Addressed.target hp
      have hkept : Holds (ops ++ [.open path]) (viewOf s) :=
        ⟨h.toInv, h.noStrays, fun n hn hstate => by rw [fileAfter_append]; exact h.file n hn hstate,
          fun n hn => by rw [fileAfter_append]; exact h.other n hn⟩
      have hwp : vwp (Operation.open path).perform (fun _ w => Holds (ops ++ [.open path]) w)
          (fun _ _ => True) (viewOf s) :=
        vwp_sacOpen h.toInv ht (fun _ => hp.length_last) (fun _ _ _ => hkept)
          (fun _ w n date hc => hc.holds hkept ht.state) fun _ _ _ _ => trivial
      exact wp_of_ok (Q := fun _ s' => Holds _ (viewOf s')) (hwp s rfl) hok
    | write fd buffer offset =>
      obtain ⟨hn, hstate, hoffset⟩ := hp
      have hwp : vwp (Operation.write fd buffer offset).perform
          (fun _ w => Holds (ops ++ [.write fd buffer offset]) w) (fun _ _ => True) (viewOf s) :=
        vwp_bind (vwp_sacWrite_noStray h.toInv hn hstate (Or.inl hoffset)
          (Or.inl (h.noStrays fd hn hstate))
          (fun w hw => vwp_pure (hw.holds h hn hstate hoffset)) fun _ _ _ _ => trivial)
      exact wp_of_ok (Q := fun _ s' => Holds _ (viewOf s')) (hwp s rfl) hok
    | mkdir _ => exact hkind.elim
    | rmdir _ => exact hkind.elim
    | remove _ => exact hkind.elim
    | rename _ _ => exact hkind.elim
    | truncate _ _ => exact hkind.elim

/-- **Files behave as byte arrays** under writes in any order: the size of a file is the length
of its list, and `sac_read` returns the piece that is asked for. SRCLINE: sacio.c:152-313 -/
theorem files_are_byte_arrays {s t : SacState} (hs : Formatted s)
    (hrun : Run (Step fun v op => Promised v op ∧ op.OpensOrWrites) s ops t)
    (hn : (viewOf t).live n) (hstate : ((viewOf t).inode n).state = 1) :
    ((viewOf t).inode n).fileSize = (fileAfter ops n).length ∧
    (0 < ((viewOf t).inode n).fileSize → ∀ count offset, offset + count < 2 ^ 31 →
      ∃ l s', l = ((fileAfter ops n).drop offset).take count ∧
        sacRead .ilp32 n count (offset : ℤ) t = .ok (l.length, l) s') := by
  have h := holds_of_run hs hrun
  have hfile := h.file n hn hstate
  refine ⟨by rw [← hfile, length_content], fun hsize count offset hend => ?_⟩
  have hptr : ((viewOf t).inode n).ptr 0 ≠ 0 := h.ptr_ne_zero hn hstate hsize.ne'
  have hread : vwp (sacRead .ilp32 n count (offset : ℤ))
      (fun r _ => r = ((((fileAfter ops n).drop offset).take count).length,
        ((fileAfter ops n).drop offset).take count)) (fun _ _ => False) (viewOf t) :=
    vwp_sacRead h.toCore hn hstate hptr (by omega) (by omega) (fun _ => Or.inl ⟨rfl, by omega⟩)
      fun l hl => by rw [hl, hfile]
  obtain ⟨r, s', hok, rfl⟩ := exists_ok_of_wp (hread t rfl) fun _ _ hf => hf
  exact ⟨_, s', rfl, hok⟩

/-- The statement for one byte in a new file. -/
theorem files_are_byte_arrays_one_byte : ∃ (n : ℕ) (t : SacState),
    Run (Step fun v op => Promised v op ∧ op.OpensOrWrites) newDisk
      [.open aPath, .write n [1] 0] t ∧
    ((viewOf t).inode n).fileSize = (fileAfter [.open aPath, .write n [1] 0] n).length ∧
    (0 < ((viewOf t).inode n).fileSize → ∀ count offset, offset + count < 2 ^ 31 →
      ∃ l s', l = ((fileAfter [.open aPath, .write n [1] 0] n).drop offset).take count ∧
        sacRead .ilp32 n count (offset : ℤ) t = .ok (l.length, l) s') := by
  have hfresh := fresh_of_formatted formatted_newDisk
  have hinv := hfresh.inv.1
  obtain ⟨n, s, date, hopen, hc⟩ := exists_open hinv (aPath_target hinv.toCore)
    (by decide) (hfresh.lookup_eq_none 0 _) (by decide) hfresh.spare
  obtain ⟨tree, hborn, hlinked⟩ := hc.tree
  have hn : (viewOf s).live n := (hlinked.live n).mpr ((hborn.live n).mpr (Or.inr rfl))
  have hstate : ((viewOf s).inode n).state = 1 := by rw [hc.node]; rfl
  have hstray := hc.noStrays hfresh.noStrays n hn hstate
  have hspare : Spare (viewOf s) 28 := hc.spare hfresh.spare
  obtain ⟨t, hwrite, hw⟩ :=
    exists_write [1] hc.inv hn hstate (Nat.zero_le _) hstray
      (show 2 * ((0 % 4096 + [(1 : UInt8)].length) / 4096 + 1) ≤ 28 by decide) hspare
  have hrun : Run (Step fun v op => Promised v op ∧ op.OpensOrWrites) newDisk
      ([.open aPath] ++ [.write n [1] 0]) t :=
    (Run.single ⟨⟨aPath_addressed hinv.toCore, trivial⟩, n, hopen⟩).snoc
      ⟨⟨⟨hn, hstate, Nat.zero_le _⟩, trivial⟩, _, hwrite⟩
  exact ⟨n, t, hrun, files_are_byte_arrays formatted_newDisk hrun ((hw.grown.live n).mpr hn)
    (hw.grown.state.trans hstate)⟩

end Holds

end LinuseFs.Analysis
