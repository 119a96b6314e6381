import LinuseFs.Computation.Run
import LinuseFs.Analysis.FileTruncate
import LinuseFs.Analysis.FormattedDisk
import LinuseFs.Analysis.Renaming

/-!
# Runs of the file system

The operations that change the disk, what the kernel promises of the ones it sends
(`Promised`), and runs of them.  `vwp_perform` is the step lemma: an operation whose promise is
kept leaves a well-formed file system, and does not stop but for lack of blocks; the run lemmas
follow from it by `Run.invariant`.  Pointers are of four bytes.
-/

set_option autoImplicit false

namespace LinuseFs.Analysis

open LinuseFs.Computation LinuseFs.Model LinuseFs.Interface

/-- A call of an operation that changes the disk. -/
inductive Operation
  | mkdir (path : CString)
  | open (path : CString)
  | rmdir (path : CString)
  | remove (path : CString)
  | rename (oldPath newPath : CString)
  | write (fd : ℕ) (buffer : List UInt8) (offset : ℕ)
  | truncate (path : CString) (lenght : ℕ)

/-- What the server runs for it. -/
def Operation.perform : Operation → Sac ℤ
  | .mkdir path => sacMkdir path
  | .open path => sacOpen path
  | .rmdir path => sacRmdir path
  | .remove path => sacRemove path
  | .rename oldPath newPath => sacRename oldPath newPath
  | .write fd buffer offset => do
    let count ← sacWrite .ilp32 fd buffer offset
    return count
  | .truncate path lenght => sacTruncate .ilp32 path lenght

/-- A path as the kernel sends it: valid, not that of the root, with names that fit a node. -/
structure Sent (path : CString) : Prop where
  valid : isValidPath path.val = true
  ne_root : path.val ≠ [slash]
  length : ∀ p ∈ stringSplit path.val, p.length ≤ 70

/-- The directory that holds the last piece of the path is there. -/
structure Addressed (v : View) (path : CString) : Prop extends Sent path where
  parent : ∃ d, v.tree.walk 0 (stringSplit path.val).dropLast = some d ∧ (v.inode d).state = 2

/-- What the kernel promises of an operation: the directories on its paths are there, a file
that is renamed or shortened as well, and a write starts in the file. -/
def Promised (v : View) : Operation → Prop
  | .mkdir path => Addressed v path
  | .open path => Addressed v path
  | .rmdir path => Addressed v path
  | .remove path => Addressed v path
  | .rename oldPath newPath =>
    Addressed v oldPath ∧ Addressed v newPath ∧
      (v.tree.walk 0 (stringSplit oldPath.val)).isSome = true
  | .write fd _ offset => v.live fd ∧ (v.inode fd).state = 1 ∧ offset ≤ (v.inode fd).fileSize
  | .truncate path lenght =>
    Addressed v path ∧ ∃ n, v.tree.walk 0 (stringSplit path.val) = some n ∧
      (v.inode n).state = 1 ∧ lenght ≤ (v.inode n).fileSize

/-- A write that fills a block goes to a file without stray pointers. -/
def FitsOrNoStray (v : View) : Operation → Prop
  | .write fd buffer offset => NoStray (v.inode fd) ∨ offset % 4096 + buffer.length < 4096
  | _ => True

/-- The operation is not a `sac_truncate`. -/
def Operation.KeepsPointers : Operation → Prop
  | .truncate _ _ => False
  | _ => True

/-- No file has stray pointers. -/
def NoStrays (v : View) : Prop := ∀ n, v.live n → (v.inode n).state = 1 → NoStray (v.inode n)

/-- One operation, from a state in which it is allowed, returns. -/
def Step (allowed : View → Operation → Prop) (s : SacState) (op : Operation) (s' : SacState) :
    Prop :=
  allowed (viewOf s) op ∧ ∃ r, op.perform s = .ok r s'

/-! ## One operation -/

section Operation

variable {v w : View} {d d' n : ℕ} {name name' : List UInt8} {path : CString} {state : UInt8}
  {date : ℕ} {F : Set ℕ}

theorem Addressed.target (h : Addressed v path) :
    ∃ d, Target v path d ((stringSplit path.val).getLastD []) ∧
      v.tree.walk 0 (stringSplit path.val) =
        v.tree.lookup d ((stringSplit path.val).getLastD []) := by
  obtain ⟨d, hwalk, hstate⟩ := h.parent
  have ht := exists_target h.valid h.ne_root hwalk hstate
  exact ⟨d, ht, ht.walk⟩

theorem Sent.length_last (h : Sent path) : ((stringSplit path.val).getLastD []).length ≤ 70 := by
  obtain ⟨front, name, hpath, hslash, hname⟩ := exists_last_piece h.valid h.ne_root
  have hsplit := stringSplit_append front hslash hname
  rw [← hpath] at hsplit
  rw [hsplit, List.getLastD_concat]
  exact h.length name (by rw [hsplit]; exact List.mem_append_right _ List.mem_cons_self)

/-- INTERNAL: a new node has no pointers at all. -/
theorem Created.noStrays (hc : Created v w d name n (newInode state name d date))
    (h : NoStrays v) : NoStrays w := by
  intro m hm hstate
  obtain ⟨t, hborn, hlinked⟩ := hc.tree
  have hmd : m ≠ d := by
    rintro rfl
    rw [hc.dir] at hstate
    exact absurd hstate (by decide)
  rcases (hborn.live m).mp ((hlinked.live m).mp hm) with hm | rfl
  · have hmn : m ≠ n := by
      rintro rfl
      exact hc.dead hm
    rw [hc.inode m hmn hmd] at hstate ⊢
    exact h m hm hstate
  · rw [hc.node]
    exact fun _ _ => rfl

theorem Deleted.noStrays (hk : Deleted v w d n F) (h : NoStrays v) : NoStrays w := by
  intro m hm hstate
  obtain ⟨t, hunlinked, hdead⟩ := hk.tree
  obtain ⟨hm, hmn⟩ := (hdead.live m).mp hm
  have hmd : m ≠ d := by
    rintro rfl
    rw [hk.dir] at hstate
    exact absurd hstate (by decide)
  rw [hk.inode m hmn hmd] at hstate ⊢
  exact h m ((hunlinked.live m).mp hm) hstate

theorem Renamed.noStrays (hr : Renamed v w d d' name' n) (hd : (v.inode d).state = 2)
    (hd' : (v.inode d').state = 2) (h : NoStrays v) : NoStrays w := by
  intro m hm hstate
  obtain ⟨t, hunlinked, hlinked⟩ := hr.tree
  have hmv := (hunlinked.live m).mp ((hlinked.live m).mp hm)
  rw [hr.state m] at hstate
  have hne : ∀ c, (v.inode c).state = 2 → m ≠ c := by
    rintro c hc rfl
    rw [hc] at hstate
    exact absurd hstate (by decide)
  have hsame : (w.inode m).ptr = (v.inode m).ptr ∧ (w.inode m).fileSize = (v.inode m).fileSize := by
    by_cases hmn : m = n
    · subst hmn
      exact hr.file (hne d hd) (hne d' hd')
    · rw [hr.inode m hmn (hne d hd) (hne d' hd')]
      exact ⟨rfl, rfl⟩
  unfold NoStray
  rw [hsame.1, hsame.2]
  exact h m hmv hstate

theorem Written.noStrays {a b : ℕ} {src : ℕ → UInt8} (hw : Written v w n a b src)
    (h : NoStrays v) : NoStrays w := by
  intro m hm hstate
  have hmv := (hw.grown.live m).mp hm
  by_cases hmn : m = n
  · subst hmn
    rw [hw.grown.state] at hstate
    exact hw.noStray (h m hmv hstate)
  · rw [hw.grown.inode m hmn] at hstate ⊢
    exact h m hmv hstate

/-- INTERNAL: **the step lemma**.  A promised operation keeps the invariant, and does not stop
but for lack of blocks. -/
theorem vwp_perform (op : Operation) (h : Inv v none) (hp : Promised v op)
    (hf : FitsOrNoStray v op) :
    vwp op.perform (fun _ w => Inv w none ∧ (op.KeepsPointers → NoStrays v → NoStrays w))
      (fun e _ => e.IsAlloc) v := by
  cases op with
  | mkdir path =>
    obtain ⟨d, ht, -⟩ := Addressed.target hp
    exact vwp_sacMkdir h ht (fun _ => hp.length_last) (fun _ => ⟨h, fun _ hs => hs⟩)
      (fun _ w n date hc => ⟨hc.inv, fun _ hs => hc.noStrays hs⟩) fun _ e w he => he.1
  | «open» path =>
    obtain ⟨d, ht, -⟩ := Addressed.target hp
    exact vwp_sacOpen h ht (fun _ => hp.length_last) (fun _ _ _ => ⟨h, fun _ hs => hs⟩)
      (fun _ w n date hc => ⟨hc.inv, fun _ hs => hc.noStrays hs⟩) fun _ e w he => he.1
  | rmdir path =>
    obtain ⟨d, ht, -⟩ := Addressed.target hp
    exact vwp_sacRmdir h ht (fun _ => ⟨h, fun _ hs => hs⟩) (fun _ _ _ _ => ⟨h, fun _ hs => hs⟩)
      fun n w _ _ _ hk => ⟨hk.inv, fun _ hs => hk.noStrays hs⟩
  | remove path =>
    obtain ⟨d, ht, -⟩ := Addressed.target hp
    exact vwp_sacRemove h ht (fun _ => ⟨h, fun _ hs => hs⟩)
      fun n w _ _ hk => ⟨hk.inv, fun _ hs => hk.noStrays hs⟩
  | rename oldPath newPath =>
    obtain ⟨hold, hnew, hsome⟩ := hp
    obtain ⟨d, ht, hwalk⟩ := hold.target
    obtain ⟨d', ht', -⟩ := hnew.target
    rw [hwalk, Option.isSome_iff_exists] at hsome
    obtain ⟨n, hlookup⟩ := hsome
    exact vwp_sacRename h ht ht' hlookup hnew.length_last
      (fun w hr => ⟨hr.inv, fun _ hs => hr.noStrays ht.state ht'.state hs⟩)
      fun e w he _ _ => he
  | write fd buffer offset =>
    obtain ⟨hn, hstate, hoffset⟩ := hp
    have hdir : (v.inode fd).state ≠ 2 := by
      rw [hstate]
      decide
    exact vwp_bind (vwp_sacWrite_noStray h hn hstate (Or.inl hoffset) hf
      (fun w hw => vwp_pure ⟨hw.grown.inv h hdir, fun _ hs => hw.noStrays hs⟩)
      fun e w he _ => he)
  | truncate path lenght =>
    obtain ⟨hpath, n, hfound, hstate, hle⟩ := hp
    obtain ⟨d, ht, hwalk⟩ := hpath.target
    rw [hwalk] at hfound
    have hn := (parentBlock_of_lookup h (ht.live h) hfound).1
    have hsmall := fileSize_lt h.toCore hn hstate
    have hthis : ∀ m, v.tree.lookup d ((stringSplit path.val).getLastD []) = some m → m = n := by
      intro m hm
      rw [hfound] at hm
      exact (Option.some.inj hm).symm
    refine vwp_sacTruncate h ht (by omega) (fun _ => ⟨h, fun hf => hf.elim⟩) ?_ ?_ ?_
      fun _ _ _ _ _ he => he
    · intro m hm _ hlt
      rw [hthis m hm] at hlt
      omega
    · intro m w count hm _ hcount hpos _
      rw [hthis m hm] at hcount
      omega
    · intro m w hm hmstate _ hshrunk _
      exact ⟨hshrunk.inv h (by rw [hmstate]; decide), fun hf => hf.elim⟩

end Operation

/-! ## Runs -/

section Runs

variable {allowed : View → Operation → Prop} {s t : SacState} {ops : List Operation}

/-- INTERNAL: **runs keep the invariant.** -/
theorem inv_of_run
    (hallowed : ∀ v op, allowed v op → Promised v op ∧ FitsOrNoStray v op)
    (hs : Inv (viewOf s) none) (hrun : Run (Step allowed) s ops t) : Inv (viewOf t) none := by
  apply hrun.invariant (I := fun s => Inv (viewOf s) none) hs
  rintro s op s' hinv ⟨hstep, r, hok⟩
  obtain ⟨hp, hf⟩ := hallowed _ _ hstep
  exact (wp_of_ok (Q := fun _ s' => Inv (viewOf s') none ∧
    (op.KeepsPointers → NoStrays (viewOf s) → NoStrays (viewOf s')))
    (vwp_perform op hinv hp hf s rfl) hok).1

/-- INTERNAL: **without truncations there are no stray pointers**, so that every promised
operation fits. -/
theorem noStrays_of_run
    (hallowed : ∀ v op, allowed v op → Promised v op ∧ op.KeepsPointers)
    (hs : Inv (viewOf s) none ∧ NoStrays (viewOf s)) (hrun : Run (Step allowed) s ops t) :
    Inv (viewOf t) none ∧ NoStrays (viewOf t) := by
  apply hrun.invariant (I := fun s => Inv (viewOf s) none ∧ NoStrays (viewOf s)) hs
  rintro s op s' ⟨hinv, hnone⟩ ⟨hstep, r, hok⟩
  obtain ⟨hp, hkeeps⟩ := hallowed _ _ hstep
  have hf : FitsOrNoStray (viewOf s) op := by
    cases op with
    | write fd buffer offset => exact Or.inl (hnone fd hp.1 hp.2.1)
    | _ => trivial
  obtain ⟨hinv', hnone'⟩ := wp_of_ok (Q := fun _ s' => Inv (viewOf s') none ∧
    (op.KeepsPointers → NoStrays (viewOf s) → NoStrays (viewOf s')))
    (vwp_perform op hinv hp hf s rfl) hok
  exact ⟨hinv', hnone' hkeeps hnone⟩

/-- INTERNAL: on a new disk there is no file. -/
theorem Fresh.noStrays {v : View} (h : Fresh v) : NoStrays v := by
  intro n hn hstate
  obtain rfl := h.live.mp hn
  obtain ⟨date, -, hroot⟩ := h.root
  rw [hroot] at hstate
  exact absurd hstate (by simp [rootInode])

end Runs

/-! ## Operations that have room -/

section Room

variable {v w : View} {d n k : ℕ} {name : List UInt8} {nd : Inode} {path : CString} {s : SacState}

/-- At least `k` slots of the node table and `k` data blocks are free. -/
def Spare (v : View) (k : ℕ) : Prop := k ≤ freeCount v.used 2 34 ∧ k ≤ freeCount v.used 34 3000

theorem Spare.not_outOfBlocks (h : Spare v k) (hk : 2 ≤ k) (e : Fault) (w : View) :
    ¬ OutOfBlocks v d e w := by
  obtain ⟨hnodes, hdata⟩ := h
  intro hstop
  rcases hstop.full with hcount | hcount <;> omega

/-- INTERNAL: **a creation takes a slot and at most two data blocks.** -/
theorem Created.freeCount_le (hc : Created v w d name n nd) (lo hi : ℕ) :
    freeCount v.used lo hi ≤ freeCount w.used lo hi + 3 := by
  obtain ⟨x, y, htaken⟩ := hc.taken
  have h₁ := v.freeCount_setUsed (2 + n) lo hi
  have h₂ := (v.setUsed (2 + n) true).freeCount_setUsed x lo hi
  have h₃ : freeCount ((v.setUsed (2 + n) true).setUsed x true).used lo hi ≤
      freeCount w.used lo hi + 1 := by
    apply freeCount_le_succ (x := y)
    intro b hb hfree
    have hbx : b ≠ x := by
      rintro rfl
      rw [View.setUsed_same] at hfree
      cases hfree
    rw [View.setUsed_ne _ hbx] at hfree
    have hbn : b ≠ 2 + n := by
      rintro rfl
      rw [View.setUsed_same] at hfree
      cases hfree
    rw [View.setUsed_ne _ hbn] at hfree
    rw [htaken b hbn hbx hb]
    exact hfree
  omega

theorem Created.spare (hc : Created v w d name n nd) (h : Spare v (k + 3)) : Spare w k := by
  have hnodes := hc.freeCount_le 2 34
  have hdata := hc.freeCount_le 34 3000
  exact ⟨by have := h.1; omega, by have := h.2; omega⟩

/-- INTERNAL: on a new disk every block but the first three is free. -/
theorem Fresh.le_freeCount (h : Fresh v) (lo hi : ℕ) (hhi : hi ≤ 3000) :
    hi - max lo 3 ≤ freeCount v.used lo hi := by
  have hsub : Finset.Ico (max lo 3) hi ⊆ (Finset.Ico lo hi).filter fun b => v.used b = false := by
    intro b hb
    rw [Finset.mem_Ico] at hb
    rw [Finset.mem_filter, Finset.mem_Ico]
    refine ⟨by omega, ?_⟩
    rw [h.used b (by omega), decide_eq_false_iff_not]
    omega
  have := Finset.card_le_card hsub
  rwa [Nat.card_Ico] at this

theorem Fresh.spare (h : Fresh v) : Spare v 31 :=
  ⟨h.le_freeCount 2 34 (by omega), (h.le_freeCount 34 3000 le_rfl).trans' (by omega)⟩

/-- INTERNAL: a path with one piece leads into the root directory. -/
theorem root_target (h : Core v) (hpath : path.val = slash :: name) (hslash : slash ∉ name)
    (hname : name ≠ []) : Target v path 0 name := by
  refine ⟨?_, ⟨[], hpath, ?_⟩, hslash, hname, h.root⟩
  · obtain ⟨c, cs, rfl⟩ := List.exists_cons_of_ne_nil hname
    have hlast : (c :: cs).getLast? ≠ some slash := by
      intro e
      exact hslash (List.mem_of_getLast? e)
    rw [isValidPath, hpath]
    simpa [List.getLast?_cons_cons] using hlast
  · simp [stringSplit]

/-- INTERNAL: `sac_open` creates a file that is not there. -/
theorem exists_open (h : Inv (viewOf s) none) (ht : Target (viewOf s) path d name)
    (hlen : name.length ≤ 70) (hnone : (viewOf s).tree.lookup d name = none)
    (hk : 2 ≤ k) (hspare : Spare (viewOf s) k) :
    ∃ (n : ℕ) (s' : SacState) (date : ℕ), sacOpen path s = .ok (n : ℤ) s' ∧
      Created (viewOf s) (viewOf s') d name n (newInode 1 name d date) := by
  have hwp := vwp_sacOpen (Q := fun r w => ∃ (n date : ℕ), r = (n : ℤ) ∧
      Created (viewOf s) w d name n (newInode 1 name d date)) (E := fun _ _ => False) h ht
    (fun _ => hlen) (fun n _ hfound => by rw [hnone] at hfound; cases hfound)
    (fun _ w n date hc => ⟨n, date, rfl, hc⟩)
    (fun _ e w he => hspare.not_outOfBlocks hk e w he) s rfl
  obtain ⟨r, s', hok, n, date, rfl, hc⟩ := exists_ok_of_wp hwp fun _ _ hf => hf
  exact ⟨n, s', date, hok, hc⟩

/-- INTERNAL: `sac_mkdir` creates a directory that is not there. -/
theorem exists_mkdir (h : Inv (viewOf s) none) (ht : Target (viewOf s) path d name)
    (hlen : name.length ≤ 70) (hnone : (viewOf s).tree.lookup d name = none)
    (hk : 2 ≤ k) (hspare : Spare (viewOf s) k) :
    ∃ (n : ℕ) (s' : SacState) (date : ℕ), sacMkdir path s = .ok 0 s' ∧
      Created (viewOf s) (viewOf s') d name n (newInode 2 name d date) := by
  have hwp := vwp_sacMkdir (Q := fun r w => ∃ (n date : ℕ), r = 0 ∧
      Created (viewOf s) w d name n (newInode 2 name d date)) (E := fun _ _ => False) h ht
    (fun _ => hlen) (fun hsome => by rw [hnone] at hsome; cases hsome)
    (fun _ w n date hc => ⟨n, date, rfl, hc⟩)
    (fun _ e w he => hspare.not_outOfBlocks hk e w he) s rfl
  obtain ⟨r, s', hok, n, date, rfl, hc⟩ := exists_ok_of_wp hwp fun _ _ hf => hf
  exact ⟨n, s', date, hok, hc⟩

/-- INTERNAL: `sac_write` writes to a file without stray pointers that has the blocks for it. -/
theorem exists_write_of_room (buffer : List UInt8) {offset : ℕ} (h : Inv (viewOf s) none)
    (hn : (viewOf s).live n) (hstate : ((viewOf s).inode n).state = 1)
    (hoffset : offset ≤ ((viewOf s).inode n).fileSize) (hstray : NoStray ((viewOf s).inode n))
    (hroom : 2 * ((offset % 4096 + buffer.length) / 4096 + 1) ≤
      freeCount (viewOf s).used 34 3000) :
    ∃ s', (Operation.write n buffer offset).perform s = .ok (buffer.length : ℤ) s' ∧
      Written (viewOf s) (viewOf s') n offset (offset + buffer.length)
        (writtenByte buffer offset) := by
  have hwp : vwp (Operation.write n buffer offset).perform
      (fun r w => r = (buffer.length : ℤ) ∧ Written (viewOf s) w n offset
        (offset + buffer.length) (writtenByte buffer offset)) (fun _ _ => False) (viewOf s) := by
    refine vwp_bind (vwp_sacWrite_noStray h hn hstate (Or.inl hoffset) (Or.inl hstray)
      (fun w hw => ?_) fun e w _ hcount => ?_)
    · rw [min_eq_left hoffset] at hw
      exact vwp_pure ⟨rfl, hw⟩
    · omega
  obtain ⟨r, s', hok, rfl, hw⟩ := exists_ok_of_wp (hwp s rfl) fun _ _ hf => hf
  exact ⟨s', hok, hw⟩

/-- INTERNAL: `sac_write` writes to a file of one block, or to a larger one without stray
pointers. -/
theorem exists_write (buffer : List UInt8) {offset : ℕ} (h : Inv (viewOf s) none)
    (hn : (viewOf s).live n) (hstate : ((viewOf s).inode n).state = 1)
    (hoffset : offset ≤ ((viewOf s).inode n).fileSize) (hstray : NoStray ((viewOf s).inode n))
    (hk : 2 * ((offset % 4096 + buffer.length) / 4096 + 1) ≤ k) (hspare : Spare (viewOf s) k) :
    ∃ s', (Operation.write n buffer offset).perform s = .ok (buffer.length : ℤ) s' ∧
      Written (viewOf s) (viewOf s') n offset (offset + buffer.length)
        (writtenByte buffer offset) :=
  exists_write_of_room buffer h hn hstate hoffset hstray (hk.trans hspare.2)

/-- INTERNAL: on a new disk no name leads anywhere. -/
theorem Fresh.lookup_eq_none (h : Fresh v) (d : ℕ) (name : List UInt8) :
    v.tree.lookup d name = none := by
  rw [Namespace.lookup_eq_none_iff, h.entries d]
  simp

theorem Fresh.leadsTo_eq_none {ps : List (List UInt8)} (h : Fresh (viewOf s)) (hps : ps ≠ []) :
    leadsTo s ps = none := by
  obtain ⟨p, ps, rfl⟩ := List.exists_cons_of_ne_nil hps
  simp only [leadsTo, Namespace.walk, h.lookup_eq_none]

/-- The path `/a`. -/
def aPath : CString := ⟨[47, 97], by decide⟩

theorem aPath_target (h : Core v) : Target v aPath 0 [97] :=
  root_target h rfl (by decide) (by decide)

theorem aPath_addressed (h : Core v) : Addressed v aPath :=
  ⟨⟨by decide, by decide, by decide⟩, 0, rfl, h.root⟩

end Room

end LinuseFs.Analysis
