import LinuseFs.Analysis.NameRuns
import LinuseFs.Analysis.RemovalEffect

/-!
# When a directory leaks its blocks

A directory takes a pointer block and a data block with its first record.  With its last one only
the pointer is set to zero, and no bit of the bitmap is cleared.  As long as no operation takes the
last record out of a directory, the used bits of the data region are the blocks of the directories.
-/

set_option autoImplicit false

namespace LinuseFs.Analysis

open LinuseFs.Computation LinuseFs.Model LinuseFs.Interface

/-- The blocks of the data region that are marked used are the pointer blocks and data blocks that
the directories in use refer to. -/
def Accounted (v : View) : Prop :=
  ∀ c, 34 ≤ c → c < 3000 → (v.used c = true ↔
    ∃ d r, v.live d ∧ (v.inode d).state = 2 ∧ (v.inode d).refers r ∧ v.place d r = c)

/-- The five operations; a rename has a source and no target. -/
def DirectoryRequest (v : View) : Operation → Prop
  | .rename oldPath newPath => Addressed v oldPath ∧ Addressed v newPath ∧
      (v.tree.walk 0 (stringSplit oldPath.val)).isSome = true ∧
      v.tree.walk 0 (stringSplit newPath.val) = none
  | op => NameOperation v op

/-- The path leads to the node `n`, which is the only one in its directory. -/
def OnlyEntry (v : View) (path : CString) (n : ℕ) : Prop :=
  ∃ d name, v.tree.walk 0 (stringSplit path.val).dropLast = some d ∧
    v.tree.entries d = [(name, n)] ∧ v.tree.walk 0 (stringSplit path.val) = some n

/-- The operation takes the last record out of a directory. -/
def TakesLast (v : View) : Operation → Prop
  | .rmdir path => ∃ n, OnlyEntry v path n ∧ (v.inode n).state = 2 ∧ (v.inode n).fileSize = 0
  | .remove path => ∃ n, OnlyEntry v path n ∧ (v.inode n).state = 1
  | .rename oldPath _ => ∃ n, OnlyEntry v oldPath n
  | _ => False

/-! ## One operation -/

section Operation

variable {v w : View} {d d' n : ℕ} {name name' : List UInt8} {path : CString} {state : UInt8}
  {date : ℕ} {F : Set ℕ}

/-- What the runs keep. -/
structure Tidy (v : View) : Prop extends Inv v none where
  blockless : Blockless v
  accounted : Accounted v

/-- INTERNAL: a removal from a directory with another record keeps its blocks. -/
theorem size_ne_of_more (h : Inv v none) (ht : Target v path d name)
    (hwalk : v.tree.walk 0 (stringSplit path.val) = v.tree.lookup d name)
    (hlookup : v.tree.lookup d name = some n) (hmore : ¬ OnlyEntry v path n) :
    (v.inode d).fileSize ≠ 128 := by
  intro hsize
  have hmem := Namespace.lookup_eq_some hlookup
  have hlen : (v.tree.entries d).length = 1 := by
    rw [entries_dir (ht.live h) ht.state, length_records, hsize]
  obtain ⟨e, he⟩ := List.length_eq_one_iff.mp hlen
  rw [he, List.mem_singleton] at hmem
  exact hmore ⟨d, name, ht.split.1, by rw [he, hmem], hwalk.trans hlookup⟩

/-- INTERNAL: **the account is kept** when directories keep their blocks and new used bits are
those of blocks of directories. -/
theorem Accounted.step (h : Accounted v) (hw : Core w)
    (hkept : ∀ m r, v.held m r → (v.inode m).state = 2 → ∀ c, v.place m r = c → w.used c = true →
      w.held m r ∧ (w.inode m).state = 2 ∧ w.place m r = c)
    (hgained : ∀ c, 34 ≤ c → w.used c = true → v.used c = true ∨
      ∃ m r, w.held m r ∧ (w.inode m).state = 2 ∧ w.place m r = c) : Accounted w := by
  intro c hc hc'
  constructor
  · intro hused
    rcases hgained c hc hused with hold | ⟨m, r, ⟨hm, hr⟩, hstate, hplace⟩
    · obtain ⟨m, r, hm, hstate, hr, hplace⟩ := (h c hc hc').mp hold
      obtain ⟨⟨hm', hr'⟩, hstate', hplace'⟩ := hkept m r ⟨hm, hr⟩ hstate c hplace hused
      exact ⟨m, r, hm', hstate', hr', hplace'⟩
    · exact ⟨m, r, hm, hstate, hr, hplace⟩
  · rintro ⟨m, r, hm, -, hr, rfl⟩
    exact (hw.inData ⟨hm, hr⟩).2.2

theorem Created.tidy (hc : Created v w d name n (newInode state name d date)) (h : Tidy v) :
    Tidy w := by
  refine ⟨hc.inv, hc.blockless h.blockless, h.accounted.step hc.inv.toCore ?_ ?_⟩
  · rintro m r hr hstate c rfl -
    by_cases hmd : m = d
    · subst hmd
      obtain ⟨hr', hplace⟩ := hc.own r hr
      exact ⟨hr', hc.dir, hplace⟩
    · obtain ⟨hr', hplace, -⟩ := hc.held m r hmd hr
      have hmn : m ≠ n := by
        rintro rfl
        exact hc.dead hr.1
      exact ⟨hr', by rw [hc.inode m hmn hmd]; exact hstate, hplace⟩
  · intro c hc34 hused
    have hslot := hc.slot
    rcases hc.gained c hused with hold | rfl | ⟨r, hr, hplace⟩
    · exact Or.inl hold
    · omega
    · exact Or.inr ⟨d, r, hr, hc.dir, hplace⟩

/-- INTERNAL: a node is gone that was no directory with blocks. -/
theorem Deleted.tidy (hk : Deleted v w d n F) (h : Tidy v)
    (hmore : (v.inode d).fileSize ≠ 128)
    (hnode : (v.inode n).state = 2 → (v.inode n).fileSize = 0) : Tidy w := by
  refine ⟨hk.inv, hk.blockless h.blockless, h.accounted.step hk.inv.toCore ?_ ?_⟩
  · rintro m r hr hstate c rfl -
    by_cases hmn : m = n
    · -- an empty directory holds no block
      subst hmn
      exact absurd hr.2 (((h.node m hr.1).dir hstate).not_refers hstate (hnode hstate) r)
    · by_cases hmd : m = d
      · subst hmd
        obtain ⟨hr', hplace⟩ := hk.own hmore r hr
        exact ⟨hr', hk.dir, hplace⟩
      · obtain ⟨hr', hplace, -⟩ := hk.held m r hmn hmd hr
        exact ⟨hr', by rw [hk.inode m hmn hmd]; exact hstate, hplace⟩
  · exact fun c _ hused => Or.inl ((hk.used c).mp hused).1

theorem Renamed.blockless (hr : Renamed v w d d' name' n) (hd : (v.inode d).state = 2)
    (hd' : (v.inode d').state = 2) (h : Blockless v) : Blockless w := by
  intro m hm hstate
  obtain ⟨t, hunlinked, hlinked⟩ := hr.tree
  have hmv := (hunlinked.live m).mp ((hlinked.live m).mp hm)
  rw [hr.state m] at hstate
  have hne : ∀ c, (v.inode c).state = 2 → m ≠ c := by
    rintro c hc rfl
    rw [hc] at hstate
    exact absurd hstate (by decide)
  by_cases hmn : m = n
  · subst hmn
    rw [(hr.file (hne d hd) (hne d' hd')).1]
    exact h m hmv hstate
  · rw [hr.inode m hmn (hne d hd) (hne d' hd')]
    exact h m hmv hstate

theorem Renamed.tidy (hr : Renamed v w d d' name' n) (h : Tidy v) (hd : (v.inode d).state = 2)
    (hd' : (v.inode d').state = 2) (hmore : (v.inode d).fileSize ≠ 128) : Tidy w := by
  refine ⟨hr.inv, hr.blockless hd hd' h.blockless, h.accounted.step hr.inv.toCore ?_ ?_⟩
  · rintro m r hm hstate c rfl -
    obtain ⟨hm', hplace⟩ := hr.own hmore m r hm
    exact ⟨hm', by rw [hr.state m]; exact hstate, hplace⟩
  · intro c _ hused
    apply (hr.gained c hused).imp_right
    rintro ⟨r, hr', hplace⟩
    exact ⟨d', r, hr', by rw [hr.state d']; exact hd', hplace⟩

/-- INTERNAL: **the step lemma** for the five operations. -/
theorem vwp_perform_tidy {op : Operation} (h : Tidy v) (hop : DirectoryRequest v op)
    (hkeeps : ¬ TakesLast v op) :
    vwp op.perform (fun _ w => Tidy w) (fun e _ => e.IsAlloc) v := by
  have hpass := h.blockless.passable h.toInv h.toCore.live_root
  cases op with
  | mkdir path =>
    rcases Placed.cases hop with ⟨hnone, -⟩ | haddressed
    · exact vwp_sacMkdir_missing h.toInv hop.valid hop.ne_root (hpass _) hnone h
    · obtain ⟨d, ht, -⟩ := haddressed.target
      exact vwp_sacMkdir h.toInv ht (fun _ => hop.length_last) (fun _ => h)
        (fun _ w n date hc => hc.tidy h) fun _ e w he => he.1
  | «open» path =>
    rcases Placed.cases hop with ⟨hnone, -⟩ | haddressed
    · exact vwp_sacOpen_missing h.toInv hop.valid hop.ne_root (hpass _) hnone h
    · obtain ⟨d, ht, -⟩ := haddressed.target
      exact vwp_sacOpen h.toInv ht (fun _ => hop.length_last) (fun _ _ _ => h)
        (fun _ w n date hc => hc.tidy h) fun _ e w he => he.1
  | rmdir path =>
    rcases Placed.cases hop with ⟨-, hnone⟩ | haddressed
    · exact vwp_sacRmdir_missing h.toInv hop.valid hop.ne_root (hpass _) hnone h
    · obtain ⟨d, ht, hwalk⟩ := haddressed.target
      refine vwp_sacRmdir h.toInv ht (fun _ => h) (fun _ _ _ _ => h)
        fun n w hlookup hstate hsize hk => hk.tidy h ?_ fun _ => hsize
      exact size_ne_of_more h.toInv ht hwalk hlookup fun honly => hkeeps ⟨n, honly, hstate, hsize⟩
  | remove path =>
    rcases Placed.cases hop with ⟨-, hnone⟩ | haddressed
    · exact vwp_sacRemove_missing h.toInv hop.valid (hpass _) hnone h
    · obtain ⟨d, ht, hwalk⟩ := haddressed.target
      refine vwp_sacRemove h.toInv ht (fun _ => h) fun n w hlookup hstate hk =>
        hk.tidy h ?_ fun hdir => ?_
      · exact size_ne_of_more h.toInv ht hwalk hlookup fun honly => hkeeps ⟨n, honly, hstate⟩
      · rw [hstate] at hdir
        exact absurd hdir (by decide)
  | rename oldPath newPath =>
    obtain ⟨hold, hnew, hsome, -⟩ := hop
    obtain ⟨d, ht, hwalk⟩ := hold.target
    obtain ⟨d', ht', -⟩ := hnew.target
    rw [hwalk, Option.isSome_iff_exists] at hsome
    obtain ⟨n, hlookup⟩ := hsome
    have hmore := size_ne_of_more h.toInv ht hwalk hlookup fun honly => hkeeps ⟨n, honly⟩
    exact vwp_sacRename h.toInv ht ht' hlookup hnew.length_last
      (fun w hr => hr.tidy h ht.state ht'.state hmore) fun e w he _ _ => he
  | write _ _ _ => exact hop.elim
  | truncate _ _ => exact hop.elim

end Operation

/-! ## Runs -/

section Runs

variable {s t : SacState} {ops : List Operation}

/-- INTERNAL: a formatted disk has no blocks in use. -/
theorem Fresh.tidy {v : View} (h : Fresh v) : Tidy v := by
  have hplain := h.plain
  refine ⟨hplain.toInv, hplain.blockless, fun c hc hc' => ?_⟩
  constructor
  · intro hused
    rw [h.used c (by omega), decide_eq_true_eq] at hused
    omega
  · rintro ⟨m, r, hm, -, hr, rfl⟩
    exact (hplain.inData ⟨hm, hr⟩).2.2

/-- **Directories do not leak blocks** in any run from a formatted disk in which no operation takes
the last record out of a directory. SRCLINE: directory.c:58-83, directory.c:194-213,
sacio.c:13-150, sacio.c:383-488 -/
theorem directories_accounted (hs : Formatted s)
    (hrun : Run (Step fun v op => DirectoryRequest v op ∧ ¬ TakesLast v op) s ops t) :
    Accounted (viewOf t) := by
  refine (hrun.invariant (I := fun s => Tidy (viewOf s)) (fresh_of_formatted hs).tidy ?_).accounted
  rintro s op s' h ⟨⟨hop, hkeeps⟩, r, hok⟩
  exact wp_of_ok (Q := fun _ s' => Tidy (viewOf s')) (vwp_perform_tidy h hop hkeeps s rfl) hok

/-- The statement for a run that creates a directory on a new disk. -/
theorem directories_accounted_mkdir :
    ∃ t, Run (Step fun v op => DirectoryRequest v op ∧ ¬ TakesLast v op) newDisk [.mkdir aPath] t ∧
      Accounted (viewOf t) := by
  have hfresh := fresh_of_formatted formatted_newDisk
  have hinv := hfresh.inv.1
  obtain ⟨n, t, date, hok, -⟩ := exists_mkdir hinv (aPath_target hinv.toCore)
    (by decide) (hfresh.lookup_eq_none 0 _) (by decide) hfresh.spare
  have hrun : Run (Step fun v op => DirectoryRequest v op ∧ ¬ TakesLast v op) newDisk
      [.mkdir aPath] t :=
    Run.single ⟨⟨(aPath_addressed hinv.toCore).placed, id⟩, 0, hok⟩
  exact ⟨t, hrun, directories_accounted formatted_newDisk hrun⟩

/-- INTERNAL: **taking the last record out** leaves the pointer block of the directory in use, and
no node refers to it. SRCLINE: directory.c:77-81 -/
theorem Deleted.leaks {v w : View} {d n : ℕ} {F : Set ℕ} (hk : Deleted v w d n F)
    (h : Inv v none) (hd : v.live d) (hstate : (v.inode d).state = 2)
    (hsize : (v.inode d).fileSize = 128) (hdn : d ≠ n)
    (hF : ∀ b ∈ F, ∃ r, v.held n r ∧ v.place n r = b) : ¬ Accounted w := by
  intro haccounted
  obtain ⟨t, hunlinked, hdead⟩ := hk.tree
  have hok := (h.node d hd).dir hstate
  have hptr : v.held d (.ptr 0) := ⟨hd, fun e => by rw [hok.ptr_zero.mp e] at hsize; omega⟩
  obtain ⟨hge, hlt, hused⟩ := h.inData hptr
  obtain ⟨name, l₁, l₂, hentries, hleft⟩ := hunlinked.entries_dir
  have hnlt := (h.tree.target_live d hd n (by
    rw [Namespace.targets, hentries, List.map_append]
    exact List.mem_append_right _ List.mem_cons_self)).1
  have hnot : v.place d (.ptr 0) ∉ F := by
    intro hin
    obtain ⟨r, hr, hplace⟩ := hF _ hin
    exact hdn (h.own.inj d (.ptr 0) n r hptr hr hplace.symm).1
  have hstill : w.used (v.place d (.ptr 0)) = true := (hk.used _).mpr ⟨hused, by omega, hnot⟩
  obtain ⟨m, r, hm, hmstate, hr, hplace⟩ := (haccounted _ hge hlt).mp hstill
  obtain ⟨hmt, hmn⟩ := (hdead.live m).mp hm
  have hmv := (hunlinked.live m).mp hmt
  by_cases hmd : m = d
  · -- the directory has no records any more
    subst hmd
    have hlen : (v.tree.entries m).length = 1 := by
      rw [entries_dir hd hstate, length_records, hsize]
    rw [hentries, List.length_append, List.length_cons] at hlen
    have hnone : w.tree.entries m = [] := by
      rw [hdead.entries m hmn, hleft, List.append_eq_nil_iff, ← List.length_eq_zero_iff,
        ← List.length_eq_zero_iff]
      omega
    have hok' := (hk.inv.node m hm).dir hmstate
    have hzero : (w.inode m).fileSize = 0 := by
      have hlen' := congrArg List.length hnone
      rw [entries_dir hm hmstate, length_records, List.length_nil] at hlen'
      have := hok'.size
      omega
    exact hok'.not_refers hmstate hzero r hr
  · have hr' : v.held m r := ⟨hmv, by rw [← hk.inode m hmn hmd]; exact hr⟩
    obtain ⟨-, hsame, -⟩ := hk.held m r hmn hmd hr'
    exact hmd (h.own.inj m r d (.ptr 0) hr' hptr (hsame.symm.trans hplace)).1

/-- Creating the file `/a` on a new disk and removing it leaves two blocks in use that no directory
refers to. SRCLINE: directory.c:77-81 -/
theorem removing_last_leaks : ∃ t, Run (Step DirectoryRequest) newDisk [.open aPath, .remove aPath] t ∧
    ¬ Accounted (viewOf t) := by
  have hfresh := fresh_of_formatted formatted_newDisk
  have hinv := hfresh.inv.1
  obtain ⟨n, s, date, hopen, hc⟩ := exists_open hinv (aPath_target hinv.toCore)
    (by decide) (hfresh.lookup_eq_none 0 _) (by decide) hfresh.spare
  obtain ⟨u, hborn, hlinked⟩ := hc.tree
  have hroot := hc.inv.toCore.live_root
  have hstate := hc.inv.root
  have h0n : 0 ≠ n := fun e => hc.dead (e ▸ hinv.toCore.live_root)
  have hentries : (viewOf s).tree.entries 0 = [([97], n)] := by
    rw [hlinked.entries_dir, hborn.entries 0 h0n, hfresh.entries 0, List.nil_append]
  have hlookup : (viewOf s).tree.lookup 0 [97] = some n := by
    rw [Namespace.lookup, hentries]
    rfl
  obtain ⟨t, hremove, hk⟩ := exists_remove hc.inv (aPath_target hc.inv.toCore) hlookup
    (by rw [hc.node]; rfl)
  have hrun : Run (Step DirectoryRequest) newDisk [.open aPath, .remove aPath] t :=
    (Run.single ⟨(aPath_addressed hinv.toCore).placed, _, hopen⟩).append
      (Run.single ⟨(aPath_addressed hc.inv.toCore).placed, _, hremove⟩)
  refine ⟨t, hrun, hk.leaks hc.inv hroot hstate ?_ h0n ?_⟩
  · have hlen := congrArg List.length hentries
    rw [entries_dir hroot hstate, length_records, List.length_singleton] at hlen
    have := ((hc.inv.node 0 hroot).dir hstate).size
    omega
  · intro b hb
    refine held_of_freed ((hlinked.live n).mpr ((hborn.live n).mpr (Or.inr rfl)))
      (by rw [hc.node]; rfl) (fun i hi => ?_) hb
    have hleading : leadingPointers (newInode 1 [97] 0 date) = 0 := rfl
    rw [hc.node] at hi
    omega

end Runs

end LinuseFs.Analysis
