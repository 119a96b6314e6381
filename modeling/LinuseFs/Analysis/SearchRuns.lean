import LinuseFs.Analysis.NameRuns

/-!
# Searching through files

`search_path` does not look at the state of the nodes on its way: a regular file is scanned
like a directory, and `sac_mkdir` and `sac_open` enter names into it.  On the paths that pass
no blocks of a file the search agrees with the namespace, in every state that well-behaved
operations reach.
-/

set_option autoImplicit false

namespace LinuseFs.Analysis

open LinuseFs.Computation LinuseFs.Model LinuseFs.Interface

/-- The path is one that the kernel sends, its directory is a directory, if it is there, and a
search for it passes no blocks of a file. -/
structure Entered (v : View) (path : CString) : Prop extends Placed v path where
  passable : Passable v 0 (stringSplit path.val)

/-- The operation keeps the file system well formed: its paths pass no blocks of a file; a write
goes to a file and begins in it or in its first block; what fills a block goes to a file without
stray pointers. -/
def Harmless (v : View) : Operation → Prop
  | .mkdir path => Entered v path
  | .open path => Entered v path
  | .rmdir path => Entered v path
  | .remove path => Entered v path
  | .rename oldPath newPath => Promised v (.rename oldPath newPath)
  | .write fd buffer offset =>
    v.live fd ∧ (v.inode fd).state = 1 ∧ (offset ≤ (v.inode fd).fileSize ∨ offset < 4096) ∧
      (NoStray (v.inode fd) ∨ offset % 4096 + buffer.length < 4096)
  | .truncate path lenght =>
    Entered v path ∧ lenght < 2 ^ 31 ∧ ∀ n, v.tree.walk 0 (stringSplit path.val) = some n →
      (v.inode n).state = 1 → (v.inode n).fileSize < lenght → NoStray (v.inode n) ∨
        (v.inode n).fileSize % 4096 + (lenght - (v.inode n).fileSize) < 4096

/-- `search_path` finds what the namespace says, and what is below a file is not created. -/
structure NamesInDirectories (s : SacState) (path : CString) : Prop where
  search : ∃ e s', searchPath path.val s = .ok e s' ∧
    foundNode e = leadsTo s (stringSplit path.val)
  belowFile : ∀ f, leadsTo s (stringSplit path.val).dropLast = some f →
    ((viewOf s).inode f).state = 1 →
    (∃ s', sacMkdir path s = .ok (-1) s' ∧ viewOf s' = viewOf s) ∧
      ∃ s', sacOpen path s = .ok (-1) s' ∧ viewOf s' = viewOf s

section Step

variable {v : View} {path : CString} {op : Operation} {E : Fault → View → Prop}

/-- INTERNAL: what is not there is not truncated. SRCLINE: sacio.c:493-505 -/
theorem vwp_sacTruncate_missing {Q : ℤ → View → Prop} {orphan : Option ℕ} {lenght : ℤ}
    (h : Inv v orphan) (hvalid : isValidPath path.val = true)
    (hpass : Passable v 0 (stringSplit path.val))
    (hnone : v.tree.walk 0 (stringSplit path.val) = none) (hQ : Q (-1) v) :
    vwp (sacTruncate .ilp32 path lenght) Q E v := by
  unfold sacTruncate
  dsimp only
  rw [if_neg (by simp [hvalid])]
  refine vwp_bind (vwp_searchPath_missing h hpass hnone fun e hinvalid => ?_)
  rw [if_pos (by simp [hinvalid])]
  exact vwp_pure hQ

/-- INTERNAL: **the step lemma**: a harmless operation keeps the file system well formed. -/
theorem vwp_perform_harmless (h : Inv v none) (hop : Harmless v op) :
    vwp op.perform (fun _ w => Inv w none) (fun e _ => e.IsAlloc) v := by
  cases op with
  | mkdir path =>
    rcases Placed.cases hop.toPlaced with ⟨hnone, -⟩ | haddressed
    · exact vwp_sacMkdir_missing h hop.valid hop.ne_root hop.passable hnone h
    · exact vwp_mono (vwp_perform (.mkdir path) h haddressed trivial) (fun _ _ hw => hw.1)
        fun _ _ he => he
  | «open» path =>
    rcases Placed.cases hop.toPlaced with ⟨hnone, -⟩ | haddressed
    · exact vwp_sacOpen_missing h hop.valid hop.ne_root hop.passable hnone h
    · exact vwp_mono (vwp_perform (.open path) h haddressed trivial) (fun _ _ hw => hw.1)
        fun _ _ he => he
  | rmdir path =>
    rcases Placed.cases hop.toPlaced with ⟨-, hnone⟩ | haddressed
    · exact vwp_sacRmdir_missing h hop.valid hop.ne_root hop.passable hnone h
    · exact vwp_mono (vwp_perform (.rmdir path) h haddressed trivial) (fun _ _ hw => hw.1)
        fun _ _ he => he
  | remove path =>
    rcases Placed.cases hop.toPlaced with ⟨-, hnone⟩ | haddressed
    · exact vwp_sacRemove_missing h hop.valid hop.passable hnone h
    · exact vwp_mono (vwp_perform (.remove path) h haddressed trivial) (fun _ _ hw => hw.1)
        fun _ _ he => he
  | rename oldPath newPath =>
    exact vwp_mono (vwp_perform (.rename oldPath newPath) h hop trivial)
      (fun _ _ hw => hw.1) fun _ _ he => he
  | write fd buffer offset =>
    obtain ⟨hn, hstate, hoffset, hstray⟩ := hop
    have hdir : (v.inode fd).state ≠ 2 := by
      rw [hstate]
      decide
    exact vwp_bind (vwp_sacWrite_noStray h hn hstate hoffset hstray
      (fun w hw => vwp_pure (hw.grown.inv h hdir)) fun e w he _ => he)
  | truncate path lenght =>
    obtain ⟨hpath, hlt, hstray⟩ := hop
    rcases Placed.cases hpath.toPlaced with ⟨-, hnone⟩ | haddressed
    · exact vwp_sacTruncate_missing h hpath.valid hpath.passable hnone h
    · obtain ⟨d, ht, hwalk⟩ := haddressed.target
      rw [hwalk] at hstray
      have hnodir : ∀ n, (v.inode n).state = 1 → (v.inode n).state ≠ 2 := by
        intro n hstate
        rw [hstate]
        decide
      refine vwp_sacTruncate h ht (by omega) (fun _ => h) (fun n hn hstate hsize => ?_)
        (fun n w count _ hstate _ _ hw => hw.grown.inv h (hnodir n hstate))
        (fun n w _ hstate _ hs _ => hs.inv h (hnodir n hstate)) fun _ _ _ _ _ he => he
      apply (hstray n hn hstate (by omega)).imp_right
      intro hfits
      omega

/-- INTERNAL: **runs of harmless operations keep the file system well formed.** -/
theorem inv_of_harmless {s t : SacState} {ops : List Operation} (hs : Inv (viewOf s) none)
    (hrun : Run (Step Harmless) s ops t) : Inv (viewOf t) none := by
  apply hrun.invariant (I := fun s => Inv (viewOf s) none) hs
  rintro s op s' h ⟨hop, r, hok⟩
  exact wp_of_ok (Q := fun _ s' => Inv (viewOf s') none) (vwp_perform_harmless h hop s rfl) hok

end Step

/-! ## A name below a file -/

section BelowFile

variable {v : View} {path : CString} {f : ℕ}

/-- INTERNAL: **`sac_mkdir` enters a name into an empty file**, unless it stops.
SRCLINE: sacio.c:27-46 -/
theorem vwp_sacMkdir_belowFile (h : Inv v none) (hvalid : isValidPath path.val = true)
    (hroot : path.val ≠ [slash]) (hpass : Passable v 0 (stringSplit path.val))
    (hparent : v.tree.walk 0 (stringSplit path.val).dropLast = some f)
    (hptr : (v.inode f).ptr 0 = 0) :
    vwp (sacMkdir path) (fun r _ => r = 0) (fun _ _ => True) v := by
  have hf := h.tree.walk_live h.live_root hparent
  obtain ⟨front, name, hpath, hslash, hname⟩ := exists_last_piece hvalid hroot
  obtain ⟨hlast, -, hpre, -⟩ := cut_at_last_slash front hslash hname
  have hsplit := stringSplit_append front hslash hname
  rw [← hpath] at hsplit hlast hpre
  rw [hsplit, List.dropLast_concat] at hparent
  have hpass' : Passable v 0 (stringSplit (front ++ [slash])) := by
    rw [stringSplit_slash]
    exact hpass.of_initial (by rw [hsplit]; exact List.prefix_append _ _)
  unfold sacMkdir
  rw [if_neg (by simp [hvalid]), hlast]
  refine vwp_bind (vwp_pure ?_)
  dsimp only
  rw [hpre]
  refine vwp_bind (vwp_searchPath_passable h hpass' fun e he => ?_)
  rw [Resolved, stringSplit_slash, hparent] at he
  rcases he with ⟨hfound, hvalid', -⟩ | ⟨hnone, -, -⟩
  · rw [if_pos hvalid']
    obtain rfl : f = e.nodeNum := Option.some.inj hfound
    refine vwp_bind (vwp_readNode hf.1 (h.node _ hf).named fun node hnode => ?_)
    have hzero : node.indirectPointerBlock 0 = 0 := by
      rw [← hnode] at hptr
      exact hptr
    refine vwp_bind (vwp_bind (vwp_getEntry_noPointer hzero fun e' hinvalid _ => ?_))
    apply vwp_pure
    rw [if_neg (by simp [hinvalid])]
    -- whatever the rest does, it answers 0
    apply vwp_bind_of (vwp_anything _) (fun _ _ _ => trivial)
    intro _ _ _
    exact vwp_bind_of (vwp_anything _) (fun _ _ _ => trivial) fun _ _ _ => vwp_pure rfl
  · cases hnone

/-- INTERNAL: `sac_mkdir` below an empty file does not answer -1. -/
theorem sacMkdir_belowFile {s s' : SacState} {r : ℤ} (h : Inv (viewOf s) none)
    (hvalid : isValidPath path.val = true) (hroot : path.val ≠ [slash])
    (hpass : Passable (viewOf s) 0 (stringSplit path.val))
    (hparent : leadsTo s (stringSplit path.val).dropLast = some f)
    (hptr : ((viewOf s).inode f).ptr 0 = 0) (hok : sacMkdir path s = .ok r s') : r = 0 :=
  wp_of_ok (Q := fun r _ => r = 0)
    (vwp_sacMkdir_belowFile h hvalid hroot hpass hparent hptr s rfl) hok

end BelowFile

/-! ## Where names are -/

section Names

variable {s t : SacState} {ops : List Operation} {path : CString}

/-- **The search agrees with the namespace, and names are in directories only, if and only if the
directory of the path is not a file**, in every run of harmless operations and for every path
that passes no blocks of a file. SRCLINE: directory.c:17-37, sacio.c:13-50 -/
theorem names_in_directories_iff (hs : Formatted s) (hrun : Run (Step Harmless) s ops t)
    (hvalid : isValidPath path.val = true)
    (hway : ∀ qs f, qs <+: stringSplit path.val → qs ≠ stringSplit path.val →
      leadsTo t qs = some f → ((viewOf t).inode f).state = 1 → ((viewOf t).inode f).ptr 0 = 0) :
    NamesInDirectories t path ↔ ∀ f, leadsTo t (stringSplit path.val).dropLast = some f →
      ((viewOf t).inode f).state ≠ 1 := by
  have h := inv_of_harmless (fresh_of_formatted hs).inv.1 hrun
  have hpass : Passable (viewOf t) 0 (stringSplit path.val) := by
    intro qs m hqs hne hwalk
    have hm := h.tree.walk_live h.live_root hwalk
    exact ((h.node m hm).kind.imp_left (hway qs m hqs hne hwalk)).symm
  constructor
  · intro hnames f hparent hstate
    obtain ⟨⟨s', hok, -⟩, -⟩ := hnames.belowFile f hparent hstate
    have hroot : path.val ≠ [slash] := by
      intro e
      rw [e] at hparent
      have hf : f = 0 := (Option.some.inj hparent).symm
      rw [hf, h.root] at hstate
      exact absurd hstate (by decide)
    have hsplit : stringSplit path.val ≠ [] := by
      obtain ⟨front, name, hpath, hslash, hname⟩ := exists_last_piece hvalid hroot
      rw [hpath, stringSplit_append front hslash hname]
      simp
    have hptr := hway _ f (List.dropLast_prefix _) (fun e => hsplit (by
      have hlen := congrArg List.length e
      rw [List.length_dropLast] at hlen
      exact List.length_eq_zero_iff.mp (by omega))) hparent hstate
    exact absurd (sacMkdir_belowFile h hvalid hroot hpass hparent hptr hok) (by decide)
  · intro hparent
    obtain ⟨e, s', hok, -, hfound⟩ := exists_searchPath h hpass
    exact ⟨⟨e, s', hok, hfound⟩, fun f hf hstate => absurd hstate (hparent f hf)⟩

/-- The path `/a/b`. -/
def abPath : CString := ⟨[47, 97, 47, 98], by decide⟩

/-- Once `/a` is a file, names are right at its own path, and are not right below it. -/
theorem names_in_directories_one_file : ∃ (n : ℕ) (s : SacState),
    sacOpen aPath newDisk = .ok (n : ℤ) s ∧ leadsTo s (stringSplit aPath.val) = some n ∧
      ((viewOf s).inode n).state = 1 ∧ NamesInDirectories s aPath ∧
      ¬ NamesInDirectories s abPath := by
  have hfresh := fresh_of_formatted formatted_newDisk
  obtain ⟨n, s, hok, hnew, hplain, -⟩ := exists_newNode aPath hfresh.plain rfl
    (by decide) (by decide) (by decide) (hfresh.leadsTo_eq_none (by decide)) hfresh.spare
  have hentered : Entered (viewOf newDisk) aPath :=
    ⟨(aPath_addressed hfresh.inv.1.toCore).placed, hfresh.plain.passable hfresh.plain.live_root _⟩
  have hrun : Run (Step Harmless) newDisk ([] ++ [.open aPath]) s :=
    Run.nil.snoc ⟨hentered, n, hok⟩
  -- the file has no blocks yet, so every path passes it
  have hway : ∀ (path : CString) qs f, qs <+: stringSplit path.val → qs ≠ stringSplit path.val →
      leadsTo s qs = some f → ((viewOf s).inode f).state = 1 → ((viewOf s).inode f).ptr 0 = 0 := by
    intro path qs f hqs hne hfound hstate
    apply (hplain.passable hplain.live_root _ qs f hqs hne hfound).resolve_left
    intro hdir
    rw [hdir] at hstate
    exact absurd hstate (by decide)
  have hroot : leadsTo s (stringSplit aPath.val).dropLast = some 0 := rfl
  refine ⟨n, s, hok, hnew.found, hnew.state_eq, ?_, fun hnames => ?_⟩
  · refine (names_in_directories_iff formatted_newDisk hrun (by decide) (hway aPath)).mpr
      fun f hf hstate => ?_
    rw [hroot] at hf
    obtain rfl : 0 = f := Option.some.inj hf
    rw [hplain.root] at hstate
    exact absurd hstate (by decide)
  · exact (names_in_directories_iff formatted_newDisk hrun (by decide) (hway abPath)).mp hnames n
      hnew.found hnew.state_eq

/-- After `sac_open` has created the file `/a`, `sac_mkdir` of `/a/b` does not answer -1.
SRCLINE: sacio.c:27-46 -/
theorem mkdir_below_file : ∃ (n : ℕ) (s : SacState), sacOpen aPath newDisk = .ok (n : ℤ) s ∧
    leadsTo s (stringSplit abPath.val).dropLast = some n ∧ ((viewOf s).inode n).state = 1 ∧
    (∀ r s', sacMkdir abPath s = .ok r s' → r = 0) ∧ ¬ NamesInDirectories s abPath := by
  have hfresh := fresh_of_formatted formatted_newDisk
  obtain ⟨n, s, hok, hnew, hplain, -⟩ := exists_newNode aPath hfresh.plain rfl
    (by decide) (by decide) (by decide) (hfresh.leadsTo_eq_none (by decide)) hfresh.spare
  have hanswer : ∀ r s', sacMkdir abPath s = .ok r s' → r = 0 := by
    intro r s' hrun
    have hparent : leadsTo s (stringSplit abPath.val).dropLast = some n := hnew.found
    exact sacMkdir_belowFile hplain.toInv (by decide) (by decide)
      (hplain.passable hplain.live_root _) hparent (hnew.empty.2 0) hrun
  refine ⟨n, s, hok, hnew.found, hnew.state_eq, hanswer, fun hnames => ?_⟩
  obtain ⟨⟨s', hrun, -⟩, -⟩ := hnames.belowFile n hnew.found hnew.state_eq
  exact absurd (hanswer _ _ hrun) (by decide)

end Names

end LinuseFs.Analysis
