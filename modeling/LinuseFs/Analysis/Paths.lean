import LinuseFs.Computation.Walks
import LinuseFs.Analysis.DirectoryScan

/-!
# Paths

A valid path other than `/` ends in a last piece, behind its last slash.  The helpers cut it
into that piece and what stands before, with the slash or without it; `search_path` looks up
the same pieces in both.  `Target` is what the kernel promises of a path it sends: its
directory is there.
-/

set_option autoImplicit false

namespace LinuseFs.Analysis

open LinuseFs.Computation LinuseFs.Model LinuseFs.Interface

section Split

variable {path front name : List UInt8}

/-- INTERNAL: **the last piece** of a valid path other than the root's. SRCLINE:
directory.c:130-132 -/
theorem exists_last_piece (hvalid : isValidPath path = true) (hroot : path ≠ [slash]) :
    ∃ front name, path = front ++ slash :: name ∧ slash ∉ name ∧ name ≠ [] := by
  simp only [isValidPath, Bool.and_eq_true, Bool.or_eq_true, Bool.not_eq_true',
    beq_iff_eq, beq_eq_false_iff_ne] at hvalid
  obtain ⟨⟨-, hhead⟩, hlast⟩ := hvalid
  have hmem : slash ∈ path.reverse := List.mem_reverse.mpr (List.mem_of_mem_head? hhead)
  obtain ⟨as, bs, heq, has⟩ := List.eq_append_cons_of_mem hmem
  have hpath : path = bs.reverse ++ slash :: as.reverse := by
    have := congrArg List.reverse heq
    simpa using this
  refine ⟨bs.reverse, as.reverse, hpath, by simpa using has, ?_⟩
  intro hnil
  rw [hnil] at hpath
  rcases hlast with hlen | hlast
  · obtain ⟨c, rfl⟩ := List.length_eq_one_iff.mp hlen
    exact hroot (by simpa using hhead)
  · rw [hpath] at hlast
    simp at hlast

variable (front) in
theorem stringSplit_append (hslash : slash ∉ name) (hname : name ≠ []) :
    stringSplit (front ++ slash :: name) = stringSplit front ++ [name] := by
  unfold stringSplit
  rw [List.splitOn_append_cons_self, List.splitOn_eq_singleton hslash, List.filter_append]
  simp [hname]

theorem stringSplit_slash : stringSplit (front ++ [slash]) = stringSplit front := by
  unfold stringSplit
  rw [List.splitOn_append_cons_self, List.filter_append]
  simp

variable (front) in
/-- INTERNAL: the last piece of a path and what stands before it. -/
theorem pieces_at_last_slash (hslash : slash ∉ name) (hname : name ≠ []) :
    (stringSplit (front ++ slash :: name)).getLast? = some name ∧
      getPreDirPathFromPath (front ++ slash :: name) name = front ++ [slash] ∧
      stringSubstringUntil (front ++ slash :: name)
        ((front ++ slash :: name).length - name.length - 1) = front := by
  refine ⟨?_, ?_, ?_⟩
  · rw [stringSplit_append front hslash hname, List.getLast?_concat]
  · have hlen : (front ++ slash :: name).length - name.length = (front ++ [slash]).length := by
      simp only [List.length_append, List.length_cons, List.length_nil]
      omega
    rw [getPreDirPathFromPath, stringSubstringUntil, hlen,
      show front ++ slash :: name = (front ++ [slash]) ++ name by simp, List.take_left]
  · have hlen : (front ++ slash :: name).length - name.length - 1 = front.length := by
      simp only [List.length_append, List.length_cons]
      omega
    rw [hlen, stringSubstringUntil, List.take_left]

variable (front) in
/-- INTERNAL: **the helpers cut a path at its last slash.** SRCLINE: directory.c:298-309,
utils.c:219-240 -/
theorem cut_at_last_slash (hslash : slash ∉ name) (hname : name ≠ []) :
    getNewDirNameFromPath (front ++ slash :: name) = pure name ∧
      getFileNameFromFilePath (front ++ slash :: name) = pure name ∧
      getPreDirPathFromPath (front ++ slash :: name) name = front ++ [slash] ∧
      getFolderPathFromFilePath (front ++ slash :: name) = pure front := by
  obtain ⟨hlast, hpre, hfolder⟩ := pieces_at_last_slash front hslash hname
  refine ⟨?_, ?_, hpre, ?_⟩
  · rw [getNewDirNameFromPath, hlast]
  · rw [getFileNameFromFilePath, hlast]
  · rw [getFolderPathFromFilePath, hlast]
    simp only [hfolder]

end Split

/-! ## The directory of a path -/

/-- The path is valid and leads to `name` in the directory `d`. -/
structure Target (v : View) (path : CString) (d : ℕ) (name : List UInt8) : Prop where
  valid : isValidPath path.val = true
  cut : ∃ front, path.val = front ++ slash :: name ∧ v.tree.walk 0 (stringSplit front) = some d
  slash_free : slash ∉ name
  name_ne : name ≠ []
  state : (v.inode d).state = 2

section Target

variable {v : View} {path : CString} {d n : ℕ} {name : List UInt8} {orphan : Option ℕ}
  {E : Fault → View → Prop}

theorem Target.nul_free (h : Target v path d name) : (0 : UInt8) ∉ name := by
  obtain ⟨front, hpath, -⟩ := h.cut
  have := path.property
  rw [hpath] at this
  intro hmem
  exact this (List.mem_append_right _ (List.mem_cons_of_mem _ hmem))

theorem Target.live (h : Target v path d name) (hinv : Inv v orphan) : v.live d := by
  obtain ⟨front, -, hwalk⟩ := h.cut
  exact hinv.tree.walk_live hinv.live_root hwalk

/-- INTERNAL: what can be passed up to its end can be passed up to a piece on the way. -/
theorem Passable.of_initial {ps qs : List (List UInt8)} (h : Passable v d ps) (hqs : qs <+: ps) :
    Passable v d qs := by
  intro rs m hrs hne hwalk
  refine h rs m (hrs.trans hqs) (fun e => ?_) hwalk
  subst e
  exact hne (hrs.eq_of_length_le hqs.length_le)

/-- INTERNAL: the directory of the path and its last piece. -/
theorem Target.split (h : Target v path d name) :
    v.tree.walk 0 (stringSplit path.val).dropLast = some d ∧
      (stringSplit path.val).getLastD [] = name := by
  obtain ⟨front, hpath, hwalk⟩ := h.cut
  have hsplit := stringSplit_append front h.slash_free h.name_ne
  rw [← hpath] at hsplit
  rw [hsplit, List.dropLast_concat, List.getLastD_concat]
  exact ⟨hwalk, rfl⟩

theorem Target.ne_root (h : Target v path d name) : path.val ≠ [slash] := by
  obtain ⟨front, hpath, -⟩ := h.cut
  have hname := h.name_ne
  rw [hpath]
  cases front with
  | nil => simpa using hname
  | cons b front => simp

/-- INTERNAL: the nodes on the way to the directory are directories. -/
theorem Target.passable (h : Target v path d name) :
    Passable v 0 (stringSplit path.val).dropLast := by
  refine (passable_of_dropLast fun _ => ⟨d, h.split.1, h.state⟩).of_initial (List.dropLast_prefix _)

/-- INTERNAL: the target of a valid path, from what the kernel promises of it. -/
theorem exists_target (hvalid : isValidPath path.val = true) (hroot : path.val ≠ [slash])
    (hwalk : v.tree.walk 0 (stringSplit path.val).dropLast = some d)
    (hstate : (v.inode d).state = 2) :
    Target v path d ((stringSplit path.val).getLastD []) := by
  obtain ⟨front, name, hpath, hslash, hname⟩ := exists_last_piece hvalid hroot
  have hsplit := stringSplit_append front hslash hname
  rw [← hpath] at hsplit
  rw [hsplit] at hwalk ⊢
  rw [List.dropLast_concat] at hwalk
  rw [List.getLastD_concat]
  exact ⟨hvalid, ⟨front, hpath, hwalk⟩, hslash, hname, hstate⟩

/-- INTERNAL: a walk passes through directories. -/
theorem walk_dropLast {ps : List (List UInt8)} (hne : ps ≠ [])
    (hwalk : v.tree.walk 0 ps = some n) :
    ∃ d, v.tree.walk 0 ps.dropLast = some d ∧ (v.inode d).state = 2 := by
  rw [← List.dropLast_append_getLast hne, Namespace.walk_append] at hwalk
  cases hd : v.tree.walk 0 ps.dropLast with
  | none => rw [hd] at hwalk; cases hwalk
  | some d =>
    rw [hd, Option.bind_some, Namespace.walk_singleton] at hwalk
    refine ⟨d, rfl, ?_⟩
    by_contra hstate
    have hmem := Namespace.lookup_eq_some hwalk
    rw [entries_of_state_ne hstate] at hmem
    cases hmem

/-- INTERNAL: the whole path leads where its last piece does. -/
theorem Target.walk (h : Target v path d name) :
    v.tree.walk 0 (stringSplit path.val) = v.tree.lookup d name := by
  obtain ⟨front, hpath, hwalk⟩ := h.cut
  have hsplit := stringSplit_append front h.slash_free h.name_ne
  rw [← hpath] at hsplit
  rw [hsplit, Namespace.walk_concat, hwalk, Option.bind_some]

/-- INTERNAL: the directory of a path that leads somewhere is one. -/
theorem state_of_found (hvalid : isValidPath path.val = true) (hroot : path.val ≠ [slash])
    (hfound : v.tree.walk 0 (stringSplit path.val) = some n)
    (hparent : v.tree.walk 0 (stringSplit path.val).dropLast = some d) :
    (v.inode d).state = 2 := by
  obtain ⟨front, name, hpath, hslash, hname⟩ := exists_last_piece hvalid hroot
  have hsplit := stringSplit_append front hslash hname
  rw [← hpath] at hsplit
  obtain ⟨c, hwalk, hstate⟩ := walk_dropLast (by rw [hsplit]; simp) hfound
  rw [hwalk] at hparent
  cases hparent
  exact hstate

/-- INTERNAL: the search for what is not there. SRCLINE: directory.c:17-37 -/
theorem vwp_searchPath_missing {Q : DirEntry → View → Prop} (hinv : Inv v orphan)
    {path : List UInt8} (hpass : Passable v 0 (stringSplit path))
    (hnone : v.tree.walk 0 (stringSplit path) = none) (hQ : ∀ e, isValidEntry e = false → Q e v) :
    vwp (searchPath path) Q E v := by
  apply vwp_searchPath_passable hinv hpass
  intro e he
  rcases he with ⟨hfound, -, -⟩ | ⟨-, hinvalid, -⟩
  · rw [hnone] at hfound
    cases hfound
  · exact hQ e hinvalid

/-- INTERNAL: the search for a directory that is there. SRCLINE: directory.c:17-37 -/
theorem vwp_searchPath_dir {Q : DirEntry → View → Prop} (hinv : Inv v orphan)
    {path : List UInt8} (hwalk : v.tree.walk 0 (stringSplit path) = some d)
    (hQ : ∀ e, e.nodeNum = d → isValidEntry e = true → Q e v) :
    vwp (searchPath path) Q E v := by
  apply vwp_searchPath hinv (fun hne => walk_dropLast hne hwalk)
  intro e he
  rcases he with ⟨hfound, hvalid, -⟩ | ⟨hnone, -, -⟩
  · rw [hfound] at hwalk
    exact hQ e (Option.some.inj hwalk) hvalid
  · rw [hnone] at hwalk
    cases hwalk

/-- INTERNAL: the search for a path whose directory is there. SRCLINE: directory.c:17-37 -/
theorem vwp_searchPath_target {Q : DirEntry → View → Prop} (hinv : Inv v orphan)
    (ht : Target v path d name)
    (hfound : ∀ e n, v.tree.lookup d name = some n → e.nodeNum = n → isValidEntry e = true →
      e.name = name → Q e v)
    (hmissing : ∀ e, v.tree.lookup d name = none → isValidEntry e = false → e.nodeNum = 0 →
      Q e v) :
    vwp (searchPath path.val) Q E v := by
  obtain ⟨front, hpath, hwalk⟩ := ht.cut
  have hsplit := stringSplit_append front ht.slash_free ht.name_ne
  rw [← hpath] at hsplit
  have hwhole : v.tree.walk 0 (stringSplit path.val) = v.tree.lookup d name := by
    rw [hsplit, Namespace.walk_append, hwalk, Option.bind_some, Namespace.walk_singleton]
  refine vwp_searchPath hinv (fun _ => ⟨d, ?_, ht.state⟩) fun e he => ?_
  · rw [hsplit, List.dropLast_concat, hwalk]
  · rcases he with ⟨hwalk', hvalid, hlast⟩ | ⟨hnone, hinvalid, hzero⟩
    · rw [hsplit, List.getLastD_concat] at hlast
      exact hfound e _ (hwhole ▸ hwalk') rfl hvalid hlast
    · exact hmissing e (hwhole ▸ hnone) hinvalid hzero

end Target

/-! ## What a path leads to -/

/-- What the pieces of a path lead to. -/
def leadsTo (s : SacState) (ps : List (List UInt8)) : Option ℕ := (viewOf s).tree.walk 0 ps

/-- The node that `search_path` has found. -/
def foundNode (e : DirEntry) : Option ℕ := if isValidEntry e then some e.nodeNum else none

/-- `search_path` returns and finds what the path leads to. -/
def SearchAgrees (s : SacState) : Prop :=
  ∀ path, ∃ e s', searchPath path s = .ok e s' ∧ foundNode e = leadsTo s (stringSplit path)

/-- Every path leads where it did. -/
def SamePaths (s s' : SacState) : Prop := ∀ ps, leadsTo s' ps = leadsTo s ps

/-- INTERNAL: `search_path` and the namespace agree on a path that can be passed.
SRCLINE: directory.c:17-37 -/
theorem exists_searchPath {s : SacState} {orphan : Option ℕ} {path : List UInt8}
    (h : Inv (viewOf s) orphan) (hpass : Passable (viewOf s) 0 (stringSplit path)) :
    ∃ e s', searchPath path s = .ok e s' ∧ viewOf s' = viewOf s ∧
      foundNode e = leadsTo s (stringSplit path) := by
  have hsearch : vwp (searchPath path)
      (fun e w => w = viewOf s ∧ foundNode e = leadsTo s (stringSplit path))
      (fun _ _ => False) (viewOf s) := by
    refine vwp_searchPath_passable h hpass fun e he => ⟨rfl, ?_⟩
    rcases he with ⟨hfound, hvalid, -⟩ | ⟨hnone, hinvalid, -⟩
    · rw [foundNode, if_pos hvalid, leadsTo, hfound]
    · rw [foundNode, if_neg (by simp [hinvalid]), leadsTo, hnone]
  exact exists_ok_of_wp (hsearch s rfl) fun _ _ hf => hf

/-- INTERNAL: no path leads on from a name that no node can have. -/
theorem length_le_of_lookup {v : View} {d n : ℕ} {name : List UInt8}
    (hlookup : v.tree.lookup d name = some n) : name.length ≤ 70 := by
  have hmem := Namespace.lookup_eq_some hlookup
  simp only [View.tree] at hmem
  split at hmem
  · obtain ⟨k, -, hk⟩ := List.mem_map.mp hmem
    have hname := congrArg Prod.fst hk
    simp only [View.record] at hname
    cases hcstr : cstr (v.data (v.dataBlock (v.inode d) 0)) (k * 128 + 4) 71 with
    | none =>
      rw [hcstr, Option.getD_none] at hname
      subst hname
      exact Nat.zero_le _
    | some x =>
      rw [hcstr, Option.getD_some] at hname
      subst hname
      exact Nat.le_of_lt_succ (cstr_eq_some_iff.mp hcstr).1
  · cases hmem

end LinuseFs.Analysis
