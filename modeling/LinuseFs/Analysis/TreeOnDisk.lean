import LinuseFs.Computation.FileTree
import LinuseFs.Analysis.FileContents
import LinuseFs.Analysis.NameRuns
import LinuseFs.Analysis.GapEffect

/-!
# The file tree on a disk

Which file tree a disk stands for, and that each effect of an operation (`Created`, `Deleted`,
`Renamed`, `Written`, `Shrunk`) is a change of this tree: an object is inserted, erased or moved, or
a file gets other contents, and no path sees anything else.
-/

set_option autoImplicit false

namespace LinuseFs.Analysis

open LinuseFs.Computation LinuseFs.Model LinuseFs.Interface

/-- The trees of the file system: numbers of nodes, names and bytes. -/
abbrev Tree := FileTree ℕ (List UInt8) UInt8

/-- What the node `n` is. -/
def objectOf (v : View) (n : ℕ) : Object UInt8 :=
  if (v.inode n).state = 2 then .dir else .file (content v n)

/-- The disk stands for the tree, and each of its nodes is found in it. -/
structure Represents (v : View) (t : Tree) : Prop extends Inv v none where
  names : v.tree.DistinctNames
  noStrays : NoStrays v
  leads : ∀ ps, t.node ps = (v.tree.walk 0 ps).map fun n => (n, objectOf v n)
  found : ∀ n, v.live n → ∃ ps, v.tree.walk 0 ps = some n

section Represents

variable {v w : View} {t t' : Tree} {ps qs : List (List UInt8)} {n m d : ℕ} {o : Object UInt8}
  {c : List UInt8} {x : List UInt8}

theorem objectOf_dir (h : (v.inode n).state = 2) : objectOf v n = .dir := if_pos h

theorem objectOf_file (h : (v.inode n).state = 1) : objectOf v n = .file (content v n) :=
  if_neg (by rw [h]; decide)

theorem objectOf_congr (h : Core v) (hl : v.live m)
    (hstate : (w.inode m).state = (v.inode m).state)
    (hcontent : (v.inode m).state = 1 → content w m = content v m) :
    objectOf w m = objectOf v m := by
  rcases (h.node m hl).kind with hfile | hdir
  · rw [objectOf_file hfile, objectOf_file (hstate.trans hfile), hcontent hfile]
  · rw [objectOf_dir hdir, objectOf_dir (hstate.trans hdir)]

/-- INTERNAL: a name leads on from a directory only. -/
theorem state_of_lookup (hl : v.tree.lookup d x ≠ none) : (v.inode d).state = 2 := by
  by_contra hstate
  rw [Namespace.lookup_eq_none_iff.mpr] at hl
  · exact hl rfl
  · rw [entries_of_state_ne hstate]
    simp

/-- INTERNAL: a disk stands for one tree at most. -/
theorem Represents.eq (h : Represents v t) (h' : Represents v t') : t = t' := by
  apply FileTree.ext
  funext ps
  rw [h.leads, h'.leads]

theorem Represents.node_eq_some (h : Represents v t) :
    t.node ps = some (n, o) ↔ v.tree.walk 0 ps = some n ∧ objectOf v n = o := by
  rw [h.leads, Option.map_eq_some_iff]
  constructor
  · rintro ⟨m, hm, heq⟩
    cases heq
    exact ⟨hm, rfl⟩
  · rintro ⟨hm, rfl⟩
    exact ⟨n, hm, rfl⟩

theorem Represents.node_eq_none (h : Represents v t) :
    t.node ps = none ↔ v.tree.walk 0 ps = none := by
  rw [h.leads, Option.map_eq_none_iff]

theorem Represents.live (h : Represents v t) (hw : v.tree.walk 0 ps = some n) : v.live n :=
  h.tree.walk_live h.toCore.live_root hw

theorem Represents.node_dir (h : Represents v t) :
    t.node ps = some (n, .dir) ↔ v.tree.walk 0 ps = some n ∧ (v.inode n).state = 2 := by
  rw [h.node_eq_some]
  apply and_congr_right
  intro hw
  rcases (h.toCore.node n (h.live hw)).kind with hfile | hdir
  · rw [objectOf_file hfile, hfile]
    simp
  · simp [objectOf_dir hdir, hdir]

theorem Represents.node_file (h : Represents v t) :
    t.node ps = some (n, .file c) ↔
      v.tree.walk 0 ps = some n ∧ (v.inode n).state = 1 ∧ content v n = c := by
  rw [h.node_eq_some]
  apply and_congr_right
  intro hw
  rcases (h.toCore.node n (h.live hw)).kind with hfile | hdir
  · simp [objectOf_file hfile, hfile]
  · rw [objectOf_dir hdir, hdir]
    simp

theorem Represents.isDir_iff (h : Represents v t) :
    t.IsDir ps ↔ ∃ n, v.tree.walk 0 ps = some n ∧ (v.inode n).state = 2 := by
  simp only [FileTree.IsDir, h.node_dir]

theorem Represents.isFile_iff (h : Represents v t) :
    t.IsFile ps ↔ ∃ n, v.tree.walk 0 ps = some n ∧ (v.inode n).state = 1 := by
  simp only [FileTree.IsFile, h.node_file]
  constructor
  · rintro ⟨n, c, hw, hstate, -⟩
    exact ⟨n, hw, hstate⟩
  · rintro ⟨n, hw, hstate⟩
    exact ⟨n, _, hw, hstate, rfl⟩

/-- INTERNAL: what leads past no file can be searched. -/
theorem Represents.passable (h : Represents v t) (hpass : t.PassesNoFile ps) :
    Passable v 0 ps := by
  intro qs m hqs hne hw
  left
  rcases (h.toCore.node m (h.live hw)).kind with hfile | hdir
  · exact absurd (h.isFile_iff.mpr ⟨m, hw, hfile⟩) (hpass qs hqs hne)
  · exact hdir

end Represents

/-! ## The effects -/

section Effects

variable {v w : View} {t : Tree} {front front' ps qs : List (List UInt8)} {x x' : List UInt8}
  {n d d' date : ℕ} {state : UInt8} {F : Set ℕ} {c : List UInt8}

theorem Represents.vacant (h : Represents v t) (hfront : v.tree.walk 0 front = some d)
    (hdir : (v.inode d).state = 2) (hnone : v.tree.lookup d x = none) (hn : ¬ v.live n) :
    t.Vacant (front ++ [x]) n where
  free := by rw [h.node_eq_none, Namespace.walk_concat, hfront, Option.bind_some, hnone]
  parent := ⟨front, x, rfl, h.isDir_iff.mpr ⟨d, hfront, hdir⟩⟩
  unused qs o hqs := hn (h.live (h.node_eq_some.mp hqs).1)

/-- INTERNAL: **a creation inserts an object.** -/
theorem Created.represents (hc : Created v w d x n (newInode state x d date))
    (h : Represents v t) (hfront : v.tree.walk 0 front = some d)
    (hdir : (v.inode d).state = 2) (hnone : v.tree.lookup d x = none)
    (hv : t.Vacant (front ++ [x]) n) :
    Represents w (t.insert (front ++ [x]) n (objectOf w n) hv) := by
  obtain ⟨u, hborn, hlinked⟩ := hc.tree
  have hd := h.live hfront
  have hdn : d ≠ n := fun e => hc.dead (e ▸ hd)
  have hnew : ∀ e ∈ u.entries d, e.1 ≠ x := by
    rw [hborn.entries d hdn]
    exact Namespace.lookup_eq_none_iff.mp hnone
  have hwalk := Namespace.walk_created h.tree hborn hlinked hc.dead hd hfront hnone
  have hobject : ∀ m, v.live m → objectOf w m = objectOf v m := by
    intro m hm
    have hmn : m ≠ n := fun e => hc.dead (e ▸ hm)
    by_cases hmd : m = d
    · rw [hmd, objectOf_dir hdir, objectOf_dir hc.dir]
    · exact objectOf_congr h.toCore hm (by rw [hc.inode m hmn hmd])
        fun hfile => hc.content h.toCore hm hfile hmd
  refine ⟨hc.inv, (h.names.born hborn).linked hlinked ((hborn.live d).mpr (Or.inl hd)) hnew,
    hc.noStrays h.noStrays, fun qs => ?_, fun m hm => ?_⟩
  · rw [hwalk, FileTree.node_insert]
    by_cases hqs : qs = front ++ [x]
    · rw [if_pos hqs, if_pos hqs]
      rfl
    · rw [if_neg hqs, if_neg hqs, h.leads]
      apply Option.map_congr
      intro m hm
      rw [hobject m (h.live hm)]
  · rcases (hborn.live m).mp ((hlinked.live m).mp hm) with hm | rfl
    · obtain ⟨qs, hqs⟩ := h.found m hm
      have hne : qs ≠ front ++ [x] := by
        rintro rfl
        rw [Namespace.walk_concat, hfront, Option.bind_some, hnone] at hqs
        cases hqs
      exact ⟨qs, by rw [hwalk, if_neg hne, hqs]⟩
    · exact ⟨front ++ [x], by rw [hwalk, if_pos rfl]⟩

/-- INTERNAL: **a removal erases what had no entries.** -/
theorem Deleted.represents (hk : Deleted v w d n F) (h : Represents v t)
    (hfront : v.tree.walk 0 front = some d) (hdir : (v.inode d).state = 2)
    (hlookup : v.tree.lookup d x = some n) (hempty : v.tree.entries n = [])
    (hne : front ++ [x] ≠ []) : Represents w (t.erase (front ++ [x]) hne) := by
  obtain ⟨u, hunlinked, hdead⟩ := hk.tree
  have hd := h.live hfront
  have hpath : v.tree.walk 0 (front ++ [x]) = some n := by
    rw [Namespace.walk_concat, hfront, Option.bind_some, hlookup]
  have hwalk := Namespace.walk_removed h.tree h.names hunlinked hdead hd hfront hlookup
  have hobject : ∀ m, v.live m → m ≠ n → objectOf w m = objectOf v m := by
    intro m hm hmn
    by_cases hmd : m = d
    · rw [hmd, objectOf_dir hdir, objectOf_dir hk.dir]
    · exact objectOf_congr h.toCore hm (by rw [hk.inode m hmn hmd]) fun hfile =>
        content_of_held h.toCore hm hfile (by rw [hk.inode m hmn hmd])
          fun r hr => (hk.held m r hmn hmd hr).2
  refine ⟨hk.inv, (h.names.unlinked hunlinked).dead hdead, hk.noStrays h.noStrays,
    fun qs => ?_, fun m hm => ?_⟩
  · rw [hwalk, FileTree.node_erase]
    by_cases hqs : front ++ [x] <+: qs
    · rw [if_pos hqs, if_pos hqs]
      rfl
    · rw [if_neg hqs, if_neg hqs, h.leads]
      apply Option.map_congr
      intro m hm
      have hmn : m ≠ n := by
        rintro rfl
        rw [h.tree.walk_unique hm hpath] at hqs
        exact hqs (List.prefix_refl _)
      rw [hobject m (h.live hm) hmn]
  · obtain ⟨hm, hmn⟩ := (hdead.live m).mp hm
    obtain ⟨qs, hqs⟩ := h.found m ((hunlinked.live m).mp hm)
    refine ⟨qs, ?_⟩
    rw [hwalk, if_neg, hqs]
    -- nothing is below the node that was removed
    rintro ⟨rs, rfl⟩
    rw [Namespace.walk_append, hpath, Option.bind_some] at hqs
    cases rs with
    | nil => exact hmn (Option.some.inj hqs).symm
    | cons y rs =>
      have hnone : v.tree.lookup n y = none := by
        rw [Namespace.lookup_eq_none_iff, hempty]
        simp
      rw [Namespace.walk, hnone] at hqs
      cases hqs

/-- INTERNAL: **a rename moves an object**, with all that is below it. -/
theorem Renamed.represents (hr : Renamed v w d d' x' n) (h : Represents v t)
    (hfront : v.tree.walk 0 front = some d) (hdir : (v.inode d).state = 2)
    (hfront' : v.tree.walk 0 front' = some d') (hdir' : (v.inode d').state = 2)
    (hlookup : v.tree.lookup d x = some n) (hnone : v.tree.lookup d' x' = none)
    (hm : t.Movable (front ++ [x]) (front' ++ [x'])) :
    Represents w (t.move (front ++ [x]) (front' ++ [x']) hm) := by
  obtain ⟨u, hunlinked, hlinked⟩ := hr.tree
  have hd := h.live hfront
  have hd' := h.live hfront'
  have hwalk := Namespace.walk_moved_all h.tree h.names hunlinked hlinked hd hfront hfront' hlookup
    hm.apart hnone
  have hobject : ∀ m, v.live m → objectOf w m = objectOf v m := by
    intro m hm
    apply objectOf_congr h.toCore hm (hr.state m)
    intro hfile
    have hmd : m ≠ d := by
      rintro rfl
      rw [hdir] at hfile
      exact absurd hfile (by decide)
    have hmd' : m ≠ d' := by
      rintro rfl
      rw [hdir'] at hfile
      exact absurd hfile (by decide)
    refine content_of_held h.toCore hm hfile ?_ fun r hheld => (hr.held m r hmd hmd' hheld).2
    by_cases hmn : m = n
    · subst hmn
      exact (hr.file hmd hmd').2
    · rw [hr.inode m hmn hmd hmd']
  have hd'u : u.live d' := (hunlinked.live d').mpr hd'
  have hnew : ∀ e ∈ u.entries d', e.1 ≠ x' := by
    rw [← Namespace.lookup_eq_none_iff,
      hunlinked.lookup h.tree h.names hd hlookup]
    split
    · rfl
    · exact hnone
  have hleads : ∀ rs, (t.move (front ++ [x]) (front' ++ [x']) hm).node rs =
      (w.tree.walk 0 rs).map fun n => (n, objectOf w n) := by
    have hmap : ∀ rs, t.node rs = (v.tree.walk 0 rs).map fun n => (n, objectOf w n) := by
      intro rs
      rw [h.leads]
      apply Option.map_congr
      intro m hm
      rw [hobject m (h.live hm)]
    intro rs
    rw [hwalk, FileTree.node_move, hmap, hmap]
    split
    · rfl
    · split
      · rfl
      · rfl
  refine ⟨hr.inv, (h.names.unlinked hunlinked).linked hlinked hd'u hnew,
    hr.noStrays hdir hdir' h.noStrays, hleads, fun m hmw => ?_⟩
  obtain ⟨qs, hqs⟩ := h.found m ((hunlinked.live m).mp ((hlinked.live m).mp hmw))
  by_cases hold : front ++ [x] <+: qs
  · obtain ⟨rs, rfl⟩ := hold
    refine ⟨front' ++ [x'] ++ rs, ?_⟩
    rw [hwalk, if_pos (List.prefix_append _ _), List.drop_left, hqs]
  · refine ⟨qs, ?_⟩
    rw [hwalk, if_neg, if_neg hold, hqs]
    rintro ⟨rs, rfl⟩
    rw [Namespace.walk_append, Namespace.walk_concat, hfront', Option.bind_some, hnone] at hqs
    cases hqs

/-- INTERNAL: **other contents in one file.** -/
theorem Represents.overwrite (h : Represents v t) (hps : v.tree.walk 0 ps = some n)
    (hfile : (v.inode n).state = 1) (hinv : Inv w none) (htree : w.tree = v.tree)
    (hstate : ∀ m, (w.inode m).state = (v.inode m).state)
    (hothers : ∀ m, m ≠ n → v.live m → (v.inode m).state = 1 → content w m = content v m)
    (hstrays : NoStrays w) : Represents w (t.overwrite ps (content w n)) := by
  refine ⟨hinv, by rw [htree]; exact h.names, hstrays, fun qs => ?_, fun m hm => ?_⟩
  · rw [FileTree.node_overwrite, htree, h.leads]
    by_cases hqs : qs = ps
    · rw [if_pos hqs, hqs, hps, Option.map_some, Option.map_some, Option.map_some,
        objectOf_file hfile, objectOf_file ((hstate n).trans hfile)]
      rfl
    · rw [if_neg hqs]
      apply Option.map_congr
      intro m hm
      have hmn : m ≠ n := by
        rintro rfl
        exact hqs (h.tree.walk_unique hm hps)
      rw [objectOf_congr h.toCore (h.live hm) (hstate m) (hothers m hmn (h.live hm))]
  · rw [htree]
    have hmv : v.tree.live m := by
      rw [← htree]
      exact hm
    exact h.found m hmv

/-! ## The contents of a file -/

/-- INTERNAL: **the bytes after a write**, also one behind the end. -/
theorem content_written {offset : ℕ} {buffer : List UInt8}
    (hw : Written v w n (min offset (v.inode n).fileSize) (offset + buffer.length)
      (writtenByte buffer offset)) :
    content w n = pwriteFill 0 (content v n) offset buffer := by
  rcases le_total offset (v.inode n).fileSize with hle | hge
  · rw [min_eq_left hle] at hw
    rw [pwriteFill_of_le (by rw [length_content]; exact hle)]
    apply hw.content hle
    intro i hi
    rw [writtenByte, if_neg (by omega), sourceByte, Nat.add_sub_cancel_left,
      List.getD_eq_getElem _ _ hi]
  · rw [min_eq_right hge] at hw
    rw [pwriteFill_of_ge (by rw [length_content]; exact hge), length_content]
    have hsize := hw.size
    have hbyte := hw.byte
    rw [max_eq_right (by omega)] at hsize hbyte
    apply content_filled hsize hge
    intro i hi
    rw [hbyte i hi]
    by_cases hold : i < (v.inode n).fileSize
    · rw [if_neg (by omega), if_pos hold]
    · rw [if_pos ⟨by omega, hi⟩, if_neg hold]

/-- INTERNAL: **the bytes after a truncation to a longer file.** SRCLINE: sacio.c:522-529 -/
theorem content_padded {count : ℕ}
    (hw : Written v w n (v.inode n).fileSize ((v.inode n).fileSize + count)
      (writtenByte (padding count) (v.inode n).fileSize)) :
    content w n = resize 65 (content v n) ((v.inode n).fileSize + count) := by
  have hlen : (padding count).length = count := List.length_replicate
  have hfilled : content w n =
      pwriteFill 0 (content v n) (v.inode n).fileSize (padding count) := by
    apply content_written
    rw [min_self, hlen]
    exact hw
  rw [hfilled, pwriteFill_of_ge (by rw [length_content]),
    resize_of_ge (by rw [length_content]; omega), length_content, Nat.sub_self,
    List.replicate_zero, List.append_nil, Nat.add_sub_cancel_left]
  rfl

theorem sizeLeft_le {len s : ℕ} : sizeLeft len s ≤ len := by
  unfold sizeLeft
  split <;> omega

theorem sizeLeft_of_ge {len s : ℕ} (h : s ≤ len) : sizeLeft len s = len := by
  unfold sizeLeft
  rw [if_neg (by omega)]

/-- INTERNAL: **the bytes after a truncation to a shorter file.** SRCLINE: sacio.c:536-552 -/
theorem content_cut {len : ℕ} (hs : Shrunk n v w) (hn : v.live n)
    (hfile : (v.inode n).state = 1) (hlen : len ≤ (v.inode n).fileSize)
    (hw : w = shortened v n len) :
    content w n = resize 65 (content v n) (sizeLeft len (v.inode n).fileSize) := by
  have hle : sizeLeft len (v.inode n).fileSize ≤ (v.inode n).fileSize := sizeLeft_le.trans hlen
  have hsize : (w.inode n).fileSize = sizeLeft len (v.inode n).fileSize := by
    rw [hw]
    rcases hlen.lt_or_eq with hlt | heq
    · rw [shortened, if_pos hlt, cut_inode]
    · rw [shortened_of_le heq.ge, sizeLeft_of_ge heq.ge, heq]
  rw [hs.content hn hfile, hsize, resize_of_le (by rw [length_content]; exact hle)]

/-- INTERNAL: a truncation leaves no pointer behind, unless the last block of the file is the last
one of a pointer block. -/
theorem shortened_noStray {len : ℕ} (h : Core v) (hn : v.live n) (hfile : (v.inode n).state = 1)
    (hstray : NoStray (v.inode n))
    (hlast : len < (v.inode n).fileSize → ((v.inode n).fileSize / 4096 + 1) % 1024 ≠ 0) :
    NoStray ((shortened v n len).inode n) := by
  by_cases hlt : len < (v.inode n).fileSize
  · have hblocks := blocks_file hfile (h.ptr_ne_zero hn hfile (by omega))
    have hleft : blocksLeft len (v.inode n).fileSize ≤
        sizeLeft len (v.inode n).fileSize / 4096 + 2 := by
      unfold blocksLeft sizeLeft
      split_ifs <;> omega
    have hlast := hlast hlt
    rw [shortened, if_pos hlt, cut_inode]
    intro i hi
    dsimp only at hi ⊢
    split
    · rfl
    · apply hstray i
      omega
  · rw [shortened_of_le (by omega)]
    exact hstray

end Effects

end LinuseFs.Analysis
