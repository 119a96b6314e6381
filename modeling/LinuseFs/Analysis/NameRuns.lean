import LinuseFs.Computation.Walks
import LinuseFs.Analysis.Operations

/-!
# Creating and removing names

Runs of `sac_mkdir`, `sac_open`, `sac_rmdir` and `sac_remove`.  No file of such a run ever gets
a block, so that a search that comes to a file finds nothing in it: `search_path` agrees with
the namespace on every path (`Plain`), and the namespace stays a tree.  What one creation does
to it is `CreatesOneName`.
-/

set_option autoImplicit false

namespace LinuseFs.Analysis

open LinuseFs.Computation LinuseFs.Model LinuseFs.Interface

/-- The directory of a path that the kernel sends is a directory, if it is there. -/
structure Placed (v : View) (path : CString) : Prop extends Sent path where
  parent : ∀ d, v.tree.walk 0 (stringSplit path.val).dropLast = some d → (v.inode d).state = 2

/-- The four operations, on such paths. -/
def NameOperation (v : View) : Operation → Prop
  | .mkdir path => Placed v path
  | .open path => Placed v path
  | .rmdir path => Placed v path
  | .remove path => Placed v path
  | _ => False

/-- The namespace is a tree with distinct names, and no file has a block. -/
structure Plain (v : View) : Prop extends Inv v none where
  names : v.tree.DistinctNames
  rooted : v.tree.Rooted 0
  blockless : ∀ n, v.live n → (v.inode n).state = 1 → (v.inode n).ptr 0 = 0

section Plain

variable {v w : View} {d n : ℕ} {name : List UInt8} {path : CString} {state : UInt8} {date : ℕ}
  {F : Set ℕ} {ps : List (List UInt8)}

theorem Fresh.plain (h : Fresh v) : Plain v := by
  obtain ⟨hinv, hnames, hrooted⟩ := h.inv
  refine ⟨hinv, hnames, hrooted, fun n hn hstate => ?_⟩
  obtain rfl := h.live.mp hn
  rw [hinv.root] at hstate
  exact absurd hstate (by decide)

/-- No file has a block. -/
def Blockless (v : View) : Prop :=
  ∀ n, v.live n → (v.inode n).state = 1 → (v.inode n).ptr 0 = 0

/-- INTERNAL: where no file has a block, every path can be passed. -/
theorem Blockless.passable (hb : Blockless v) (h : Inv v none) (hd : v.live d)
    (ps : List (List UInt8)) : Passable v d ps := by
  intro qs m _ _ hwalk
  have hm := h.tree.walk_live hd hwalk
  exact ((h.node m hm).kind.imp_left (hb m hm)).symm

theorem Plain.passable (h : Plain v) (hd : v.live d) (ps : List (List UInt8)) :
    Passable v d ps :=
  Blockless.passable h.blockless h.toInv hd ps

/-- INTERNAL: the directory of a path is there, with what its last piece leads to, or nothing
is. -/
theorem Placed.cases (h : Placed v path) :
    (v.tree.walk 0 (stringSplit path.val).dropLast = none ∧
      v.tree.walk 0 (stringSplit path.val) = none) ∨ Addressed v path := by
  cases hwalk : v.tree.walk 0 (stringSplit path.val).dropLast with
  | none =>
    left
    refine ⟨rfl, ?_⟩
    obtain ⟨front, name, hpath, hslash, hname⟩ := exists_last_piece h.valid h.ne_root
    have hsplit := stringSplit_append front hslash hname
    rw [← hpath] at hsplit
    rw [hsplit, List.dropLast_concat] at hwalk
    rw [hsplit, Namespace.walk_concat, hwalk, Option.bind_none]
  | some d => exact Or.inr ⟨h.toSent, d, hwalk, h.parent d hwalk⟩

theorem Addressed.placed (h : Addressed v path) : Placed v path := by
  refine ⟨h.toSent, fun d hwalk => ?_⟩
  obtain ⟨d', hwalk', hstate⟩ := h.parent
  rw [hwalk'] at hwalk
  cases hwalk
  exact hstate

theorem Created.blockless (hc : Created v w d name n (newInode state name d date))
    (h : Blockless v) : Blockless w := by
  obtain ⟨t, hborn, hlinked⟩ := hc.tree
  intro m hm hstate
  have hmd : m ≠ d := by
    rintro rfl
    rw [hc.dir] at hstate
    exact absurd hstate (by decide)
  by_cases hmn : m = n
  · rw [hmn, hc.node]
    rfl
  · have hmv := ((hborn.live m).mp ((hlinked.live m).mp hm)).resolve_right hmn
    rw [hc.inode m hmn hmd] at hstate ⊢
    exact h m hmv hstate

theorem Deleted.blockless (hk : Deleted v w d n F) (h : Blockless v) : Blockless w := by
  obtain ⟨t, hunlinked, hdead⟩ := hk.tree
  intro m hm hstate
  obtain ⟨hm, hmn⟩ := (hdead.live m).mp hm
  have hmd : m ≠ d := by
    rintro rfl
    rw [hk.dir] at hstate
    exact absurd hstate (by decide)
  rw [hk.inode m hmn hmd] at hstate ⊢
  exact h m ((hunlinked.live m).mp hm) hstate

/-- INTERNAL: **a creation keeps the tree.** -/
theorem Created.plain (hc : Created v w d name n (newInode state name d date)) (h : Plain v)
    (hd : v.live d) (hnone : v.tree.lookup d name = none) : Plain w := by
  obtain ⟨t, hborn, hlinked⟩ := hc.tree
  have hdn : d ≠ n := fun e => hc.dead (e ▸ hd)
  have hnew : ∀ e ∈ t.entries d, e.1 ≠ name := by
    rw [hborn.entries d hdn]
    exact Namespace.lookup_eq_none_iff.mp hnone
  exact ⟨hc.inv, (h.names.born hborn).linked hlinked ((hborn.live d).mpr (Or.inl hd)) hnew,
    h.rooted.created hborn hlinked hd hc.dead, hc.blockless h.blockless⟩

/-- INTERNAL: **a removal of a node without entries keeps the tree.** -/
theorem Deleted.plain (hk : Deleted v w d n F) (h : Plain v) (hd : v.live d)
    (hempty : v.tree.entries n = []) : Plain w := by
  obtain ⟨t, hunlinked, hdead⟩ := hk.tree
  exact ⟨hk.inv, (h.names.unlinked hunlinked).dead hdead,
    h.rooted.removed h.tree hunlinked hdead hd hempty, hk.blockless h.blockless⟩

theorem entries_of_size_zero (hsize : (v.inode n).fileSize = 0) : v.tree.entries n = [] := by
  simp only [View.tree]
  split
  · simp [View.records, hsize]
  · rfl

/-- INTERNAL: **the step lemma** for the four operations. -/
theorem vwp_perform_name {op : Operation} (h : Plain v) (hop : NameOperation v op) :
    vwp op.perform (fun _ w => Plain w) (fun e _ => e.IsAlloc) v := by
  have hpass := h.passable h.toCore.live_root
  cases op with
  | mkdir path =>
    rcases Placed.cases hop with ⟨hnone, -⟩ | haddressed
    · exact vwp_sacMkdir_missing h.toInv hop.valid hop.ne_root (hpass _) hnone h
    · obtain ⟨d, ht, -⟩ := haddressed.target
      exact vwp_sacMkdir h.toInv ht (fun _ => hop.length_last) (fun _ => h)
        (fun hnone w n date hc => hc.plain h (ht.live h.toInv) hnone) fun _ e w he => he.1
  | «open» path =>
    rcases Placed.cases hop with ⟨hnone, -⟩ | haddressed
    · exact vwp_sacOpen_missing h.toInv hop.valid hop.ne_root (hpass _) hnone h
    · obtain ⟨d, ht, -⟩ := haddressed.target
      exact vwp_sacOpen h.toInv ht (fun _ => hop.length_last) (fun _ _ _ => h)
        (fun hnone w n date hc => hc.plain h (ht.live h.toInv) hnone) fun _ e w he => he.1
  | rmdir path =>
    rcases Placed.cases hop with ⟨-, hnone⟩ | haddressed
    · exact vwp_sacRmdir_missing h.toInv hop.valid hop.ne_root (hpass _) hnone h
    · obtain ⟨d, ht, -⟩ := haddressed.target
      exact vwp_sacRmdir h.toInv ht (fun _ => h) (fun _ _ _ _ => h) fun n w _ _ hsize hk =>
        hk.plain h (ht.live h.toInv) (entries_of_size_zero hsize)
  | remove path =>
    rcases Placed.cases hop with ⟨-, hnone⟩ | haddressed
    · exact vwp_sacRemove_missing h.toInv hop.valid (hpass _) hnone h
    · obtain ⟨d, ht, -⟩ := haddressed.target
      exact vwp_sacRemove h.toInv ht (fun _ => h) fun n w _ hstate hk =>
        hk.plain h (ht.live h.toInv) (entries_of_state_ne (by rw [hstate]; decide))
  | rename _ _ => exact hop.elim
  | write _ _ _ => exact hop.elim
  | truncate _ _ => exact hop.elim

/-- INTERNAL: **runs of the four operations keep the tree.** -/
theorem plain_of_run {s t : SacState} {ops : List Operation} (hs : Formatted s)
    (hrun : Run (Step NameOperation) s ops t) : Plain (viewOf t) := by
  apply hrun.invariant (I := fun s => Plain (viewOf s)) (fresh_of_formatted hs).plain
  rintro s op s' h ⟨hop, r, hok⟩
  exact wp_of_ok (Q := fun _ s' => Plain (viewOf s')) (vwp_perform_name h hop s rfl) hok

end Plain

/-! ## The tree -/

/-- The namespace of the nodes in use is a tree: names are distinct and not empty, each entry
leads to a file or directory in use, each node but the root has one entry and records its
directory, and the nodes in use are those that are reached from the root, without cycles. -/
structure IsTree (v : View) : Prop where
  names : ∀ d, v.live d → ((v.tree.entries d).map Prod.fst).Nodup ∧
    ∀ e ∈ v.tree.entries d, e.1 ≠ []
  targets : ∀ d, v.live d → ∀ e ∈ v.tree.entries d,
    v.live e.2 ∧ ((v.inode e.2).state = 1 ∨ (v.inode e.2).state = 2)
  parent : ∀ n, v.live n → n ≠ 0 → ∃ d, v.live d ∧ (v.inode n).parentBlock = 2 + d ∧
    (v.tree.targets d).count n = 1 ∧ ∀ c, v.live c → c ≠ d → n ∉ v.tree.targets c
  reached : ∀ n < 32, v.used (2 + n) = true ↔ Relation.ReflTransGen v.tree.Child 0 n
  acyclic : ∀ n, v.live n → ¬ Relation.TransGen v.tree.Child n n

theorem Plain.isTree {v : View} (h : Plain v) : IsTree v where
  names d hd := by
    refine ⟨h.names d hd, fun e he => ?_⟩
    have hstate : (v.inode d).state = 2 := by
      by_contra hstate
      rw [entries_of_state_ne hstate] at he
      cases he
    rw [entries_dir hd hstate, View.records] at he
    obtain ⟨k, hk, rfl⟩ := List.mem_map.mp he
    obtain ⟨name, hname, hcstr⟩ :=
      ((h.node d hd).dir hstate).name k (List.mem_range.mp hk)
    simpa only [View.record, hcstr, Option.getD_some] using hname
  targets d hd e he := by
    have hlive := h.tree.target_live d hd e.2 (List.mem_map_of_mem he)
    exact ⟨hlive, (h.node _ hlive).kind⟩
  parent n hn hn0 := by
    obtain ⟨hd, hmem⟩ := h.tree.listed n hn hn0 (by simp)
    refine ⟨v.tree.parent n, hd, ?_, List.count_eq_one_of_mem (h.tree.targets_nodup _ hd) hmem, ?_⟩
    · have hge := h.parent n hn hn0
      simp only [View.tree]
      omega
    · intro c hc hne hmem'
      exact hne (h.tree.target_parent c hc n hmem').symm
  reached n hn := by
    refine ⟨fun hused => h.rooted n ⟨hn, hused⟩, fun hreach => ?_⟩
    have hlive : v.live n := by
      cases hreach with
      | refl => exact h.toCore.live_root
      | tail _ hchild => exact h.tree.target_live _ hchild.1 n hchild.2
    exact hlive.2
  acyclic n hn := h.tree.not_below_self (h.rooted n hn)

/-- **The namespace stays a tree** in every run of creations and removals. SRCLINE:
sacio.c:13-150, sacio.c:434-488 -/
theorem namespace_is_tree {s t : SacState} {ops : List Operation} (hs : Formatted s)
    (hrun : Run (Step NameOperation) s ops t) : IsTree (viewOf t) :=
  (plain_of_run hs hrun).isTree

/-- The statement for a run that creates a directory on a new disk. -/
theorem namespace_is_tree_mkdir :
    ∃ t, Run (Step NameOperation) newDisk [.mkdir aPath] t ∧ IsTree (viewOf t) := by
  have hfresh := fresh_of_formatted formatted_newDisk
  have hinv := hfresh.inv.1
  obtain ⟨n, t, date, hok, -⟩ := exists_mkdir hinv (aPath_target hinv.toCore)
    (by decide) (hfresh.lookup_eq_none 0 _) (by decide) hfresh.spare
  have hrun : Run (Step NameOperation) newDisk [.mkdir aPath] t :=
    Run.single ⟨(aPath_addressed hinv.toCore).placed, 0, hok⟩
  exact ⟨t, hrun, namespace_is_tree formatted_newDisk hrun⟩

/-! ## One creation -/

/-- From `s` to `s'` the path got a new empty node `n`, and every other path leads where it
did. -/
structure NewNode (s s' : SacState) (path : CString) (state : UInt8) (n : ℕ) : Prop where
  free : ¬ (viewOf s).live n
  live : (viewOf s').live n
  state_eq : ((viewOf s').inode n).state = state
  empty : ((viewOf s').inode n).fileSize = 0 ∧ ∀ i, ((viewOf s').inode n).ptr i = 0
  parent : ∃ d, leadsTo s (stringSplit path.val).dropLast = some d ∧
    ((viewOf s').inode n).parentBlock = 2 + d
  found : leadsTo s' (stringSplit path.val) = some n
  others : ∀ ps, ps ≠ stringSplit path.val → leadsTo s' ps = leadsTo s ps
  search : SearchAgrees s'

/-- What `sac_mkdir` and `sac_open` do with a path: nothing without its directory, nothing when
it leads somewhere, and a new node otherwise, unless the allocator stops the server. -/
structure CreatesOneName (s : SacState) (path : CString) : Prop where
  search : SearchAgrees s
  missing : leadsTo s (stringSplit path.val).dropLast = none →
    (∃ s', sacMkdir path s = .ok (-1) s' ∧ SamePaths s s') ∧
      ∃ s', sacOpen path s = .ok (-1) s' ∧ SamePaths s s'
  taken : ∀ n : ℕ, leadsTo s (stringSplit path.val) = some n →
    (∃ s', sacMkdir path s = .ok (-1) s' ∧ SamePaths s s') ∧
      ∃ s', sacOpen path s = .ok (n : ℤ) s' ∧ SamePaths s s'
  created : leadsTo s (stringSplit path.val).dropLast ≠ none →
    leadsTo s (stringSplit path.val) = none →
    wp (sacMkdir path) (fun r s' => r = 0 ∧ ∃ n, NewNode s s' path 2 n)
        (fun e _ => e.IsAlloc) s ∧
      wp (sacOpen path) (fun r s' => ∃ n : ℕ, r = n ∧ NewNode s s' path 1 n)
        (fun e _ => e.IsAlloc) s

section CreatesOneName

variable {s s' : SacState} {d n : ℕ} {name : List UInt8} {path : CString} {state : UInt8}
  {date : ℕ}

/-- INTERNAL: `search_path` and the namespace agree. SRCLINE: directory.c:17-37 -/
theorem Plain.searchAgrees (h : Plain (viewOf s)) : SearchAgrees s := by
  intro path
  obtain ⟨e, s', hok, -, hfound⟩ := exists_searchPath h.toInv (h.passable h.toCore.live_root _)
  exact ⟨e, s', hok, hfound⟩

/-- INTERNAL: **a creation as seen from the paths.** -/
theorem Created.newNode
    (hc : Created (viewOf s) (viewOf s') d name n (newInode state name d date))
    (h : Plain (viewOf s)) (ht : Target (viewOf s) path d name)
    (hnone : (viewOf s).tree.lookup d name = none) : NewNode s s' path state n := by
  obtain ⟨t, hborn, hlinked⟩ := hc.tree
  have hd := ht.live h.toInv
  obtain ⟨front, hpath, hfront⟩ := ht.cut
  have hsplit := stringSplit_append front ht.slash_free ht.name_ne
  rw [← hpath] at hsplit
  have hwalk := Namespace.walk_created h.tree hborn hlinked hc.dead hd hfront hnone
  refine ⟨hc.dead, (hlinked.live n).mpr ((hborn.live n).mpr (Or.inr rfl)), by rw [hc.node]; rfl,
    by rw [hc.node]; exact ⟨rfl, fun _ => rfl⟩, ⟨d, ?_, by rw [hc.node]; rfl⟩, ?_, ?_,
    (hc.plain h hd hnone).searchAgrees⟩
  · rw [hsplit, List.dropLast_concat]
    exact hfront
  · rw [leadsTo, hsplit, hwalk, if_pos rfl]
  · intro ps hps
    rw [hsplit] at hps
    rw [leadsTo, hwalk, if_neg hps, leadsTo]

/-- INTERNAL: a file in the root directory, with what is left for more. -/
theorem exists_newNode {k : ℕ} (path : CString) (h : Plain (viewOf s)) (hpath : path.val = slash :: name)
    (hslash : slash ∉ name) (hname : name ≠ []) (hlen : name.length ≤ 70)
    (hnone : leadsTo s (stringSplit path.val) = none) (hspare : Spare (viewOf s) (k + 3)) :
    ∃ (n : ℕ) (s' : SacState), sacOpen path s = .ok (n : ℤ) s' ∧ NewNode s s' path 1 n ∧
      Plain (viewOf s') ∧ Spare (viewOf s') k := by
  have ht := root_target h.toCore hpath hslash hname
  rw [leadsTo, ht.walk] at hnone
  obtain ⟨n, s', date, hok, hc⟩ := exists_open h.toInv ht hlen hnone (by omega) hspare
  exact ⟨n, s', hok, hc.newNode h ht hnone, hc.plain h (ht.live h.toInv) hnone, hc.spare hspare⟩

/-- The path `/a` leads to the file `n`, which has `size` bytes and is well formed. -/
structure OneFile (t : SacState) (n size : ℕ) : Prop extends Inv (viewOf t) none where
  names : (viewOf t).tree.DistinctNames
  found : leadsTo t (stringSplit aPath.val) = some n
  live : (viewOf t).live n
  state : ((viewOf t).inode n).state = 1
  size_eq : ((viewOf t).inode n).fileSize = size
  ptr : ((viewOf t).inode n).ptr 0 ≠ 0
  noStray : NoStray ((viewOf t).inode n)

/-- INTERNAL: such a file, on a new disk; the write has released nothing. -/
theorem exists_oneFile (buffer : List UInt8) (hpos : 0 < buffer.length)
    (hroom : 2 * (buffer.length / 4096 + 1) ≤ 28) : ∃ (n : ℕ) (s t : SacState),
    sacOpen aPath newDisk = .ok (n : ℤ) s ∧
    (Operation.write n buffer 0).perform s = .ok (buffer.length : ℤ) t ∧
    OneFile t n buffer.length ∧
    28 ≤ freeCount t.used 34 3000 + 2 * (buffer.length / 4096) + 2 ∧
    ∀ c, s.used c = true → t.used c = true := by
  have hfresh := fresh_of_formatted formatted_newDisk
  obtain ⟨n, s, hopen, hnew, hplain, hspare⟩ := exists_newNode aPath hfresh.plain rfl
    (by decide) (by decide) (by decide) (hfresh.leadsTo_eq_none (by decide)) hfresh.spare
  have hstray : NoStray ((viewOf s).inode n) := fun i _ => hnew.empty.2 i
  obtain ⟨t, hwrite, hw⟩ := exists_write buffer (k := 28) hplain.toInv hnew.live
    hnew.state_eq (Nat.zero_le _) hstray (by simpa using hroom) hspare
  rw [zero_add] at hw
  have hdir : ((viewOf s).inode n).state ≠ 2 := by
    rw [hnew.state_eq]
    decide
  have htree := hw.grown.tree hplain.toCore hdir
  have hsize : ((viewOf t).inode n).fileSize = buffer.length := by
    rw [hw.size, hnew.empty.1]
    exact Nat.zero_max _
  have hlive := (hw.grown.live n).mpr hnew.live
  have hstate := hw.grown.state.trans hnew.state_eq
  have hinv := hw.grown.inv hplain.toInv hdir
  refine ⟨n, s, t, hopen, hwrite, ⟨hinv, ?_, ?_, hlive, hstate, hsize, fun hzero => ?_,
    hw.noStray hstray⟩, ?_, hw.grown.used⟩
  · rw [htree]
    exact hplain.names
  · rw [leadsTo, htree]
    exact hnew.found
  · have := ((hinv.node n hlive).file hstate).empty hzero
    omega
  · have hcount := hw.count
    have hfirst : firstBlocks ((viewOf s).inode n) ≤ 2 := by
      unfold firstBlocks
      split <;> omega
    have hroom := hspare.2
    have hused : (viewOf t).used = t.used := rfl
    rw [hused] at hcount
    omega

/-- **Creations add exactly one name**, in every state that creations and removals reach.
SRCLINE: sacio.c:13-50, sacio.c:121-150 -/
theorem creates_one_name {t : SacState} {ops : List Operation} (hs : Formatted s)
    (hrun : Run (Step NameOperation) s ops t) (hpath : Placed (viewOf t) path) :
    CreatesOneName t path := by
  have h := plain_of_run hs hrun
  have hpass := h.passable h.toCore.live_root (stringSplit path.val)
  -- what leaves the view as it was changes no path
  have hsame : ∀ {op : CString → Sac ℤ} {r : ℤ},
      vwp (op path) (fun r' w => r' = r ∧ w = viewOf t) (fun _ _ => False) (viewOf t) →
      ∃ s', op path t = .ok r s' ∧ SamePaths t s' := by
    intro op r hwp
    obtain ⟨r', s', hok, rfl, hview⟩ := exists_ok_of_wp (hwp t rfl) fun _ _ hf => hf
    refine ⟨s', hok, fun ps => ?_⟩
    rw [leadsTo, hview, leadsTo]
  refine ⟨h.searchAgrees, fun hnone => ⟨hsame ?_, hsame ?_⟩, fun n hfound => ?_,
    fun hparent hnone => ?_⟩
  · exact vwp_sacMkdir_missing h.toInv hpath.valid hpath.ne_root hpass hnone ⟨rfl, rfl⟩
  · exact vwp_sacOpen_missing h.toInv hpath.valid hpath.ne_root hpass hnone ⟨rfl, rfl⟩
  · rcases hpath.cases with ⟨-, hnone⟩ | haddressed
    · rw [leadsTo, hnone] at hfound
      cases hfound
    · obtain ⟨d, ht, hwalk⟩ := haddressed.target
      rw [leadsTo, hwalk] at hfound
      have hfree : (viewOf t).tree.lookup d ((stringSplit path.val).getLastD []) ≠ none := by
        rw [hfound]
        exact Option.some_ne_none n
      refine ⟨hsame ?_, hsame ?_⟩
      · exact vwp_sacMkdir h.toInv ht (fun _ => hpath.length_last) (fun _ => ⟨rfl, rfl⟩)
          (fun hnone => absurd hnone hfree)
          fun hnone => absurd hnone hfree
      · refine vwp_sacOpen h.toInv ht (fun _ => hpath.length_last) (fun m _ hm => ⟨?_, rfl⟩)
          (fun hnone => absurd hnone hfree) fun hnone => absurd hnone hfree
        rw [hfound] at hm
        rw [Option.some.inj hm]
  · rcases hpath.cases with ⟨hmissing, -⟩ | haddressed
    · exact absurd hmissing hparent
    · obtain ⟨d, ht, hwalk⟩ := haddressed.target
      rw [leadsTo, hwalk] at hnone
      have htaken : ∀ n : ℕ,
          (viewOf t).tree.lookup d ((stringSplit path.val).getLastD []) ≠ some n := by
        intro n hn
        rw [hnone] at hn
        cases hn
      constructor
      · refine wp_mono (vwp_sacMkdir (Q := fun r w => r = 0 ∧ ∃ n date,
          Created (viewOf t) w d _ n (newInode 2 _ d date)) h.toInv ht
          (fun _ => hpath.length_last) (fun hsome => ?_)
          (fun _ w n date hc => ⟨rfl, n, date, hc⟩) (fun _ e _ he => he.1) t rfl) ?_
          fun _ _ he => he
        · rw [hnone] at hsome
          cases hsome
        · rintro r s' ⟨hr, n, date, hc⟩
          exact ⟨hr, n, hc.newNode h ht hnone⟩
      · refine wp_mono (vwp_sacOpen (Q := fun r w => ∃ n : ℕ, r = n ∧ ∃ date,
          Created (viewOf t) w d _ n (newInode 1 _ d date)) h.toInv ht
          (fun _ => hpath.length_last) (fun n _ hn => absurd hn (htaken n))
          (fun _ w n date hc => ⟨n, rfl, date, hc⟩) (fun _ e _ he => he.1) t rfl) ?_ fun _ _ he => he
        rintro r s' ⟨n, hr, date, hc⟩
        exact ⟨n, hr, hc.newNode h ht hnone⟩

/-- The statement on a new disk, for the path `/a`. -/
theorem creates_one_name_new_disk : CreatesOneName newDisk aPath :=
  creates_one_name formatted_newDisk Run.nil
    (aPath_addressed (fresh_of_formatted formatted_newDisk).inv.1.toCore).placed

end CreatesOneName

end LinuseFs.Analysis
