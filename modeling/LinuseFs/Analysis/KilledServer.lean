import LinuseFs.Analysis.TreeRefinement
import Mathlib.Data.List.ReduceOption

/-!
# A server that was killed

A server that is killed has not stored its bitmap, so the next one does not know which blocks are
taken.  The lookups do not ask the bitmap: they are answered as before, by this server and by any
that is started behind it, until a request takes or releases a block.
-/

set_option autoImplicit false

namespace LinuseFs.Analysis

open LinuseFs.Computation LinuseFs.Model LinuseFs.Interface

/-- The state with another bitmap in memory. -/
def withBitmap (bitmap : Bytes) (s : SacState) : SacState := { s with bitmap := bitmap }

/-! ## The lookups overlook the bitmap -/

section Overlooking

variable {bitmap : Bytes} {abi : Abi}

theorem overlooks_load (block pos len : ℕ) :
    Overlooks (withBitmap bitmap) (load block pos len) := by
  apply Overlooks.get_bind
  intro s
  split <;> rfl

theorem overlooks_store (block pos len : ℕ) (src : Bytes) :
    Overlooks (withBitmap bitmap) (store block pos src len) := by
  apply Overlooks.get_bind
  intro s
  split <;> rfl

theorem overlooks_malloc : Overlooks (withBitmap bitmap) malloc := fun _ => rfl

theorem overlooks_bytesToInt32 (block pos : ℕ) :
    Overlooks (withBitmap bitmap) (bytesToInt32 block pos) :=
  (overlooks_load _ _ _).bind fun _ => .pure _

theorem overlooks_checked {α : Type} (x : Option α) :
    Overlooks (withBitmap bitmap) (checked x) := by
  cases x with
  | none => exact .throw _
  | some a => exact .pure _

theorem overlooks_createDefaultPackage (r : ℤ) :
    Overlooks (withBitmap bitmap) (FsSac.createDefaultPackage abi r) := by
  cases abi with
  | ilp32 => exact overlooks_malloc.bind fun _ => .pure _
  | lp64 => exact .throw _

theorem overlooks_blockToNode (block : ℕ) : Overlooks (withBitmap bitmap) (blockToNode block) := by
  apply (overlooks_load _ _ _).bind
  intro bytes
  dsimp only
  split
  · exact .throw _
  · exact overlooks_malloc.bind fun _ => .ite (.pure _) (.throw _)

theorem overlooks_readNode (n : ℕ) : Overlooks (withBitmap bitmap) (readNode n) :=
  (overlooks_blockToNode _).bind fun _ => .pure _

theorem overlooks_unmapAndDestroyNode (node : Node) (block : ℕ) :
    Overlooks (withBitmap bitmap) (unmapAndDestroyNode node block) :=
  (overlooks_load _ _ _).bind fun _ => overlooks_store _ _ _ _

theorem overlooks_pointerAt (node : Node) (i : ℕ) :
    Overlooks (withBitmap bitmap) (node.pointerAt i) := .ite (.pure _) (.throw _)

section Iteration

variable {τ : Type} {process : ProcessEntry τ}

theorem overlooks_readDirectoryEntry (block pos : ℕ) :
    Overlooks (withBitmap bitmap) (readDirectoryEntry block pos) := by
  refine (overlooks_bytesToInt32 _ _).bind fun _ => (overlooks_load _ _ _).bind fun bytes => ?_
  split
  · exact .throw _
  · exact .pure _

theorem overlooks_iterateBytesInBlock (dataBlock : ℕ) (isLast : Bool) (position : DataPosition)
    (n k : ℕ) (result : DirEntry) (acc : τ) : Overlooks (withBitmap bitmap)
      (iterateBytesInBlock process dataBlock isLast position n k result acc) := by
  induction n generalizing k result acc with
  | zero => exact .throw _
  | succ n ih =>
    unfold iterateBytesInBlock
    exact .ite ((overlooks_readDirectoryEntry _ _).bind fun _ => ih _ _ _) (.pure _)

theorem overlooks_iterateBlocks (pointersBlock : ℕ) (isLast : Bool) (position : DataPosition)
    (n j nroBloque : ℕ) (result : DirEntry) (acc : τ) : Overlooks (withBitmap bitmap)
      (iterateBlocks process pointersBlock isLast position n j nroBloque result acc) := by
  induction n generalizing j nroBloque result acc with
  | zero => exact .throw _
  | succ n ih =>
    unfold iterateBlocks
    refine .ite ((overlooks_bytesToInt32 _ _).bind fun _ => ?_) (.pure _)
    exact (overlooks_iterateBytesInBlock _ _ _ _ _ _ _).bind fun _ => ih _ _ _ _

theorem overlooks_iteratePointers (node : Node) (position : DataPosition) (n i : ℕ)
    (result : DirEntry) (acc : τ) : Overlooks (withBitmap bitmap)
      (iteratePointers process node position n i result acc) := by
  induction n generalizing i result acc with
  | zero => exact .throw _
  | succ n ih =>
    unfold iteratePointers
    refine .ite (.pure _) ((overlooks_pointerAt _ _).bind fun _ => .ite ?_ (.pure _))
    exact (overlooks_iterateBlocks _ _ _ _ _ _ _ _).bind fun _ => ih _ _ _

/-- INTERNAL: **the iteration over the records overlooks the bitmap.** SRCLINE:
directory.c:218-237 -/
theorem overlooks_iteratePointersBlocks (node : Node) (acc : τ) :
    Overlooks (withBitmap bitmap) (iteratePointersBlocks process node acc) :=
  (overlooks_iteratePointers _ _ _ _ _ _).bind fun _ => .pure _

end Iteration

theorem overlooks_getEntry (node : Node) (name : List UInt8) :
    Overlooks (withBitmap bitmap) (getEntry node name) :=
  (overlooks_iteratePointersBlocks node ()).bind fun _ => .pure _

/-- INTERNAL: **the search overlooks the bitmap**; the induction is on the pieces. SRCLINE:
directory.c:17-37 -/
theorem overlooks_searchPieces (pieces : List (List UInt8)) (entry : DirEntry) :
    Overlooks (withBitmap bitmap) (searchPieces pieces entry) := by
  induction pieces generalizing entry with
  | nil => exact .pure _
  | cons piece pieces ih =>
    unfold searchPieces
    refine .ite ((overlooks_readNode _).bind fun _ => ?_) (.pure _)
    apply (overlooks_getEntry _ _).bind
    intro _
    exact (overlooks_unmapAndDestroyNode _ _).bind fun _ => ih _

theorem overlooks_searchPath (path : List UInt8) :
    Overlooks (withBitmap bitmap) (searchPath path) := overlooks_searchPieces _ _

/-- INTERNAL: what ends with a node stored back. -/
theorem overlooks_node_back {α : Type} (node : Node) (block : ℕ) (a : α) :
    Overlooks (withBitmap bitmap) (unmapAndDestroyNode node block >>= fun _ => Pure.pure a) :=
  (overlooks_unmapAndDestroyNode _ _).bind fun _ => .pure _

theorem overlooks_getDataBlockFromNode (node : Node) (numBloque : ℕ) :
    Overlooks (withBitmap bitmap) (getDataBlockFromNode abi node numBloque) :=
  (overlooks_pointerAt _ _).bind fun _ => (overlooks_load _ _ _).bind fun _ => .pure _

/-- INTERNAL: **reading overlooks the bitmap**; the induction is on the rounds. SRCLINE:
sacio.c:289-311 -/
theorem overlooks_leerBloques (node : Node) (inicio count : ℕ) (rounds bloque : ℕ) (byte : ℤ)
    (leidos bloques : ℕ) (buffer : List UInt8) : Overlooks (withBitmap bitmap)
      (leerBloques abi node inicio count rounds bloque byte leidos bloques buffer) := by
  induction rounds generalizing bloque byte leidos bloques buffer with
  | zero => exact .throw _
  | succ rounds ih =>
    unfold leerBloques
    refine .ite (.ite (.throw _) ((overlooks_load _ _ _).bind fun _ => ?_)) (.pure _)
    refine .ite (.pure _) (.ite ?_ (ih _ _ _ _ _))
    exact (overlooks_getDataBlockFromNode _ _).bind fun _ => ih _ _ _ _ _

theorem overlooks_sacRead (fd count : ℕ) (offset : ℤ) :
    Overlooks (withBitmap bitmap) (sacRead abi fd count offset) := by
  apply (overlooks_readNode _).bind
  intro _
  refine .ite (overlooks_node_back _ _ _) (.ite (overlooks_node_back _ _ _)
    (.ite (overlooks_node_back _ _ _) ?_))
  apply (overlooks_getDataBlockFromNode _ _).bind
  intro _
  exact (overlooks_leerBloques _ _ _ _ _ _ _ _ _).bind fun _ => overlooks_node_back _ _ _

theorem overlooks_sacStat (path : CString) : Overlooks (withBitmap bitmap) (sacStat path) := by
  refine .ite (.pure _) ((overlooks_searchPath _).bind fun _ => .ite (.pure _) ?_)
  apply (overlooks_readNode _).bind
  intro _
  exact .ite (overlooks_node_back _ _ _) (overlooks_node_back _ _ _)

theorem overlooks_sacReaddir (path : CString) :
    Overlooks (withBitmap bitmap) (sacReaddir path) := by
  refine .ite (.pure _) ((overlooks_searchPath _).bind fun _ => ?_)
  refine (overlooks_readNode _).bind fun _ => .ite (overlooks_node_back _ _ _) ?_
  apply (overlooks_iteratePointersBlocks _ _).bind
  intro _
  exact .ite (.throw _) (overlooks_node_back _ _ _)

/-- INTERNAL: **a request that asks for no operation overlooks the bitmap.** SRCLINE:
fs_sac.c:13-105 -/
theorem overlooks_perform {request : Request} (hnone : operationOf request = none) :
    Overlooks (withBitmap bitmap) (perform abi request) := by
  cases request with
  | close fd => exact overlooks_createDefaultPackage _
  | read fd count offset =>
    refine overlooks_malloc.bind fun _ => (overlooks_sacRead _ _ _).bind fun _ => ?_
    exact .ite (.throw _) (.pure _)
  | stat path =>
    refine (overlooks_sacStat _).bind fun r => (overlooks_createDefaultPackage _).bind fun _ => ?_
    exact .ite ((overlooks_checked _).bind fun _ => .pure _) (.pure _)
  | readdir path =>
    apply (overlooks_createDefaultPackage _).bind
    intro package
    apply (overlooks_sacReaddir _).bind
    intro entries
    cases entries with
    | none => exact .pure _
    | some entries => exact overlooks_malloc.bind fun _ => overlooks_checked _
  | _ => cases hnone

end Overlooking

/-! ## Opening a file that is there -/

section Opening

variable {s : SacState} {v : View} {t : Tree} {path : CString} {bitmap : Bytes} {d n : ℕ}
  {name : List UInt8} {mode : ℤ}

/-- INTERNAL: a name that is found is not created. SRCLINE: file.c:15-33 -/
theorem overlooksAt_createAndSaveFileNode (h : Inv (viewOf s) none) (hd : (viewOf s).live d)
    (hstate : ((viewOf s).inode d).state = 2) (hname : name ≠ [])
    (hfound : (viewOf s).tree.lookup d name ≠ none) :
    OverlooksAt (withBitmap bitmap) (createAndSaveFileNode name d) s := by
  have hread : vwp (readNode d) (fun r w => w = viewOf s ∧ inodeOfNode r.1 = (viewOf s).inode d)
      (fun _ _ => True) (viewOf s) :=
    vwp_readNode hd.1 (h.node _ hd).named fun node hnode => ⟨rfl, hnode⟩
  apply (overlooks_readNode d s).bind_of (hread s rfl)
  rintro ⟨node, block⟩ s' ⟨hview, hnode⟩
  have hdir : DirBlocks (viewOf s) (inodeOfNode node) := by
    rw [hnode]
    exact dirBlocks h.toCore hd hstate
  have hnode_state : node.state = 2 := (congrArg Inode.state hnode).trans hstate
  have hexists : vwp (existsEntry node name) (fun found _ => found = true) (fun _ _ => True)
      (viewOf s) := by
    apply vwp_existsEntry hnode_state hdir hname
    intro e he
    rw [hnode] at he
    rcases he.tree hd hstate hname with ⟨-, hvalid, -⟩ | ⟨hmissing, -, -⟩
    · exact hvalid
    · exact absurd hmissing hfound
  have hoverlooks : Overlooks (withBitmap bitmap) (existsEntry node name) :=
    (overlooks_getEntry _ _).bind fun _ => .pure _
  apply (hoverlooks s').bind_of (hexists s' hview)
  rintro found s'' rfl
  exact ((overlooks_getEntry node name).bind fun entry => overlooks_node_back _ _ _) s''

/-- INTERNAL: **opening a file that is there overlooks the bitmap.** SRCLINE: sacio.c:121-150 -/
theorem overlooksAt_sacOpen (h : Inv (viewOf s) none) (ht : Target (viewOf s) path d name)
    (hfound : (viewOf s).tree.lookup d name ≠ none) :
    OverlooksAt (withBitmap bitmap) (sacOpen path) s := by
  obtain ⟨front, hpath, hwalk⟩ := ht.cut
  obtain ⟨-, hlast, -, hfolder⟩ := cut_at_last_slash front ht.slash_free ht.name_ne
  unfold sacOpen
  rw [if_neg (by simp [ht.valid]), hpath, hfolder, hlast]
  apply (Overlooks.pure _ s).bind_of (R := fun folder s' => folder = front ∧ s' = s) ⟨rfl, rfl⟩
  rintro folder s₁ ⟨hfolder, hs₁⟩
  rw [hfolder, hs₁]
  have hsearch : vwp (searchPath front) (fun e w => w = viewOf s ∧ e.nodeNum = d)
      (fun _ _ => True) (viewOf s) :=
    vwp_searchPath_dir h hwalk fun e hnum _ => ⟨rfl, hnum⟩
  apply (overlooks_searchPath front s).bind_of (hsearch s rfl)
  rintro entry s' ⟨hview, rfl⟩
  split
  · exact Overlooks.pure _ s'
  apply (Overlooks.pure _ s').bind_of (R := fun file u => file = name ∧ u = s') ⟨rfl, rfl⟩
  rintro file s₂ ⟨hfile, hs₂⟩
  rw [hfile, hs₂]
  rw [← hview] at h hfound ht
  have hcreate : OverlooksAt (withBitmap bitmap) (createAndSaveFileNode name entry.nodeNum) s' :=
    overlooksAt_createAndSaveFileNode h (ht.live h) ht.state ht.name_ne hfound
  refine hcreate.bind_of (R := fun _ _ => True) ?_ fun _ s'' _ => Overlooks.pure _ s''
  unfold wp
  split <;> trivial

/-- INTERNAL: opening a file that is there cannot fail. SRCLINE: sacio.c:121-150 -/
theorem Represents.open_found (h : Represents v t) (ht : Target v path d name)
    (hfound : v.tree.lookup d name ≠ none) :
    vwp (perform .ilp32 (.open path mode))
      (fun package w => TreeStep t (.open path mode, package) t ∧ w = v) (fun _ _ => False) v := by
  refine vwp_bind (vwp_sacOpen h.toInv ht (fun hnone => absurd hnone hfound)
    (fun n _ hlookup => vwp_createDefaultPackage fun package hpackage => ⟨?_, rfl⟩)
    (fun hnone => absurd hnone hfound) fun hnone => absurd hnone hfound)
  exact ⟨.number n, .create_found (h.node_eq_some.mpr ⟨ht.walk.trans hlookup, rfl⟩), hpackage⟩

end Opening

/-! ## Runs of lookups and restarts -/

/-- The request takes and releases no block: it changes nothing, or it opens what is there. -/
def LooksUp (t : Tree) : Request → Prop
  | .open path _ => t.node (stringSplit path.val) ≠ none
  | request => operationOf request = none

/-- The disk holds the tree: with the right bitmap it would be the tree. -/
def HoldsTree (s : SacState) (t : Tree) : Prop :=
  ∃ bitmap, Represents (viewOf (withBitmap bitmap s)) t

/-- What happens to a server that is only asked for lookups in the tree: it answers one, or it is
killed and another one is started. -/
def LooksOrRestarts (t : Tree) (s : SacState) (event : Option (Request × Package))
    (s' : SacState) : Prop :=
  match event with
  | some (request, package) =>
    Allowed t request ∧ LooksUp t request ∧ perform .ilp32 request s = .ok package s'
  | none => ∃ bitmap env, loadBitmap (s.restarted bitmap env) = .ok () s'

section Runs

variable {s s' u : SacState} {t t' : Tree} {request : Request} {package : Package}
  {events : List (Request × Package)} {later : List (Option (Request × Package))}

/-- INTERNAL: a lookup leaves the tree as it is. -/
theorem TreeStep.eq_of_looksUp (hstep : TreeStep t (request, package) t') (h : LooksUp t request) :
    t' = t := by
  cases request with
  | «open» path mode =>
    obtain ⟨reply, hstep, -⟩ := hstep
    generalize hcall : (FileTree.Call.create (stringSplit path.val) :
      FileTree.Call ℕ (List UInt8) UInt8) = call at hstep
    cases hstep with
    | create hv =>
      cases hcall
      exact absurd hv.free h
    | create_found _ => rfl
    | create_refused _ _ => rfl
    | _ => cases hcall
  | close fd => exact hstep
  | read fd count offset =>
    obtain ⟨reply, hstep, -⟩ := hstep
    cases hstep
    rfl
  | stat path =>
    obtain ⟨reply, hstep, -⟩ := hstep
    cases hstep <;> rfl
  | readdir path =>
    obtain ⟨reply, hstep, -⟩ := hstep
    cases hstep <;> rfl
  | _ => cases h

/-- INTERNAL: a lookup on the disk with the right bitmap. -/
theorem Represents.looksUp (h : Represents (viewOf s) t) (hallowed : Allowed t request)
    (hlooks : LooksUp t request) (bitmap : Bytes) :
    OverlooksAt (withBitmap bitmap) (perform .ilp32 request) s ∧
      wp (perform .ilp32 request)
        (fun package s' => TreeStep t (request, package) t ∧ Represents (viewOf s') t)
        (fun _ _ => False) s := by
  have hreading (hnone : operationOf request = none)
      (hshort : ∀ v, ¬ ShortOf v t request) :
      OverlooksAt (withBitmap bitmap) (perform .ilp32 request) s ∧
        wp (perform .ilp32 request)
          (fun package s' => TreeStep t (request, package) t ∧ Represents (viewOf s') t)
          (fun _ _ => False) s := by
    refine ⟨overlooks_perform hnone s, wp_mono (vwp_perform_allowed h hallowed s rfl) ?_ ?_⟩
    · rintro package s' ⟨t', hstep, h'⟩
      obtain rfl := hstep.eq_of_looksUp hlooks
      exact ⟨hstep, h'⟩
    · exact fun _ _ he => hshort _ he.2
  cases request with
  | «open» path mode =>
    rcases h.target_or_missing hallowed.2 hallowed.1.ne_root with
      ⟨-, hnone, -⟩ | ⟨front, x, d, -, ht, -⟩
    · exact absurd (h.node_eq_none.mpr hnone) hlooks
    have hfound : (viewOf s).tree.lookup d x ≠ none := by
      rw [← ht.walk]
      exact fun hnone => hlooks (h.node_eq_none.mpr hnone)
    constructor
    · refine (overlooksAt_sacOpen h.toInv ht hfound).bind_of (R := fun _ _ => True) ?_
        fun _ s' _ => overlooks_createDefaultPackage _ s'
      unfold wp
      split <;> trivial
    · refine wp_mono (h.open_found ht hfound s rfl) ?_ fun _ _ hf => hf
      rintro package s' ⟨hstep, hview⟩
      exact ⟨hstep, hview.symm ▸ h⟩
  | close _ | read _ _ _ | stat _ | readdir _ => exact hreading hlooks fun _ => id
  | _ => cases hlooks

/-- INTERNAL: **the step lemma**: whatever its bitmap says, a server answers a lookup as the tree
on its disk. SRCLINE: server.c:102-161 -/
theorem HoldsTree.wp_perform (h : HoldsTree s t) (hallowed : Allowed t request)
    (hlooks : LooksUp t request) :
    wp (perform .ilp32 request)
      (fun package s' => TreeStep t (request, package) t ∧ HoldsTree s' t)
      (fun _ _ => False) s := by
  obtain ⟨bitmap, h⟩ := h
  obtain ⟨hoverlooks, hwp⟩ := h.looksUp hallowed hlooks s.bitmap
  have hback : withBitmap s.bitmap (withBitmap bitmap s) = s := rfl
  rw [← hback]
  refine hoverlooks.wp (wp_mono hwp ?_ fun _ _ hf => hf)
  rintro package s' ⟨hstep, h'⟩
  exact ⟨hstep, s'.bitmap, h'⟩

/-- INTERNAL: loading a bitmap leaves the tree on the disk. SRCLINE: sac.c:113-118 -/
theorem HoldsTree.restart (h : HoldsTree s t) {bitmap : Bytes} {env : Env}
    (hload : loadBitmap (s.restarted bitmap env) = .ok () s') : HoldsTree s' t := by
  obtain ⟨old, h⟩ := h
  have hdisk : s'.disk = s.disk := (used_of_loaded hload).1
  refine ⟨old, ?_⟩
  have hview : viewOf (withBitmap old s') = viewOf (withBitmap old s) := by
    simp only [viewOf, withBitmap, hdisk]
    rfl
  rw [hview]
  exact h

/-- INTERNAL: **what was asked among the restarts is a run of the tree**, where each answer is a
step of it and both keep what the answers rest on. -/
theorem run_among_restarts {I : SacState → Prop}
    {step : SacState → Option (Request × Package) → SacState → Prop}
    (hanswers : ∀ s event s', I s → step s (some event) s' → TreeStep t event t ∧ I s')
    (hrestarts : ∀ s s', I s → step s none s' → I s') (hs : I s) (hlater : Run step s later u) :
    I u ∧ Run TreeStep t later.reduceOption t := by
  refine hlater.induct (I := fun later u => I u ∧ Run TreeStep t later.reduceOption t)
    ⟨hs, Run.nil⟩ ?_
  rintro later u event u' ⟨hu, hrun⟩ hevent
  cases event with
  | none =>
    refine ⟨hrestarts _ _ hu hevent, ?_⟩
    simpa [List.reduceOption_append] using hrun
  | some event =>
    obtain ⟨hstep, hu'⟩ := hanswers _ _ _ hu hevent
    refine ⟨hu', ?_⟩
    rw [List.reduceOption_append]
    exact hrun.snoc hstep

theorem HoldsTree.run (h : HoldsTree s t) (hlater : Run (LooksOrRestarts t) s later u) :
    HoldsTree u t ∧ Run TreeStep t later.reduceOption t := by
  refine run_among_restarts (I := fun s => HoldsTree s t) ?_ ?_ h hlater
  · rintro s event s' hs ⟨hallowed, hlooks, hok⟩
    exact wp_of_ok (Q := fun package s' => TreeStep t (event.1, package) t ∧ HoldsTree s' t)
      (hs.wp_perform hallowed hlooks) hok
  · rintro s s' hs ⟨bitmap, env, hload⟩
    exact hs.restart hload

/-- **Lookups survive a kill.**  After any run of requests from a formatted disk the server may be
killed and started again at any time, also between the lookups that follow: they are answered as
the tree says that the requests have left, and each one that it allows is answered. SRCLINE:
sac.c:12-32, 113-118, sacio.c:121-150, 248-381 -/
theorem lookups_survive_kill (hs : Formatted s) (hrun : Run Performs s events s') :
    ∃ t, Run TreeStep (FileTree.empty 0) events t ∧
      ∀ later u, Run (LooksOrRestarts t) s' later u →
        Run TreeStep t later.reduceOption t ∧
          ∀ request, Allowed t request → LooksUp t request →
            ∃ package u', perform .ilp32 request u = .ok package u' ∧
              TreeStep t (request, package) t := by
  obtain ⟨t, htree, h⟩ := exists_tree_run (fresh_of_formatted hs).represents hrun
  refine ⟨t, htree, fun later u hlater => ?_⟩
  have hholds : HoldsTree s' t := ⟨s'.bitmap, h⟩
  obtain ⟨hu, hlookups⟩ := hholds.run hlater
  refine ⟨hlookups, fun request hallowed hlooks => ?_⟩
  obtain ⟨package, u', hok, hstep, -⟩ :=
    exists_ok_of_wp (hu.wp_perform hallowed hlooks) fun _ _ hf => hf
  exact ⟨package, u', hok, hstep⟩

/-- The statement for one directory on a new disk. -/
theorem lookups_survive_kill_mkdir : ∃ s package t,
    Run TreeStep (FileTree.empty 0) [(.mkdir aPath 0, package)] t ∧
      ∀ later u, Run (LooksOrRestarts t) s later u →
        Run TreeStep t later.reduceOption t ∧
          ∀ request, Allowed t request → LooksUp t request →
            ∃ package u', perform .ilp32 request u = .ok package u' ∧
              TreeStep t (request, package) t := by
  obtain ⟨s, package, -, -, -, hperforms, -⟩ := exists_performs_mkdir
  exact ⟨s, package, lookups_survive_kill formatted_newDisk (Run.single hperforms)⟩

end Runs

end LinuseFs.Analysis
