import LinuseFs.Analysis.ThreadSteps
import LinuseFs.Analysis.RenameEffect

/-!
# Creations at the same time

Nothing keeps two requests from reading the node of one directory before either has written it
back, and then the second write-back undoes the first.  When no request reads the node while
another one is between its read and its write-back, every creation is listed in the end.
-/

set_option autoImplicit false

namespace LinuseFs.Analysis

open LinuseFs.Computation LinuseFs.Model LinuseFs.Interface

/-! ## The directory between two creations -/

/-- The disk after the requests of `D` have created their entries of `d` on the disk `v₀`. -/
structure Listing {ι : Type} (v₀ : View) (d : ℕ) (name : ι → List UInt8) (D : Set ι) (v : View) :
    Prop where
  inv : Inv v none
  live : v.live d
  state : (v.inode d).state = 2
  kept : Kept v₀ d v
  listed : ∀ i, (v.tree.lookup d (name i)).isSome ↔ i ∈ D
  fresh : ∀ i n, v.tree.lookup d (name i) = some n → ¬ v₀.live n

section Listing

variable {ι : Type} {v₀ v u : View} {d n : ℕ} {name : ι → List UInt8} {nd : Inode} {D : Set ι} {i : ι}

/-- INTERNAL: a creation leaves the other nodes as they are. -/
theorem Created.kept {x : List UInt8} (hc : Created v u d x n nd) : Kept v d u := by
  have hne : ∀ m, v.live m → m ≠ n := by
    rintro m hm rfl
    exact hc.dead hm
  obtain ⟨t, hborn, hlinked⟩ := hc.tree
  refine ⟨fun m _ hm => ?_, fun m hmd hm => hc.inode m (hne m hm) hmd,
    fun m r hmd hr => (hc.held m r hmd hr).2.2⟩
  exact (hlinked.live m).mpr ((hborn.live m).mpr (Or.inl hm))

/-- INTERNAL: what a creation adds to the directory. -/
theorem Created.lookup {x : List UInt8} (hc : Created v u d x n nd) (hd : v.live d)
    (hnone : v.tree.lookup d x = none) (y : List UInt8) :
    u.tree.lookup d y = if y = x then some n else v.tree.lookup d y := by
  have hdn : d ≠ n := by
    rintro rfl
    exact hc.dead hd
  obtain ⟨t, hborn, hlinked⟩ := hc.tree
  rw [hlinked.lookup, hborn.lookup hdn, hborn.lookup hdn, hnone, Option.none_or]
  simp

/-- INTERNAL: **one more creation.** -/
theorem Listing.insert (h : Listing v₀ d name D v) (h₀ : Core v₀) (hname : Function.Injective name)
    (hi : i ∉ D) (hc : Created v u d (name i) n nd) : Listing v₀ d name (insert i D) u := by
  have hnone : v.tree.lookup d (name i) = none := by
    rw [← Option.not_isSome_iff_eq_none, h.listed]
    exact hi
  have hlookup := hc.lookup h.live hnone
  have hkept := hc.kept
  obtain ⟨t, hborn, hlinked⟩ := hc.tree
  refine ⟨hc.inv, (hlinked.live d).mpr ((hborn.live d).mpr (Or.inl h.live)), hc.dir,
    h.kept.trans hkept h₀, fun j => ?_, fun j m hm => ?_⟩
  · rw [hlookup, Set.mem_insert_iff]
    by_cases hji : j = i
    · rw [if_pos (congrArg name hji)]
      simp [hji]
    · rw [if_neg fun e => hji (hname e), h.listed]
      simp [hji]
  · rw [hlookup] at hm
    by_cases hji : j = i
    · rw [if_pos (congrArg name hji)] at hm
      obtain rfl := Option.some.inj hm
      intro hlive
      have hmd : n ≠ d := by
        rintro rfl
        exact hc.dead h.live
      exact hc.dead (h.kept.live n hmd hlive)
    · rw [if_neg fun e => hji (hname e)] at hm
      exact h.fresh j m hm

end Listing

/-! ## One request -/

section Client

variable {ι : Type} {v₀ : View} {d : ℕ} {name : ι → List UInt8} {i : ι} {path : CString}

/-- INTERNAL: the helpers cut a path at its last slash. SRCLINE: directory.c:298-305,
utils.c:219-240 -/
theorem threaded_cut (front : List UInt8) {x : List UInt8} (hslash : slash ∉ x) (hx : x ≠ []) :
    Threaded.getNewDirNameFromPath (front ++ slash :: x) = pure x ∧
      Threaded.getFileNameFromFilePath (front ++ slash :: x) = pure x ∧
      Threaded.getFolderPathFromFilePath (front ++ slash :: x) = pure front := by
  obtain ⟨hlast, -, hfolder⟩ := pieces_at_last_slash front hslash hx
  refine ⟨?_, ?_, ?_⟩
  · rw [Threaded.getNewDirNameFromPath, hlast]
  · rw [Threaded.getFileNameFromFilePath, hlast]
  · rw [Threaded.getFolderPathFromFilePath, hlast]
    simp only [hfolder]

/-- INTERNAL: the search for the directory, before the rest of a request. SRCLINE:
directory.c:17-37 -/
theorem client_searchPath {P : Set ι → View → Prop} {α : Type} {f : DirEntry → Thread α}
    (h₀ : Inv v₀ none) {p : List UInt8} (hwalk : v₀.tree.walk 0 (stringSplit p) = some d)
    (hf : ∀ e, e.nodeNum = d → isValidEntry e = true → (meetingAt v₀ d).Client P i (f e)) :
    (meetingAt v₀ d).Client P i (Threaded.searchPath p >>= f) := by
  have hps : ∀ q ∈ stringSplit p, q ≠ [] := by
    intro q hq
    have := (List.mem_filter.mp hq).2
    simpa using this
  refine Meeting.Quietly.client (quietly_searchPieces h₀ (h₀.tree.walk_child h₀.live_root hwalk) _
    h₀.live_root (by decide) hps hwalk) fun e he => hf e he.1 he.2

/-- INTERNAL: the read of the directory's node, with which the section begins. SRCLINE:
node.c:16-21 -/
theorem client_readNode {α : Type} {f : Node × ℕ → Thread α}
    (hf : ∀ D v node, i ∉ D → Listing v₀ d name D v → inodeOfNode node = v.inode d →
      (meetingAt v₀ d).Inside (Listing v₀ d name (insert i D)) (f (node, 2 + d)) v) :
    (meetingAt v₀ d).Client (Listing v₀ d name) i (Threaded.readNode d >>= f) := by
  apply Meeting.client_enter (l := DiskStep.readNode d) (beq_self_eq_true d)
  intro D v hi hP
  show vwp (readNode d) (fun x w => w = v ∧
    (meetingAt v₀ d).Inside (Listing v₀ d name (insert i D)) (f x) v) (fun _ _ => True) v
  exact vwp_readNode hP.live.1 (hP.inv.node d hP.live).named fun node hnode =>
    ⟨rfl, hf D v node hi hP hnode⟩

/-- INTERNAL: **`sac_mkdir`** up to its section and through it. SRCLINE: sacio.c:13-50 -/
theorem client_sacMkdir (h₀ : Inv v₀ none) (hname : Function.Injective name)
    (ht : Target v₀ path d (name i)) :
    (meetingAt v₀ d).Client (Listing v₀ d name) i (Threaded.sacMkdir path) := by
  obtain ⟨front, hpath, hwalk⟩ := ht.cut
  obtain ⟨hlast, -, -⟩ := threaded_cut front ht.slash_free ht.name_ne
  obtain ⟨-, hpre, -⟩ := pieces_at_last_slash front ht.slash_free ht.name_ne
  unfold Threaded.sacMkdir
  rw [if_neg (by simp [ht.valid]), hpath, hlast]
  refine Meeting.Quietly.client (Q := fun x => x = name i) rfl ?_
  rintro _ rfl
  dsimp only
  rw [hpre]
  apply client_searchPath h₀ (by rw [stringSplit_slash]; exact hwalk)
  intro e he hvalid
  rw [if_pos hvalid, he]
  apply client_readNode
  intro D v node hi hP hnode
  have hmissing : v.tree.lookup d (name i) = none := by
    rw [← Option.not_isSome_iff_eq_none, hP.listed]
    exact hi
  refine Meeting.Stepwise.inside (stepwise_existsEntry hP.inv.toCore hP.kept hP.live hP.state hnode
    ht.name_ne hmissing ?_)
  rw [if_neg (by decide)]
  refine Meeting.Stepwise.inside (stepwise_createDirNodeAndAddEntry hP.inv
    (fun u hu => hP.kept.trans hu h₀.toCore) hP.live hP.state hnode ht.name_ne ht.nul_free
    fun node' w n date hfits hc => ?_)
  exact inside_writeBack 0 hP.live.1 hfits (hP.insert h₀.toCore hname hi hc)

/-- INTERNAL: **`sac_open`** up to its section and through it. SRCLINE: sacio.c:121-150,
file.c:15-51 -/
theorem client_sacOpen (h₀ : Inv v₀ none) (hname : Function.Injective name)
    (ht : Target v₀ path d (name i)) :
    (meetingAt v₀ d).Client (Listing v₀ d name) i (Threaded.sacOpen path) := by
  obtain ⟨front, hpath, hwalk⟩ := ht.cut
  obtain ⟨-, hlast, hfolder⟩ := threaded_cut front ht.slash_free ht.name_ne
  unfold Threaded.sacOpen
  rw [if_neg (by simp [ht.valid]), hpath, hfolder, hlast]
  refine Meeting.Quietly.client (Q := fun x => x = front) rfl ?_
  rintro _ rfl
  apply client_searchPath h₀ hwalk
  intro e he hvalid
  rw [if_neg (by simp [hvalid]), he]
  refine Meeting.Quietly.client (Q := fun x => x = name i) rfl ?_
  rintro _ rfl
  refine Meeting.Client.map (client_readNode fun D v node hi hP hnode => ?_) _
  have hmissing : v.tree.lookup d (name i) = none := by
    rw [← Option.not_isSome_iff_eq_none, hP.listed]
    exact hi
  have hcalm : ∀ u, Kept v d u → Kept v₀ d u := fun u hu => hP.kept.trans hu h₀.toCore
  have hv := Kept.refl v d
  refine Meeting.Stepwise.inside (stepwise_existsEntry hP.inv.toCore hP.kept hP.live hP.state hnode
    ht.name_ne hmissing ?_)
  rw [if_neg (by decide)]
  refine Meeting.Stepwise.inside (stepwise_newNode hP.kept ht.nul_free
    fun new date hlen hdate hnew => ?_)
  have hfits : (inodeOfNode new).Fits := by
    rw [hnew]
    exact newInode_fits (name i) 1 hP.live.1 hdate
  refine Meeting.Stepwise.inside (stepwise_getFreeNodeBlock hP.kept fun n hn hfree => ?_)
  have hdead : ¬ v.live n := fun hl => by
    rw [hl.2] at hfree
    cases hfree
  have hnd : n ≠ d := fun e => hdead (e ▸ hP.live)
  have hslot : 2 + n - nodeTableInitialBlock = n := Nat.add_sub_cancel_left 2 n
  dsimp only
  rw [hslot, readBlock_of_lt (show 2 + n < 3000 by omega)]
  have hkept := (hv.setUsed (2 + n)).setInode (Or.inr hdead) (inodeOfNode new)
  refine Meeting.Stepwise.inside (stepwise_nodeToBlock hn hnd hfits (hcalm _ hkept) ?_)
  rw [hnew]
  refine Meeting.Stepwise.inside (stepwise_addNewEntry hP.inv hcalm hP.live hP.state hnode ht.name_ne
    ht.nul_free hlen hn hfree hdate (Or.inl rfl) fun node' w hfits' hw hc => ?_)
  have hself : w.setInode n (inodeOfNode new) = w := by rw [hnew, ← hw, View.setInode_self]
  refine Meeting.Stepwise.inside (stepwise_nodeToBlock hn hnd hfits ?_ ?_)
  · rw [hself]
    exact hcalm _ hc.kept.of_setInode
  · rw [hself]
    exact inside_writeBack _ hP.live.1 hfits' (hP.insert h₀.toCore hname hi hc)

end Client

/-! ## All of them -/

/-- The requests create the names `name` in the directory `d` of the disk `v`: it is there, and the
names are new and pairwise distinct. -/
structure Creating {ι : Type} (v : View) (d : ℕ) (name : ι → List UInt8) (request : ι → CreateRequest) :
    Prop where
  inv : Inv v none
  target : ∀ i, Target v (request i).path d (name i)
  distinct : Function.Injective name
  missing : ∀ i, v.tree.lookup d (name i) = none

/-- From `v` to `w` the directory `d` has got all the names, each leading to a node block of its own
that was free. -/
def AllListed {ι : Type} (v w : View) (d : ℕ) (name : ι → List UInt8) : Prop :=
  ∃ node : ι → ℕ, Function.Injective node ∧
    ∀ i, w.tree.lookup d (name i) = some (node i) ∧ w.live (node i) ∧ ¬ v.live (node i)

section Creating

variable {ι : Type} {v : View} {d : ℕ} {name : ι → List UInt8} {request : ι → CreateRequest}
  {s : SacState} {as : List (ι × DiskStep)} {c : SacState × (ι → Thread ℤ)}

theorem Creating.listing [Nonempty ι] (h : Creating v d name request) : Listing v d name ∅ v := by
  obtain ⟨i⟩ := ‹Nonempty ι›
  refine ⟨h.inv, (h.target i).live h.inv, (h.target i).state, Kept.refl v d, fun i => ?_,
    fun i n hn => ?_⟩
  · simp [h.missing i]
  · rw [h.missing i] at hn
    cases hn

theorem Creating.client (h : Creating v d name request) (i : ι) :
    (meetingAt v d).Client (Listing v d name) i (request i).thread := by
  have ht := h.target i
  cases hrequest : request i with
  | sacMkdir path =>
    rw [hrequest] at ht
    exact client_sacMkdir h.inv h.distinct ht
  | sacOpen path =>
    rw [hrequest] at ht
    exact client_sacOpen h.inv h.distinct ht

/-- INTERNAL: two names lead to two nodes. -/
theorem Listing.allListed {w : View} (h : Listing v d name Set.univ w)
    (hname : Function.Injective name) : AllListed v w d name := by
  have hfound : ∀ i, ∃ n, w.tree.lookup d (name i) = some n := by
    intro i
    exact Option.isSome_iff_exists.mp ((h.listed i).mpr (Set.mem_univ i))
  choose node hnode using hfound
  have hmem := fun i => Namespace.lookup_eq_some (hnode i)
  refine ⟨node, fun i j hij => ?_, fun i => ⟨hnode i, ?_, h.fresh i _ (hnode i)⟩⟩
  · have heq := List.inj_on_of_nodup_map (h.inv.tree.targets_nodup d h.live) (hmem i) (hmem j) hij
    exact hname (congrArg Prod.fst heq)
  · exact h.inv.tree.target_live d h.live _ (Namespace.mem_targets_of_lookup (hnode i))

/-- **No creation is lost** in a run in which no request reads the directory's node while another
one is between its read and its write-back: once all have answered, all the names are listed, and
their nodes are pairwise different. SRCLINE: server.c:74-112, sacio.c:13-50, sacio.c:121-150 -/
theorem creations_listed [DecidableEq ι] (h : Creating (viewOf s) d name request)
    (hrun : Run (Steps.Turn DiskStep.exec) (s, fun i => (request i).thread) as c)
    (hanswer : ∀ i, ∃ r, 0 ≤ r ∧ c.2 i = .done r)
    (has : (meetingAt (viewOf s) d).Exclusive as) :
    AllListed (viewOf s) (viewOf c.1) d name := by
  rcases isEmpty_or_nonempty ι with hempty | hnonempty
  · exact ⟨fun i => hempty.elim i, fun i => hempty.elim i, fun i => hempty.elim i⟩
  · have hdone : ∀ i, ∃ r, c.2 i = .done r := fun i => (hanswer i).imp fun r hr => hr.2
    exact (Meeting.exclusive_sections (M := meetingAt (viewOf s) d) (fun D v hP => hP.kept)
      h.listing h.client hrun has hdone).allListed h.distinct

end Creating

/-! ## Two directories -/

/-- The requests `mkdir /a` and `mkdir /b`. -/
def twoRequests (i : Bool) : CreateRequest := .sacMkdir (if i then bPath else aPath)

/-- Their names. -/
def twoNames (i : Bool) : List UInt8 := if i then [98] else [97]

section Two

variable {v w : View} {s : SacState} {node : Node}

theorem bPath_target (h : Core v) : Target v bPath 0 [98] :=
  root_target h rfl (by decide) (by decide)

theorem creating_two : Creating (viewOf newDisk) 0 twoNames twoRequests := by
  have hfresh := fresh_of_formatted formatted_newDisk
  have hinv := hfresh.plain.toInv
  refine ⟨hinv, fun i => ?_, by decide, fun i => hfresh.lookup_eq_none 0 _⟩
  cases i
  · exact aPath_target hinv.toCore
  · exact bPath_target hinv.toCore

/-- The statement for `/a`, and `/b` after it. -/
theorem creations_listed_two : ∃ (as : List (Bool × DiskStep)) (c : SacState × (Bool → Thread ℤ)),
    Run (Steps.Turn DiskStep.exec) (newDisk, fun i => (twoRequests i).thread) as c ∧
      (∀ i, ∃ r, 0 ≤ r ∧ c.2 i = .done r) ∧ (meetingAt (viewOf newDisk) 0).Exclusive as ∧
        AllListed (viewOf newDisk) (viewOf c.1) 0 twoNames := by
  have hfresh := fresh_of_formatted formatted_newDisk
  have hinv := hfresh.plain.toInv
  obtain ⟨n, s₁, date, hok₁, hc₁⟩ := exists_mkdir hinv (aPath_target hinv.toCore) (by decide)
    (hfresh.lookup_eq_none 0 _) (by omega) hfresh.spare
  have hmissing : (viewOf s₁).tree.lookup 0 [98] = none := by
    rw [hc₁.lookup hinv.live_root (hfresh.lookup_eq_none 0 _), if_neg (by decide)]
    exact hfresh.lookup_eq_none 0 _
  obtain ⟨m, s₂, date', hok₂, hc₂⟩ := exists_mkdir hc₁.inv (bPath_target hc₁.inv.toCore) (by decide)
    hmissing (k := 28) (by omega) (hc₁.spare hfresh.spare)
  rw [← Threaded.run_sacMkdir] at hok₁ hok₂
  obtain ⟨as₁, hrun₁, hall₁⟩ := Steps.exists_run_alone (i := false)
    (t := fun i => (twoRequests i).thread) rfl hok₁
  obtain ⟨as₂, hrun₂, hall₂⟩ := Steps.exists_run_alone (i := true)
    (t := Function.update (fun i => (twoRequests i).thread) false (.done 0)) rfl hok₂
  have hcalm : ∀ D v, Listing (viewOf newDisk) 0 twoNames D v → Kept (viewOf newDisk) 0 v :=
    fun D v hP => hP.kept
  have hstart := Meeting.underway_start (M := meetingAt (viewOf newDisk) 0) (s := newDisk) hcalm
    creating_two.listing creating_two.client
  obtain ⟨hex, hnone, D, hD⟩ :=
    Meeting.Underway.alone hcalm hstart Meeting.exclusive_nil rfl hrun₁ hall₁ rfl
  obtain ⟨hex', -, -⟩ := hD.alone hcalm hex hnone hrun₂ hall₂ rfl
  have hrun := hrun₁.append hrun₂
  have hanswer : ∀ i, ∃ r, 0 ≤ r ∧ Function.update (Function.update
      (fun i => (twoRequests i).thread) false (.done 0)) true (.done 0) i = .done r := by
    intro i
    cases i <;> exact ⟨0, le_rfl, rfl⟩
  exact ⟨as₁ ++ as₂, _, hrun, hanswer, hex', creations_listed creating_two hrun hanswer hex'⟩

/-! ### The lost one -/

/-- `sac_mkdir` in the root directory from the read of its node on. -/
def mkdirAtRoot (name : List UInt8) (x : Node × ℕ) : Thread ℤ := do
  let exists_ ← Threaded.existsEntry x.1 name
  if exists_ then do
    Threaded.unmapAndDestroyNode x.1 x.2
    return -1
  else do
    let node ← Threaded.createDirNodeAndAddEntry x.1 0 name
    Threaded.unmapAndDestroyNode node x.2
    return 0

theorem sacMkdir_root {path : CString} {name : List UInt8} (hvalid : isValidPath path.val = true)
    (hpath : path.val = slash :: name) (hslash : slash ∉ name) (hname : name ≠ []) :
    Threaded.sacMkdir path = Threaded.readNode 0 >>= mkdirAtRoot name := by
  obtain ⟨hlast, -, -⟩ := threaded_cut [] hslash hname
  obtain ⟨-, hpre, -⟩ := pieces_at_last_slash [] hslash hname
  unfold Threaded.sacMkdir
  rw [if_neg (by simp [hvalid]), hpath, ← List.nil_append (slash :: name), hlast]
  show (Threaded.searchPath (getPreDirPathFromPath ([] ++ slash :: name) name) >>= _) = _
  rw [hpre, Threaded.searchPath, stringSplit_slash]
  rfl

/-- INTERNAL: a creation with a copy of the node from when the directory was empty. SRCLINE:
directory.c:40-56, directory.c:194-213 -/
theorem vwp_addDirectoryEntry_stale {Q : Node → View → Prop} {n : ℕ} {name : List UInt8}
    (hptr : node.indirectPointerBlock 0 = 0) (hsize : node.fileSize = 0)
    (hfits : (inodeOfNode node).Fits) (hlen : name.length < 124)
    (hfree : 2 ≤ freeCount v.used 34 3000)
    (hQ : ∀ node' w, (inodeOfNode node').Fits → node'.fileSize = 128 → Q node' w) :
    vwp (addDirectoryEntry node name n) Q (fun _ _ => False) v := by
  refine vwp_bind (vwp_malloc fun stack => ?_)
  have hposition : getNextWritePosition node = ⟨0, 0, 0⟩ := by
    simp only [getNextWritePosition, hsize, Nat.zero_div, Nat.zero_mod]
  rw [if_pos hlen, hposition]
  unfold readNextDataBlock
  refine vwp_bind (vwp_bind (vwp_pointerAt (by decide) ?_))
  rw [if_pos hptr]
  refine vwp_bind (vwp_createPointersBlockInNode (by decide) (fun y hy hy' _ _ => ?_)
    fun e _ hzero => by omega)
  have hptr' : Function.update node.indirectPointerBlock 0 y 0 = y := Function.update_self ..
  have hstep := v.freeCount_setUsed y 34 3000
  refine vwp_bind (vwp_createDataBlockInPointerBlock (by decide) (by decide)
    (by dsimp only; rw [hptr']; exact hy) (by dsimp only; rw [hptr']; exact hy')
    (fun x hx hx' _ _ => ?_) fun e _ hzero => by omega)
  apply vwp_pure
  dsimp only
  rw [readBlock_of_lt hx']
  refine vwp_bind (vwp_store hx hx' (by omega) (vwp_bind (vwp_store hx hx' (by omega) (vwp_pure ?_))))
  have hgrown : u32 ((node.fileSize : ℤ) + 128) = 128 := by rw [hsize]; rfl
  rw [hgrown]
  refine hQ _ _ ?_ rfl
  exact { hfits with
    fileSize := show 128 < 2 ^ 32 by decide
    ptr := fun i => by
      simp only [inodeOfNode, Function.update_apply]
      split
      · omega
      · exact hfits.ptr i
    ptr_past := fun i hi => by
      simp only [inodeOfNode, Function.update_apply]
      rw [if_neg (by omega)]
      exact hfits.ptr_past i hi }

/-- INTERNAL: the rest of `sac_mkdir` then gives the root directory one record. SRCLINE:
sacio.c:33-46 -/
theorem vwp_mkdirAtRoot_stale {k : ℕ} (name : List UInt8) (hptr : node.indirectPointerBlock 0 = 0)
    (hsize : node.fileSize = 0) (hfits : (inodeOfNode node).Fits) (hnul : (0 : UInt8) ∉ name)
    (hlen : name.length ≤ 70) (hk : 2 ≤ k) (hspare : Spare v k) :
    vwp ((mkdirAtRoot name (node, 2 + 0)).run DiskStep.exec)
      (fun r w => r = 0 ∧ (w.inode 0).fileSize = 128) (fun _ _ => False) v := by
  unfold mkdirAtRoot
  simp only [Steps.run_bind, Threaded.run_existsEntry]
  refine vwp_bind (vwp_bind (vwp_getEntry_noPointer hptr fun e hinvalid _ => vwp_pure ?_))
  rw [if_neg (by rw [hinvalid]; decide)]
  simp only [Steps.run_bind, Threaded.run_createDirNodeAndAddEntry,
    Threaded.run_unmapAndDestroyNode]
  obtain ⟨hnodes, hdata⟩ := hspare
  refine vwp_bind (vwp_bind (vwp_getFreeNodeBlock (fun n hn _ _ => ?_) fun e _ hzero => by omega))
  refine vwp_bind (vwp_bind (vwp_bind (vwp_time fun date hdate => ?_)))
  apply vwp_createNode (by omega) hnul
  intro new hnew
  have hfits' : (inodeOfNode new).Fits := by
    rw [hnew]
    exact newInode_fits name 2 (d := 0) (by omega) hdate
  rw [readBlock_of_lt (show 2 + n < 3000 by omega)]
  refine vwp_bind (vwp_nodeToBlock hn hfits' (vwp_unmapAndDestroyNode hn hfits' ?_))
  rw [View.setInode_setInode]
  refine vwp_addDirectoryEntry_stale hptr hsize hfits (by omega)
    ((hk.trans hdata).trans (freeCount_withNode hn _)) fun node' w hfits'' hsize' => ?_
  refine vwp_bind (vwp_unmapAndDestroyNode (by omega) hfits'' (vwp_pure ⟨rfl, ?_⟩))
  rw [View.setInode_same]
  exact hsize'

/-- INTERNAL: one record is not enough for two names. -/
theorem not_allListed (hsize : (w.inode 0).fileSize = 128) : ¬ AllListed v w 0 twoNames := by
  rintro ⟨node, -, hnode⟩
  have hlen : (w.tree.entries 0).length ≤ 1 := by
    simp only [View.tree]
    split
    · rw [length_records, hsize]
    · exact Nat.zero_le _
  have ha := Namespace.lookup_eq_some (hnode false).1
  have hb := Namespace.lookup_eq_some (hnode true).1
  obtain ⟨j, hj, hja⟩ := List.getElem_of_mem ha
  obtain ⟨k, hk, hkb⟩ := List.getElem_of_mem hb
  obtain rfl : j = k := by omega
  exact absurd (congrArg Prod.fst (hja.symm.trans hkb)) (show ([97] : List UInt8) ≠ [98] by decide)

/-- `mkdir /a` reads the node of the root directory, then `mkdir /b` takes all its steps, then
`mkdir /a` the rest of its own: both answer 0, and one of the two names is lost. SRCLINE:
sacio.c:13-50, node.c:15-51 -/
theorem creation_lost : Creating (viewOf newDisk) 0 twoNames twoRequests ∧
    ∃ (as : List (Bool × DiskStep)) (c : SacState × (Bool → Thread ℤ)),
      Run (Steps.Turn DiskStep.exec) (newDisk, fun i => (twoRequests i).thread) as c ∧
        (∀ i, c.2 i = .done 0) ∧ ¬ AllListed (viewOf newDisk) (viewOf c.1) 0 twoNames := by
  refine ⟨creating_two, ?_⟩
  have hfresh := fresh_of_formatted formatted_newDisk
  have hinv := hfresh.plain.toInv
  obtain ⟨date, -, hroot⟩ := hfresh.root
  -- the copy that `mkdir /a` takes
  have hread : vwp (readNode 0) (fun x w => w = viewOf newDisk ∧ x.2 = 2 + 0 ∧
      inodeOfNode x.1 = (viewOf newDisk).inode 0) (fun _ _ => False) (viewOf newDisk) :=
    vwp_readNode (by omega) (hinv.node 0 hinv.live_root).named fun node hnode => ⟨rfl, rfl, hnode⟩
  obtain ⟨⟨node, _⟩, s₁, hstep, hview, rfl, hnode⟩ := exists_ok_of_wp (hread _ rfl) fun _ _ hf => hf
  have hthread : (twoRequests false).thread =
      Threaded.readNode 0 >>= mkdirAtRoot [97] :=
    sacMkdir_root (by decide) rfl (by decide) (by decide)
  -- `mkdir /b` in between
  rw [← hview] at hinv
  have hmissing : (viewOf s₁).tree.lookup 0 [98] = none := by
    rw [hview]
    exact hfresh.lookup_eq_none 0 _
  obtain ⟨n, s₂, date', hok, hc⟩ := exists_mkdir hinv (bPath_target hinv.toCore) (by decide)
    hmissing (k := 31) (by omega) (by rw [hview]; exact hfresh.spare)
  rw [← Threaded.run_sacMkdir] at hok
  -- the rest of `mkdir /a`
  have hstale : inodeOfNode node = rootInode date := hnode.trans hroot
  have hfits : (inodeOfNode node).Fits := by
    rw [hnode, ← hview]
    exact (hinv.node 0 hinv.live_root).fits
  have hrest := vwp_mkdirAtRoot_stale [97] (congrFun (congrArg Inode.ptr hstale) 0)
    (congrArg Inode.fileSize hstale) hfits (by decide) (by decide)
    (k := 28) (by omega) (hc.spare (by rw [hview]; exact hfresh.spare))
  obtain ⟨r, s₃, hok', rfl, hsize⟩ := exists_ok_of_wp (hrest s₂ rfl) fun _ _ hf => hf
  have hfirst : Steps.Turn DiskStep.exec (newDisk, fun i => (twoRequests i).thread)
      (false, .readNode 0) (s₁, Function.update (fun i => (twoRequests i).thread) false
        (mkdirAtRoot [97] (node, 2 + 0))) := ⟨_, (node, 2 + 0), hthread, hstep, rfl⟩
  obtain ⟨as, hrun, -⟩ := Steps.exists_run_alone (i := true) (t := Function.update
    (fun i => (twoRequests i).thread) false (mkdirAtRoot [97] (node, 2 + 0))) rfl hok
  obtain ⟨bs, hrun', -⟩ := Steps.exists_run_alone (i := false) (t := Function.update
    (Function.update (fun i => (twoRequests i).thread) false (mkdirAtRoot [97] (node, 2 + 0))) true
    (.done 0)) rfl hok'
  refine ⟨_, _, ((Run.single hfirst).append hrun).append hrun', fun i => ?_, not_allListed hsize⟩
  cases i <;> rfl

end Two

end LinuseFs.Analysis
