import LinuseFs.Analysis.KilledServer
import LinuseFs.Analysis.RacingCreation

/-!
# A server that was killed among creations

A kill between any two steps of the creations that race leaves a disk on which there may be nodes
half made and entries that lead to them.  The servers behind it know nothing of that, and their
bitmap is as old as the disk says; still they find each path that was there, and the bytes of each
file.
-/

set_option autoImplicit false

namespace LinuseFs.Analysis

open LinuseFs.Computation LinuseFs.Model LinuseFs.Interface

/-! ## What is left on the disk -/

/-- The disk has the nodes of `v`, but for records behind the ones that a directory had; the bitmap
does not matter. -/
structure Retains (v u : View) : Prop where
  rest : ∀ m, v.live m → u.inode m = { v.inode m with fileSize := (u.inode m).fileSize }
  fits : ∀ m, v.live m → (u.inode m).Fits
  dir : ∀ m, v.live m → (v.inode m).state = 2 →
    DirBlocks u (u.inode m) ∧ v.records (v.inode m) <+: u.records (u.inode m)

section Retains

variable {v w u : View} {m n d : ℕ} {name : List UInt8} {path : CString} {nd : Inode}

/-- INTERNAL: the blocks of a directory are found with any bitmap. -/
theorem DirBlocks.congr (h : DirBlocks w nd) (hdata : u.data = w.data) :
    DirBlocks u nd ∧ u.records nd = w.records nd := by
  have hblock : u.dataBlock nd 0 = w.dataBlock nd 0 := dataBlock_congr (by rw [hdata])
  obtain ⟨hrecords, hok⟩ : u.records nd = w.records nd ∧ DirOk u nd :=
    records_congr h.ok (fun _ => by rw [hdata]) fun _ => by rw [hdata]
  refine ⟨⟨hok, h.ptr, fun hsize => ?_⟩, hrecords⟩
  rw [hblock]
  exact h.data hsize

/-- INTERNAL: the bytes of a file are found with any bitmap. -/
theorem content_of_same (hinode : u.inode = w.inode) (hdata : u.data = w.data) (n : ℕ) :
    content u n = content w n := by
  cases u
  cases w
  cases hinode
  cases hdata
  rfl

theorem Extends.retains (he : Extends v w) (h : Core v) (hinode : u.inode = w.inode)
    (hdata : u.data = w.data) : Retains v u := by
  constructor
  · intro m hm
    rw [hinode]
    exact (he.node m hm).rest
  · intro m hm
    rw [hinode]
    exact (he.node m hm).fits h hm
  · intro m hm hstate
    obtain ⟨hdir, hrecords⟩ := (he.node m hm).dir he h hm hstate
    obtain ⟨hdir', hsame⟩ := hdir.congr hdata
    rw [hinode, hsame]
    exact ⟨hdir', hrecords⟩

/-- INTERNAL: each node refers to the blocks that it referred to. -/
theorem Extends.place (he : Extends v w) (h : Core v) (hm : v.live m) (r : Ref) :
    ((w.inode m).refers r ↔ (v.inode m).refers r) ∧
      (v.held m r → w.place m r = v.place m r) := by
  have hl := he.node m hm
  have hptr : (w.inode m).ptr = (v.inode m).ptr := by rw [hl.rest]
  by_cases hstate : (v.inode m).state = 2
  · have hdir := (h.node m hm).dir hstate
    have hdir' := (hl.dir he h hm hstate).1.ok
    cases r with
    | ptr i => simp only [Inode.refers, View.place, hptr, implies_true, and_self]
    | data k =>
      rw [hdir.refers_data hstate, hdir'.refers_data (hl.state.trans hstate)]
      have hzero : (w.inode m).fileSize = 0 ↔ (v.inode m).fileSize = 0 := by
        rw [← hdir.ptr_zero, ← hdir'.ptr_zero, hptr]
      refine ⟨and_congr_right fun _ => not_congr hzero, fun hheld => ?_⟩
      obtain ⟨rfl, hsize⟩ := (hdir.refers_data hstate k).mp hheld.2
      exact hl.dataBlock he h hm hstate hsize
  · have hinode := he.inode hm hstate
    rw [hinode]
    refine ⟨Iff.rfl, fun hheld => ?_⟩
    cases r with
    | ptr i => simp only [View.place, hinode]
    | data k =>
      have hpheld : v.held m (.ptr (k / 1024)) := ⟨hm, (h.node m hm).refers_ptr hheld.2⟩
      simp only [View.place, hinode]
      exact dataBlock_congr (funext fun i => he.data m _ i hpheld fun hdir => absurd hdir hstate)

/-- INTERNAL: **with the bitmap that it had the disk is well formed**, but for the records behind
the ones that were there. -/
theorem Extends.core (he : Extends v w) (h : Core v) (hinode : u.inode = w.inode)
    (hdata : u.data = w.data) (hused : u.used = v.used) : Core u := by
  have hlive : ∀ m, u.live m → v.live m := fun m hm => ⟨hm.1, hused ▸ hm.2⟩
  have hheld : ∀ m r, u.held m r → v.held m r ∧ u.place m r = v.place m r := by
    intro m r hr
    have hm := hlive m hr.1
    obtain ⟨hrefers, hplace⟩ := he.place h hm r
    have hrefers' := hr.2
    rw [hinode] at hrefers'
    have hr' : v.held m r := ⟨hm, hrefers.mp hrefers'⟩
    refine ⟨hr', ?_⟩
    rw [← hplace hr']
    cases r <;> simp only [View.place, View.dataBlock, View.slot, hinode, hdata]
  constructor
  · intro b hb
    rw [hused]
    exact h.metadata b hb
  · rw [hinode]
    exact (he.node 0 h.live_root).state.trans h.root
  · intro m hm
    have hl := he.node m (hlive m hm)
    have hnode := h.node m (hlive m hm)
    rw [hinode]
    refine ⟨hl.fits h (hlive m hm), ?_, ?_, fun hstate => ?_, fun hstate => ?_⟩
    · rw [hl.state]
      exact hnode.kind
    · rw [hl.rest]
      exact hnode.named
    · rw [hl.state] at hstate
      exact ((hl.dir he h (hlive m hm) hstate).1.congr hdata).1.ok
    · rw [hl.state] at hstate
      rw [he.inode (hlive m hm) (by rw [hstate]; decide)]
      exact hnode.file hstate
  · intro m hm hm0
    rw [hinode, (he.node m (hlive m hm)).rest]
    exact h.parent m (hlive m hm) hm0
  · constructor
    · intro m r hr
      obtain ⟨hr', hplace⟩ := hheld m r hr
      rw [hplace]
      obtain ⟨hge, hlt, hmarked⟩ := h.own.ok m r hr'
      exact ⟨hge, hlt, by rw [hused]; exact hmarked⟩
    · intro m r k q hr hq heq
      obtain ⟨hr', hplace⟩ := hheld m r hr
      obtain ⟨hq', hplace'⟩ := hheld k q hq
      rw [hplace, hplace'] at heq
      exact h.own.inj m r k q hr' hq' heq

end Retains

/-! ## The paths that were there are found -/

section Finding

variable {v u : View} {m n d : ℕ} {name : List UInt8} {path : CString} {E : Fault → View → Prop}

/-- INTERNAL: a node that was there is decoded. SRCLINE: node.c:16-21 -/
theorem Retains.vwp_readNode {Q : Node × ℕ → View → Prop} (hr : Retains v u) (h : Core v)
    (hm : v.live m) (hQ : ∀ node, inodeOfNode node = u.inode m → Q (node, 2 + m) u) :
    vwp (readNode m) Q E u := by
  have hnamed : (u.inode m).name.isSome := by
    rw [hr.rest m hm]
    exact (h.node m hm).named
  exact Interface.vwp_readNode hm.1 hnamed hQ

/-- INTERNAL: a copy of a node is written back. SRCLINE: node.c:47-51 -/
theorem Retains.vwp_unmapAndDestroyNode {Q : Unit → View → Prop} {node : Node}
    (hr : Retains v u) (hm : v.live m) (hnode : inodeOfNode node = u.inode m) (hQ : Q () u) :
    vwp (unmapAndDestroyNode node (2 + m)) Q E u := by
  have hfits := hr.fits m hm
  rw [← hnode] at hfits
  apply Interface.vwp_unmapAndDestroyNode hm.1 hfits
  rw [hnode, View.setInode_self]
  exact hQ

/-- INTERNAL: a name that was there is found in its directory. SRCLINE: directory.c:60-67 -/
theorem Retains.vwp_getEntry {Q : DirEntry → View → Prop} {node : Node} (hr : Retains v u)
    (hm : v.live m) (hnode : inodeOfNode node = u.inode m) (hlookup : v.tree.lookup m name = some n)
    (hname : name ≠ []) (hQ : ∀ e, e.nodeNum = n → isValidEntry e = true → Q e u) :
    vwp (getEntry node name) Q E u := by
  have hstate : (v.inode m).state = 2 := state_of_lookup (by rw [hlookup]; simp)
  obtain ⟨hdir, hrecords⟩ := hr.dir m hm hstate
  have hstate' : (u.inode m).state = 2 := by
    rw [hr.rest m hm]
    exact hstate
  rw [← hnode] at hdir hrecords hstate'
  apply vwp_getEntry_longer hdir hrecords hstate' hm hstate hname
  intro e he
  obtain ⟨hnum, hvalid⟩ := he n hlookup
  exact hQ e hnum hvalid

/-- INTERNAL: **the search finds what was there**; the induction is on the pieces. SRCLINE:
directory.c:26-33 -/
theorem Retains.vwp_searchPieces {Q : DirEntry → View → Prop} (hr : Retains v u) (h : Inv v none)
    (ps : List (List UInt8)) {e : DirEntry} (hlive : v.live e.nodeNum)
    (hvalid : isValidEntry e = true) (hps : ∀ p ∈ ps, p ≠ [])
    (hwalk : v.tree.walk e.nodeNum ps = some d)
    (hQ : ∀ e', e'.nodeNum = d → isValidEntry e' = true → Q e' u) :
    vwp (searchPieces ps e) Q E u := by
  induction ps generalizing e with
  | nil => exact vwp_pure (hQ e (Option.some.inj hwalk) hvalid)
  | cons p ps ih =>
    rw [Namespace.walk] at hwalk
    cases hlookup : v.tree.lookup e.nodeNum p with
    | none =>
      rw [hlookup] at hwalk
      cases hwalk
    | some c =>
      rw [hlookup] at hwalk
      rw [searchPieces, if_pos hvalid]
      apply vwp_bind
      apply hr.vwp_readNode h.toCore hlive
      intro node hnode
      apply vwp_bind
      apply hr.vwp_getEntry hlive hnode hlookup (hps p List.mem_cons_self)
      intro e' hnum hvalid'
      apply vwp_bind
      apply hr.vwp_unmapAndDestroyNode hlive hnode
      have hmem := Namespace.mem_targets_of_lookup hlookup
      rw [← hnum] at hmem hwalk
      apply ih (h.tree.target_live _ hlive _ hmem) hvalid' _ hwalk
      exact fun q hq => hps q (List.mem_cons_of_mem _ hq)

theorem Retains.vwp_searchPath {Q : DirEntry → View → Prop} (hr : Retains v u) (h : Inv v none)
    {p : List UInt8} (hwalk : v.tree.walk 0 (stringSplit p) = some d)
    (hQ : ∀ e, e.nodeNum = d → isValidEntry e = true → Q e u) : vwp (searchPath p) Q E u := by
  have hps : ∀ q ∈ stringSplit p, q ≠ [] := by
    intro q hq
    simpa using (List.mem_filter.mp hq).2
  exact hr.vwp_searchPieces h _ h.live_root (by decide) hps hwalk hQ

/-- INTERNAL: **`sac_open`** of a path that was there returns its node, and changes nothing.
SRCLINE: sacio.c:121-150, file.c:15-33 -/
theorem Retains.vwp_sacOpen {Q : ℤ → View → Prop} (hr : Retains v u) (h : Inv v none)
    (ht : Target v path d name) (hlookup : v.tree.lookup d name = some n) (hQ : Q n u) :
    vwp (sacOpen path) Q E u := by
  obtain ⟨front, hpath, hwalk⟩ := ht.cut
  obtain ⟨-, hlast, -, hfolder⟩ := cut_at_last_slash front ht.slash_free ht.name_ne
  have hd := ht.live h
  have hn := (h.tree.target_live _ hd n (Namespace.mem_targets_of_lookup hlookup)).1
  unfold sacOpen
  rw [if_neg (by simp [ht.valid]), hpath, hfolder, hlast]
  apply vwp_bind
  apply vwp_pure
  apply vwp_bind
  apply hr.vwp_searchPath h hwalk
  rintro e rfl hvalid
  rw [if_neg (by simp [hvalid])]
  apply vwp_bind
  apply vwp_pure
  apply vwp_bind
  apply vwp_bind
  apply hr.vwp_readNode h.toCore hd
  intro node hnode
  apply vwp_bind
  apply vwp_bind
  apply hr.vwp_getEntry hd hnode hlookup ht.name_ne
  intro entry hnum hvalid'
  apply vwp_pure
  rw [if_pos hvalid']
  apply vwp_bind
  apply hr.vwp_getEntry hd hnode hlookup ht.name_ne
  intro entry' hnum' _
  apply vwp_bind
  apply hr.vwp_unmapAndDestroyNode hd hnode
  apply vwp_pure
  apply vwp_pure
  rw [hnum', i32_of_lt (by omega)]
  exact hQ

/-- INTERNAL: **`sac_stat`** of a file that was there. SRCLINE: sacio.c:315-347 -/
theorem Retains.vwp_sacStat {Q : ℤ × Option Stat → View → Prop} (hr : Retains v u) (h : Inv v none)
    (hvalid : isValidPath path.val = true) (hwalk : v.tree.walk 0 (stringSplit path.val) = some n)
    (hfile : (v.inode n).state = 1)
    (hQ : ∀ mtim ctim, Q (0, some ⟨false, n, (u.inode n).fileSize, mtim, ctim⟩) u) :
    vwp (sacStat path) Q E u := by
  have hn := h.tree.walk_live h.live_root hwalk
  unfold sacStat
  rw [if_neg (by simp [hvalid])]
  apply vwp_bind
  apply hr.vwp_searchPath h hwalk
  rintro e rfl hvalid'
  rw [if_neg (by simp [hvalid'])]
  apply vwp_bind
  apply hr.vwp_readNode h.toCore hn
  intro node hnode
  have hstate : node.state = 1 := by
    have hsame := congrArg Inode.state (hnode.trans (hr.rest _ hn))
    exact hsame.trans hfile
  have hsize : node.fileSize = (u.inode e.nodeNum).fileSize := congrArg Inode.fileSize hnode
  dsimp only
  rw [if_pos (Or.inl hstate)]
  apply vwp_bind
  apply hr.vwp_unmapAndDestroyNode hn hnode
  apply vwp_pure
  have hkind : decide (node.state = 2) = false := by
    rw [hstate]
    rfl
  rw [hkind, hsize]
  exact hQ _ _

end Finding

/-! ## The requests behind the kill -/

/-- The disk is as creations that race may leave one that was `v`; the bitmap in memory does not
matter. -/
def LeftOf (v : View) (s : SacState) : Prop :=
  ∃ w, Extends v w ∧ (viewOf s).inode = w.inode ∧ (viewOf s).data = w.data

/-- The answer says nothing of the entries that a directory has. -/
def OverlooksEntries (t : Tree) : Request → Prop
  | .stat path => t.IsFile (stringSplit path.val)
  | .readdir _ => False
  | _ => True

/-- What happens to a server that is asked for nothing but what was there: it answers, or it is
killed and another one is started. -/
def ReadsOrRestarts (t : Tree) (s : SacState) (event : Option (Request × Package))
    (s' : SacState) : Prop :=
  LooksOrRestarts t s event s' ∧ ∀ e ∈ event, OverlooksEntries t e.1

/-- The path leads into a directory that has entries. -/
def Besides (t : Tree) (path : CString) : Prop :=
  Clear t path ∧ ∃ front x y, stringSplit path.val = front ++ [x] ∧ t.node (front ++ [y]) ≠ none

section Runs

variable {ι : Type} {s s' u : SacState} {v : View} {t t' : Tree} {path : CString}
  {request : Request} {events : List (Request × Package)}
  {later : List (Option (Request × Package))} {fd count offset : ℤ}

/-- INTERNAL: loading a bitmap leaves the disk as it was. SRCLINE: sac.c:113-118 -/
theorem LeftOf.restart (h : LeftOf v s) {bitmap : Bytes} {env : Env}
    (hload : loadBitmap (s.restarted bitmap env) = .ok () s') : LeftOf v s' := by
  have hdisk : s'.disk = s.disk := (used_of_loaded hload).1
  obtain ⟨w, he, hinode, hdata⟩ := h
  refine ⟨w, he, ?_, ?_⟩
  · rw [← hinode]
    simp only [viewOf, hdisk]
  · rw [← hdata]
    simp only [viewOf, hdisk]

theorem LeftOf.of_view (h : LeftOf v s) (hview : viewOf s' = viewOf s) : LeftOf v s' := by
  obtain ⟨w, he, hinode, hdata⟩ := h
  exact ⟨w, he, by rw [hview, hinode], by rw [hview, hdata]⟩

theorem LeftOf.retains (h : LeftOf v s) (hv : Core v) : Retains v (viewOf s) := by
  obtain ⟨w, he, hinode, hdata⟩ := h
  exact he.retains hv hinode hdata

/-- INTERNAL: **a file that was there is read**, with the bytes that it had: with the bitmap of
`s₀` the disk is one that `sac_read` knows, and it does not ask the bitmap. SRCLINE:
fs_sac.c:23-31 -/
theorem LeftOf.wp_read {s₀ : SacState} (hleft : LeftOf (viewOf s₀) s)
    (h : Represents (viewOf s₀) t) (hallowed : Allowed t (.read fd count offset)) :
    wp (perform .ilp32 (.read fd count offset))
      (fun package s' => TreeStep t (.read fd count offset, package) t ∧ LeftOf (viewOf s₀) s')
      (fun _ _ => False) s := by
  obtain ⟨hoffset, hstart, hcount, hend, ps, c, hps, hne⟩ := hallowed
  obtain ⟨hwalk, hfile, rfl⟩ := h.node_file.mp hps
  have hn := h.live hwalk
  obtain ⟨w, he, hinode, hdata⟩ := hleft
  have hcore : Core (viewOf (withBitmap s₀.bitmap s)) := he.core h.toCore hinode hdata rfl
  have hcontent : content (viewOf (withBitmap s₀.bitmap s)) fd.toNat =
      content (viewOf s₀) fd.toNat := by
    rw [← he.content h.toCore hn hfile]
    exact content_of_same hinode hdata _
  have hlive : (viewOf (withBitmap s₀.bitmap s)).live fd.toNat := hn
  have hfile' : ((viewOf (withBitmap s₀.bitmap s)).inode fd.toNat).state = 1 := by
    change ((viewOf s).inode fd.toNat).state = 1
    rw [hinode, (he.node _ hn).state]
    exact hfile
  have hread := vwp_performRead hcore hlive hfile' (by rw [hcontent]; exact hne) hoffset hcount
    hstart hend
  have hoverlooks : Overlooks (withBitmap s.bitmap) (perform .ilp32 (.read fd count offset)) :=
    overlooks_perform rfl
  have hback : withBitmap s.bitmap (withBitmap s₀.bitmap s) = s := rfl
  rw [← hback]
  apply (hoverlooks _).wp
  refine wp_mono (hread _ rfl) ?_ fun _ _ hf => hf
  rintro package s' ⟨hview, hreports⟩
  rw [hcontent] at hreports
  refine ⟨⟨_, .read hps, hreports⟩, w, he, ?_, ?_⟩
  · change (viewOf s').inode = w.inode
    rw [hview]
    exact hinode
  · change (viewOf s').data = w.data
    rw [hview]
    exact hdata

/-- INTERNAL: a path that was there is opened. SRCLINE: sacio.c:121-150 -/
theorem LeftOf.wp_open (hleft : LeftOf v s) (h : Represents v t) {mode : ℤ}
    (hallowed : Allowed t (.open path mode)) (hfound : t.node (stringSplit path.val) ≠ none) :
    wp (perform .ilp32 (.open path mode))
      (fun package s' => TreeStep t (.open path mode, package) t ∧ LeftOf v s')
      (fun _ _ => False) s := by
  rw [ne_eq, h.node_eq_none] at hfound
  rcases h.target_or_missing hallowed.2 hallowed.1.ne_root with
    ⟨-, hnone, -⟩ | ⟨front, x, d, -, ht, -⟩
  · exact absurd hnone hfound
  have hwalk := ht.walk
  cases hlookup : v.tree.lookup d x with
  | none => exact absurd (hwalk.trans hlookup) hfound
  | some n =>
    have hopen : vwp (perform .ilp32 (.open path mode))
        (fun package w => StatusReply n package ∧ w = viewOf s) (fun _ _ => False)
        (viewOf s) := by
      apply vwp_bind
      apply (hleft.retains h.toCore).vwp_sacOpen h.toInv ht hlookup
      exact vwp_createDefaultPackage fun package hpackage => ⟨hpackage, rfl⟩
    refine wp_mono (hopen s rfl) ?_ fun _ _ hf => hf
    rintro package s' ⟨hpackage, hview⟩
    have hnode := h.node_eq_some.mpr ⟨hwalk.trans hlookup, rfl⟩
    exact ⟨⟨.number n, .create_found hnode, hpackage⟩, hleft.of_view hview⟩

/-- INTERNAL: the attributes of a file that was there. SRCLINE: fs_sac.c:48-74 -/
theorem LeftOf.wp_stat (hleft : LeftOf v s) (h : Represents v t) (hclear : Clear t path)
    (hisFile : t.IsFile (stringSplit path.val)) :
    wp (perform .ilp32 (.stat path))
      (fun package s' => TreeStep t (.stat path, package) t ∧ LeftOf v s')
      (fun _ _ => False) s := by
  obtain ⟨n, hwalk, hfile⟩ := h.isFile_iff.mp hisFile
  have hn := h.live hwalk
  have hsize : ((viewOf s).inode n).fileSize = (content v n).length := by
    obtain ⟨w, he, hinode, -⟩ := hleft
    rw [hinode, he.inode hn (by rw [hfile]; decide), length_content]
  have hstat : vwp (perform .ilp32 (.stat path))
      (fun package w => Reports (.stat path) package (.file n (content v n).length) ∧ w = viewOf s)
      (fun _ _ => False) (viewOf s) := by
    refine vwp_fsSacStat (M := fun _ => False)
      (R := fun stbuf w => w = viewOf s ∧ ∃ mtim ctim,
        stbuf = ⟨false, n, ((viewOf s).inode n).fileSize, mtim, ctim⟩)
      ((hleft.retains h.toCore).vwp_sacStat h.toInv hclear.valid hwalk hfile
        fun mtim ctim => Or.inr ⟨_, rfl, rfl, mtim, ctim, rfl⟩) (fun _ _ hf => hf.elim) ?_
    rintro _ w id ⟨hw, mtim, ctim, rfl⟩ hid
    refine ⟨⟨id, Abi.ilp32.long mtim, Abi.ilp32.long ctim, hid, ?_⟩, hw⟩
    have hlt := fileSize_lt h.toCore hn hfile
    have hlong : Abi.ilp32.long ((content v n).length : ℤ) = (content v n).length := by
      rw [length_content]
      exact long_of_lt (by omega)
    dsimp only
    rw [hsize, hlong]
    rfl
  refine wp_mono (hstat s rfl) ?_ fun _ _ hf => hf
  rintro package s' ⟨hreports, hview⟩
  exact ⟨⟨_, .stat_file (h.node_file.mpr ⟨hwalk, hfile, rfl⟩), hreports⟩, hleft.of_view hview⟩

/-- INTERNAL: **the step lemma**: what was there is answered for as if no creation had been under
way. SRCLINE: server.c:102-161 -/
theorem LeftOf.wp_perform {s₀ : SacState} (hleft : LeftOf (viewOf s₀) s)
    (h : Represents (viewOf s₀) t) (hallowed : Allowed t request) (hlooks : LooksUp t request)
    (hentries : OverlooksEntries t request) :
    wp (perform .ilp32 request)
      (fun package s' => TreeStep t (request, package) t ∧ LeftOf (viewOf s₀) s')
      (fun _ _ => False) s := by
  cases request with
  | «open» path mode => exact hleft.wp_open h hallowed hlooks
  | read fd count offset => exact hleft.wp_read h hallowed
  | stat path => exact hleft.wp_stat h hallowed hentries
  | close fd =>
    have hclose : vwp (perform .ilp32 (.close fd)) (fun _ w => w = viewOf s) (fun _ _ => False)
        (viewOf s) := by
      unfold perform FsSac.sacClose
      exact vwp_createDefaultPackage fun _ _ => rfl
    exact wp_mono (hclose s rfl) (fun _ _ hview => ⟨rfl, hleft.of_view hview⟩) fun _ _ hf => hf
  | readdir path => cases hentries
  | _ => cases hlooks

/-- INTERNAL: **the run lemma**: the answers among the restarts are a run of the tree. -/
theorem LeftOf.run {s₀ : SacState} (hleft : LeftOf (viewOf s₀) s)
    (h : Represents (viewOf s₀) t) (hlater : Run (ReadsOrRestarts t) s later u) :
    LeftOf (viewOf s₀) u ∧ Run TreeStep t later.reduceOption t := by
  refine run_among_restarts (I := LeftOf (viewOf s₀)) ?_ ?_ hleft hlater
  · rintro s event s' hs ⟨⟨hallowed, hlooks, hok⟩, hentries⟩
    exact wp_of_ok
      (Q := fun package s' => TreeStep t (event.1, package) t ∧ LeftOf (viewOf s₀) s')
      (hs.wp_perform h hallowed hlooks (hentries event rfl)) hok
  · rintro s s' hs ⟨⟨bitmap, env, hload⟩, -⟩
    exact hs.restart hload

/-- INTERNAL: a directory in which a name is found has records. -/
theorem Represents.racing (h : Represents v t) {request : ι → CreateRequest}
    (hpaths : ∀ i, Besides t (request i).path) : Racing v request := by
  refine ⟨h.toInv, fun i => ?_⟩
  obtain ⟨hclear, front, x, y, hsplit, hy⟩ := hpaths i
  have hroot : (request i).path.val ≠ [slash] := by
    intro hroot
    rw [hroot] at hsplit
    have hnil : stringSplit [slash] = [] := rfl
    rw [hnil] at hsplit
    simp at hsplit
  rw [ne_eq, h.node_eq_none, Namespace.walk_concat] at hy
  rcases h.target_or_missing hclear hroot with ⟨hmissing, -, -⟩ | ⟨front', x', d, hsplit', ht, hd⟩
  · rw [hsplit, List.dropLast_concat] at hmissing
    rw [hmissing] at hy
    exact absurd rfl hy
  · obtain ⟨rfl, -⟩ := List.append_inj' (hsplit.symm.trans hsplit') rfl
    rw [hd, Option.bind_some] at hy
    refine ⟨d, x', ht, fun hzero => hy ?_⟩
    rw [Namespace.lookup_eq_none_iff, entries_of_size_zero hzero]
    simp

/-- **What was there survives a kill among creations.**  After any run of requests from a formatted
disk, requests that create beside what is there may race, and the server may be killed between any
two of their steps.  The servers that are started behind it, which may be killed as well, open each
path of the tree that the run has left, and answer for its files with the bytes and the sizes that
they had. SRCLINE: sac.c:12-32, 113-118, server.c:74-112, sacio.c:13-50, 121-150, 248-347 -/
theorem creations_survive_kill [DecidableEq ι] (hs : Formatted s)
    (hrun : Run Performs s events s') :
    ∃ t, Run TreeStep (FileTree.empty 0) events t ∧
      ∀ (request : ι → CreateRequest) as c, (∀ i, Besides t (request i).path) →
        Run (Steps.Turn DiskStep.exec) (s', fun i => (request i).thread) as c →
        ∀ later u, Run (ReadsOrRestarts t) c.1 later u →
          Run TreeStep t later.reduceOption t ∧
            ∀ asked, Allowed t asked → LooksUp t asked → OverlooksEntries t asked →
              ∃ package u', perform .ilp32 asked u = .ok package u' ∧
                TreeStep t (asked, package) t := by
  obtain ⟨t, htree, h⟩ := exists_tree_run (fresh_of_formatted hs).represents hrun
  refine ⟨t, htree, fun request as c hpaths hcreate later u hlater => ?_⟩
  have hracing := h.racing hpaths
  obtain ⟨hkeeps, -⟩ :=
    Company.behaves_run (C := Analysis.racing (viewOf s')) hracing.behaves hcreate
  have hleft : LeftOf (viewOf s') c.1 := ⟨_, hkeeps.keeps (extends_refl h.toInv), rfl, rfl⟩
  obtain ⟨hu, hanswers⟩ := hleft.run h hlater
  refine ⟨hanswers, fun asked hallowed hlooks hentries => ?_⟩
  obtain ⟨package, u', hok, hstep, -⟩ :=
    exists_ok_of_wp (hu.wp_perform h hallowed hlooks hentries) fun _ _ hf => hf
  exact ⟨package, u', hok, hstep⟩

/-- INTERNAL: a directory that has been made is there. -/
theorem node_of_mkdir {mode : ℤ} {package : Package} (hpackage : StatusReply 0 package)
    (hstep : TreeStep t (.mkdir path mode, package) t') :
    t'.node (stringSplit path.val) ≠ none := by
  obtain ⟨reply, hstep, hreports⟩ := hstep
  cases hstep with
  | mkdir hv =>
    simp only [FileTree.insert, Function.update_self]
    exact Option.some_ne_none _
  | mkdir_refused _ =>
    have hid := hpackage.id.symm.trans hreports.1.id
    exact absurd hid (by decide)

/-- The statement for `/a`, which is there, and for `mkdir /b` beside it. -/
theorem creations_survive_kill_two : ∃ (s : SacState) (t : Tree) (as : List (Bool × DiskStep))
    (c : SacState × (Bool → Thread ℤ)), t.node (stringSplit aPath.val) ≠ none ∧
      Run (Steps.Turn DiskStep.exec) (s, fun i => (twoRequests i).thread) as c ∧
        c.2 true = .done 0 ∧ ∃ package u', perform .ilp32 (.open aPath 0) c.1 = .ok package u' ∧
          TreeStep t (.open aPath 0, package) t := by
  have hfresh := fresh_of_formatted formatted_newDisk
  have hinv := hfresh.plain.toInv
  obtain ⟨s, package, n, date, hpackage, hperforms, hc⟩ := exists_performs_mkdir
  obtain ⟨t, htree, hsurvives⟩ :=
    creations_survive_kill (ι := Bool) formatted_newDisk (Run.single hperforms)
  have hnode : t.node (stringSplit aPath.val) ≠ none := by
    rw [← List.nil_append [(Request.mkdir aPath 0, package)], Run.snoc_iff] at htree
    obtain ⟨t₀, -, hstep⟩ := htree
    exact node_of_mkdir hpackage hstep
  have hmissing : (viewOf s).tree.lookup 0 [98] = none := by
    rw [hc.lookup hinv.live_root (hfresh.lookup_eq_none 0 [97]), if_neg (by decide)]
    exact hfresh.lookup_eq_none 0 _
  obtain ⟨m, s₁, date', hok, -⟩ := exists_mkdir hc.inv (bPath_target hc.inv.toCore) (by decide)
    hmissing (k := 28) (by omega) (hc.spare hfresh.spare)
  rw [← Threaded.run_sacMkdir] at hok
  obtain ⟨as, hrun, -⟩ := Steps.exists_run_alone (i := true)
    (t := fun i => (twoRequests i).thread) rfl hok
  have hroot : t.HasParent [[98]] := ⟨[], _, rfl, t.root⟩
  have hbesides : ∀ i, Besides t (twoRequests i).path := by
    intro i
    cases i
    · exact ⟨⟨by decide, FileTree.passesNoFile_of_found hnode⟩, [], [97], [97], by decide, hnode⟩
    · exact ⟨⟨by decide, FileTree.passesNoFile_of_parent hroot⟩, [], [98], [97], by decide, hnode⟩
  obtain ⟨-, hanswers⟩ := hsurvives _ as _ hbesides hrun [] _ Run.nil
  have hsent : Sent aPath := (aPath_addressed hinv.toCore).toSent
  have hclear : Clear t aPath := ⟨by decide, FileTree.passesNoFile_of_found hnode⟩
  exact ⟨s, t, as, _, hnode, hrun, rfl, hanswers (.open aPath 0) ⟨hsent, hclear⟩ hnode trivial⟩

end Runs

end LinuseFs.Analysis
