import LinuseFs.Model.Main
import LinuseFs.Analysis.BlocksTaken
import LinuseFs.Analysis.DescriptorEffect
import LinuseFs.Analysis.FileOwnership
import LinuseFs.Analysis.OutOfBlocks
import LinuseFs.Analysis.ReadReply
import LinuseFs.Analysis.RemovalEffect
import LinuseFs.Analysis.RequestHandling
import LinuseFs.Analysis.StoredNames

/-!
# The bitmap after a restart

The server stores the bitmap behind a loop that it does not leave, so the next one loads the
bitmap that was on the disk before.  The blocks of the tree are marked in it as long as every block
that a request takes is; `sac_mkdir` on a new disk takes one that is not.
-/

set_option autoImplicit false

namespace LinuseFs.Analysis

open LinuseFs.Computation LinuseFs.Model LinuseFs.Interface

/-- A path on the disk leads to a node that occupies the block: it is the block of the node, or one
that the node refers to. -/
def Occupied (v : View) (b : ℕ) : Prop :=
  ∃ ps n, (diskTree v).walk 0 ps = some n ∧
    (b = 2 + n ∨ ∃ r, (v.inode n).refers r ∧ v.place n r = b)

/-- The blocks of the tree are marked, and none of them is reserved. -/
structure MarksTree (s : SacState) : Prop where
  marked : ∀ b, Occupied (viewOf s) b → s.used b = true
  notReserved : ∀ (p : Pool) b s', p.getFree s = .ok b s' → ¬ Occupied (viewOf s) b

/-- The bitmap that the next server loads marks the blocks of the tree, whatever is in its memory
before. -/
def SurvivesRestart (s : SacState) : Prop :=
  ∀ bitmap env, ∃ t, loadBitmap (s.restarted bitmap env) = .ok () t ∧ t.disk = s.disk ∧ MarksTree t

/-- The operation of a request that may change the disk. -/
def operationOf : Request → Option Operation
  | .open path _ => some (.open path)
  | .write fd buffer offset => some (.write fd.toNat buffer offset.toNat)
  | .remove path => some (.remove path)
  | .mkdir path _ => some (.mkdir path)
  | .rmdir path => some (.rmdir path)
  | .rename oldPath newPath => some (.rename oldPath newPath)
  | .truncate path size => some (.truncate path size.toNat)
  | .close _ | .read _ _ _ | .stat _ | .readdir _ => none

/-- The request keeps the file system well formed: what changes the disk is harmless, a path that
is looked up passes no blocks of a file, and a descriptor is a slot of the node table.  The offset
is an `off_t` of 32 bits. -/
def HarmlessRequest (v : View) : Request → Prop
  | .open path _ => Harmless v (.open path)
  | .write fd buffer offset => -2 ^ 31 ≤ offset ∧ Harmless v (.write fd.toNat buffer offset.toNat)
  | .remove path => Harmless v (.remove path)
  | .mkdir path _ => Harmless v (.mkdir path)
  | .rmdir path => Harmless v (.rmdir path)
  | .rename oldPath newPath => Harmless v (.rename oldPath newPath)
  | .truncate path size => Harmless v (.truncate path size.toNat)
  | .close _ => True
  | .read fd _ _ => fd.toNat < 32
  | .stat path | .readdir path => Passable v 0 (stringSplit path.val)

/-- The lowest free blocks, so many as the operation takes, are marked in the bitmap on the disk. -/
def TakesMarked (v : View) (op : Operation) : Prop :=
  ∀ c < 3000, v.used c = false → AmongLowest v.used (nodesTaken v op) (blocksTaken v op) c →
    testBit (v.metadata 1) c = true

/-- The request of the connection is harmless, and what it takes is marked on the disk. -/
def Covered (s : SacState) (connection : Connection) : Prop :=
  connection.created = 0 → connection.handshake = Identifier.sac.code →
    ∀ request, served .ilp32 connection.package = some (some request) →
      HarmlessRequest (viewOf s) request ∧
        ∀ op, operationOf request = some op → TakesMarked (viewOf s) op

/-- A well-formed disk whose bitmap marks every block that is in use. -/
structure Backed (v : View) : Prop extends Inv v none where
  marked : ∀ c < 3000, v.used c = true → testBit (v.metadata 1) c = true

/-! ## After the restart -/

section Restart

variable {s s₀ t : SacState} {b : ℕ}

/-- INTERNAL: the bits that a server has loaded are those of the disk. SRCLINE: sac.c:113-118 -/
theorem used_of_loaded (hload : loadBitmap s = .ok () s₀) :
    s₀.disk = s.disk ∧ ∀ c < 3000, s₀.used c = testBit (s.disk 1) c := by
  have hwp : wp loadBitmap (fun _ t => t.disk = s.disk ∧ ∀ c < 3000, t.used c = testBit (s.disk 1) c)
      (fun _ _ => True) s := loadBitmap_wp fun t hdisk hused => ⟨hdisk, hused⟩
  exact wp_of_ok (Q := fun _ t => t.disk = s.disk ∧ ∀ c < 3000, t.used c = testBit (s.disk 1) c)
    hwp hload

/-- INTERNAL: what a reserved block was. SRCLINE: bitmap.c:10-38 -/
theorem free_of_getFree {p : Pool} (h : p.getFree s = .ok b t) : s.used b = false := by
  have hwp : wp p.getFree (fun b _ => s.used b = false) (fun _ _ => True) s := by
    rw [getFree_eq]
    have hfirst : p.fromBlockNum ≤ p.toBlockNum := by cases p <;> decide
    exact getFreeBlock_wp hfirst (toBlockNum_le p) (fun _ _ _ hfree _ => hfree) fun _ _ _ => trivial
  exact wp_of_ok (Q := fun b _ => s.used b = false) hwp h

/-- INTERNAL: which blocks are occupied does not depend on the bitmap in memory. -/
theorem occupied_congr (hdisk : t.disk = s.disk) :
    Occupied (viewOf t) b ↔ Occupied (viewOf s) b := by
  have hview : viewOf t = { viewOf s with used := t.used } := by
    simp only [viewOf, hdisk]
  rw [hview]
  exact Iff.rfl

/-- INTERNAL: **the blocks of the tree of a well-formed disk are in use.** -/
theorem used_of_occupied {v : View} (h : Inv v none) (hb : Occupied v b) :
    b < 3000 ∧ v.used b = true := by
  obtain ⟨ps, n, hwalk, hblock⟩ := hb
  rw [(Untouched.refl v).walk h h.toCore.live_root] at hwalk
  have hn := h.tree.walk_live h.toCore.live_root hwalk
  rcases hblock with rfl | ⟨r, hr, rfl⟩
  · have := hn.1
    exact ⟨by omega, hn.2⟩
  · exact (h.toCore.inData (n := n) (r := r) ⟨hn, hr⟩).2

/-- INTERNAL: **the bitmap of a backed disk survives a restart.** SRCLINE: sac.c:113-118 -/
theorem Backed.survives (h : Backed (viewOf s)) : SurvivesRestart s := by
  intro bitmap env
  have hwp : wp loadBitmap (fun _ _ => True) (fun _ _ => False) (s.restarted bitmap env) :=
    loadBitmap_wp fun _ _ _ => trivial
  obtain ⟨⟨⟩, t, hok, -⟩ := exists_ok_of_wp hwp fun _ _ hf => hf
  obtain ⟨hdisk, hused⟩ := used_of_loaded hok
  have hmarked : ∀ b, Occupied (viewOf t) b → t.used b = true := by
    intro b hb
    obtain ⟨hlt, hbefore⟩ := used_of_occupied h.toInv ((occupied_congr hdisk).mp hb)
    rw [hused b hlt]
    exact h.marked b hlt hbefore
  refine ⟨t, hok, hdisk, hmarked, fun p b t' hfree hb => ?_⟩
  have := free_of_getFree hfree
  rw [hmarked b hb] at this
  cases this

/-- INTERNAL: **a block of the tree that the disk does not mark is lost.** SRCLINE:
sac.c:113-118 -/
theorem not_survivesRestart (hb : Occupied (viewOf s) b) (hlt : b < 3000)
    (hunmarked : testBit (s.disk 1) b = false) : ¬ SurvivesRestart s := by
  intro h
  obtain ⟨t, hload, hdisk, hmarks⟩ := h s.bitmap s.env
  have hused := (used_of_loaded hload).2 b hlt
  rw [hmarks.marked b ((occupied_congr hdisk).mpr hb)] at hused
  exact absurd (hused.trans hunmarked) (by decide)

end Restart

/-! ## One request -/

/-- An answer without data, for a result of the file system: the lower half of its id is the
result. SRCLINE: fs_local.c:156-162 -/
structure StatusReply (r : ℤ) (package : Package) : Prop where
  id : i32 package.messageId = i32 r
  size : package.size = 0
  data : package.data = []

section Packing

variable {v : View} {r : ℤ}

/-- INTERNAL: the upper half of an id does not reach an `int`. -/
theorem i32_packed (r : ℤ) (upper : ℕ) :
    i32 (Int.bmod (u32 r + 2 ^ 32 * upper) (2 ^ 64)) = i32 r := by
  have hdvd : (2 ^ 32 : ℕ) ∣ 2 ^ 64 := by decide
  have hlower : (u32 r : ℤ) = r % (2 ^ 32 : ℕ) := by
    unfold u32
    omega
  have hupper : (2 : ℤ) ^ 32 = (2 ^ 32 : ℕ) := rfl
  unfold i32
  rw [Int.bmod_bmod_of_dvd hdvd, hlower, hupper, Int.add_mul_bmod_self_left]
  exact Int.emod_bmod r (2 ^ 32)

/-- INTERNAL: **a result is packed.** SRCLINE: fs_sac.c:8-115 -/
theorem vwp_createDefaultPackage {Q : Package → View → Prop} {E : Fault → View → Prop}
    (h : ∀ package, StatusReply r package → Q package v) :
    vwp (FsSac.createDefaultPackage .ilp32 r) Q E v := by
  unfold FsSac.createDefaultPackage
  refine vwp_bind (vwp_malloc fun stack => ?_)
  have hid := i32_packed r (leNat stack 0 4)
  generalize Int.bmod _ _ = id at hid ⊢
  exact vwp_pure (h _ ⟨hid, rfl, rfl⟩)

theorem exists_packed (r : ℤ) (s : SacState) : ∃ package t,
    FsSac.createDefaultPackage .ilp32 r s = .ok package t ∧ StatusReply r package ∧
      viewOf t = viewOf s := by
  have hwp : vwp (FsSac.createDefaultPackage .ilp32 r)
      (fun package w => StatusReply r package ∧ w = viewOf s) (fun _ _ => False) (viewOf s) :=
    vwp_createDefaultPackage fun _ hr => ⟨hr, rfl⟩
  exact exists_ok_of_wp (hwp s rfl) fun _ _ hf => hf

end Packing

section Requests

variable {v : View} {path : CString} {orphan : Option ℕ} {request : Request} {op : Operation}

/-- INTERNAL: what only reads, as a step over views. -/
theorem vwp_readOnly {α : Type} {x : Sac α} (hread : ReadOnly x) :
    vwp x (fun _ w => w = v) (fun _ _ => True) v := by
  rintro s rfl
  exact wp_mono (hread s) (fun _ _ hs => by rw [hs]) fun _ _ _ => trivial

/-- INTERNAL: the node that a search has found, or the one of an invalid entry, is in the table. -/
theorem Resolved.slot {self : List UInt8} {ps : List (List UInt8)} {e : DirEntry}
    (he : Resolved v 0 ps self e) (h : Inv v orphan) : e.nodeNum < 32 := by
  rcases he with ⟨hwalk, -, -⟩ | ⟨-, -, hzero⟩
  · exact (h.tree.walk_live h.toCore.live_root hwalk).1
  · omega

/-- INTERNAL: a node that was read is stored as it was. SRCLINE: node.c:16-51 -/
theorem vwp_node_back {α : Type} {a : α} {node : Node} {n : ℕ} (hn : n < 32)
    (hfits : (v.inode n).Fits) (hnode : inodeOfNode node = v.inode n) :
    vwp (unmapAndDestroyNode node (2 + n) >>= fun _ => pure a) (fun _ w => w = v)
      (fun _ _ => True) v := by
  refine vwp_bind (vwp_unmapAndDestroyNode hn (hnode ▸ hfits) (vwp_pure ?_))
  rw [hnode, View.setInode_self]

/-- INTERNAL: `sac_stat` on a path that can be passed changes nothing. SRCLINE: sacio.c:315-347 -/
theorem vwp_sacStat_passable (h : Inv v orphan) (hfits : ∀ n, (v.inode n).Fits)
    (hpass : Passable v 0 (stringSplit path.val)) :
    vwp (sacStat path) (fun _ w => w = v) (fun _ _ => True) v := by
  unfold sacStat
  split
  · exact vwp_pure rfl
  refine vwp_bind (vwp_searchPath_passable h hpass fun e he => ?_)
  split
  · exact vwp_pure rfl
  have hslot := he.slot h
  refine vwp_bind (vwp_readNode_any hslot fun node hnode => ?_)
  dsimp only
  split
  · exact vwp_node_back hslot (hfits _) hnode
  · exact vwp_node_back hslot (hfits _) hnode

/-- INTERNAL: `sac_readdir` on a path that can be passed changes nothing. SRCLINE:
sacio.c:349-381 -/
theorem vwp_sacReaddir_passable (h : Inv v orphan) (hfits : ∀ n, (v.inode n).Fits)
    (hpass : Passable v 0 (stringSplit path.val)) :
    vwp (sacReaddir path) (fun _ w => w = v) (fun _ _ => True) v := by
  unfold sacReaddir
  split
  · exact vwp_pure rfl
  refine vwp_bind (vwp_searchPath_passable h hpass fun e he => ?_)
  have hslot := he.slot h
  refine vwp_bind (vwp_readNode_any hslot fun node hnode => ?_)
  dsimp only
  split
  · exact vwp_node_back hslot (hfits _) hnode
  · apply vwp_bind_of (vwp_readOnly (readOnly_iteratePointersBlocks node [])) (fun _ _ he => he)
    rintro r _ rfl
    split
    · exact vwp_throw trivial
    · exact vwp_node_back hslot (hfits _) hnode

/-- INTERNAL: **a request that asks for no operation changes nothing.** SRCLINE: fs_sac.c:13-105 -/
theorem vwp_perform_reading (h : Inv v none) (hfits : ∀ n, (v.inode n).Fits)
    (hreq : HarmlessRequest v request) (hnone : operationOf request = none) :
    vwp (perform .ilp32 request) (fun _ w => w = v) (fun _ _ => True) v := by
  cases request with
  | close fd =>
    unfold perform FsSac.sacClose
    exact vwp_createDefaultPackage fun _ _ => rfl
  | read fd count offset =>
    exact vwp_fsSacRead (vwp_sacRead_any hreq count.toNat offset) (fun _ _ _ hw _ => hw)
      fun _ _ _ _ => trivial
  | stat path =>
    unfold perform FsSac.sacStat
    apply vwp_bind_of (vwp_sacStat_passable h hfits hreq) (fun _ _ he => he)
    rintro ⟨status, stbuf⟩ _ rfl
    dsimp only
    refine vwp_bind ?_
    refine vwp_createDefaultPackage ?_
    intro package _
    split
    · cases stbuf with
      | none => exact vwp_throw trivial
      | some stbuf => exact vwp_pure rfl
    · exact vwp_pure rfl
  | readdir path =>
    unfold perform FsSac.sacReaddir
    apply vwp_bind
    apply vwp_createDefaultPackage
    intro package _
    apply vwp_bind_of (vwp_sacReaddir_passable h hfits hreq) (fun _ _ he => he)
    rintro entries _ rfl
    cases entries with
    | none => exact vwp_pure rfl
    | some entries =>
      refine vwp_bind (vwp_malloc fun fresh => ?_)
      cases FsSac.agregarEntradas fresh entries package with
      | none => exact vwp_throw trivial
      | some package => exact vwp_pure rfl
  | _ => cases hnone

/-- INTERNAL: a negative length is none. SRCLINE: sacio.c:493-496 -/
theorem sacTruncate_toNat (abi : Abi) (path : CString) (size : ℤ) :
    sacTruncate abi path size = sacTruncate abi path (size.toNat : ℤ) := by
  have hsame : (if size < 0 then 0 else size) =
      if (size.toNat : ℤ) < 0 then 0 else (size.toNat : ℤ) := by
    split <;> split <;> omega
  unfold sacTruncate
  rw [hsame]

/-- INTERNAL: the answer is the result of the operation. SRCLINE: fs_sac.c:8-115 -/
theorem perform_eq (hop : operationOf request = some op)
    (hoffset : ∀ fd buffer offset, request = .write fd buffer offset → 0 ≤ offset) :
    perform .ilp32 request = op.perform >>= FsSac.createDefaultPackage .ilp32 := by
  cases request with
  | write fd buffer offset =>
    cases hop
    obtain ⟨k, rfl⟩ := Int.eq_ofNat_of_zero_le (hoffset fd buffer offset rfl)
    simp only [perform, FsSac.sacWrite, Operation.perform, bind_assoc, pure_bind]
    rfl
  | truncate path size =>
    cases hop
    simp only [perform, FsSac.sacTruncate, Operation.perform, ← sacTruncate_toNat]
  | «open» | mkdir | rmdir | remove | rename =>
    cases hop
    rfl
  | close | read | stat | readdir => cases hop

theorem HarmlessRequest.operation (hreq : HarmlessRequest v request)
    (hop : operationOf request = some op) : Harmless v op := by
  cases request with
  | write fd buffer offset =>
    cases hop
    exact hreq.2
  | «open» | mkdir | rmdir | remove | rename | truncate =>
    cases hop
    exact hreq
  | close | read | stat | readdir => cases hop

/-- INTERNAL: **the step lemma**: a harmless request that takes marked blocks keeps the disk
backed. -/
theorem vwp_perform_backed (h : Backed v) (hfits : ∀ n, (v.inode n).Fits)
    (hreq : HarmlessRequest v request)
    (htakes : ∀ op, operationOf request = some op → TakesMarked v op) :
    vwp (perform .ilp32 request) (fun _ w => Backed w) (fun _ _ => True) v := by
  cases hop : operationOf request with
  | none =>
    refine vwp_mono (vwp_perform_reading h.toInv hfits hreq hop) ?_ fun _ _ he => he
    rintro _ _ rfl
    exact h
  | some op =>
    have hharmless := hreq.operation hop
    by_cases hoffset : ∀ fd buffer offset, request = .write fd buffer offset → 0 ≤ offset
    · rw [perform_eq hop hoffset]
      refine vwp_bind_of (R := fun _ w => Backed w) ?_ (fun _ _ he => he) fun _ _ hw =>
        vwp_createDefaultPackage fun _ _ => hw
      rintro s rfl
      refine wp_mono (wp_and (vwp_perform_harmless h.toInv hharmless s rfl)
        (vwp_perform_takes op h.toInv hharmless s rfl)) (fun _ s' hw => ⟨hw.1, fun c hc hused => ?_⟩)
        fun _ _ _ => trivial
      rw [hw.2.metadata]
      cases hbefore : (viewOf s).used c with
      | true => exact h.marked c hc hbefore
      | false => exact htakes op hop c hc hbefore (hw.2.lowest c hbefore hused)
    · -- a write at a negative offset does not return
      simp only [not_forall] at hoffset
      obtain ⟨fd, buffer, offset, rfl, hneg⟩ := hoffset
      obtain ⟨hmin, hn, hstate, -⟩ := hreq
      exact vwp_bind_of (vwp_sacWrite_negative h.toCore hn hstate (not_le.mp hneg) hmin)
        (fun _ _ he => he) fun _ _ hf => hf.elim

end Requests

/-! ## Runs of the server -/

section Runs

variable {s s₀ t u : SacState} {connection : Connection} {connections : List Connection}

/-- INTERNAL: a covered connection keeps the disk backed. SRCLINE: server.c:74-100 -/
theorem Backed.attend (h : Backed (viewOf s)) (hcreated : connection.created = 0)
    (hcovered : Covered s connection) (hok : connection.attend .ilp32 s = .ok () t) :
    Backed (viewOf t) := by
  have hwp : vwp (connection.attend .ilp32) (fun _ w => Backed w) (fun _ _ => True) (viewOf s) := by
    unfold Connection.attend
    split
    next hhandshake =>
      apply vwp_bind
      rw [attendConnection_eq]
      cases hserved : served .ilp32 connection.package with
      | none => exact vwp_throw trivial
      | some request =>
        cases request with
        | none => exact vwp_pure (vwp_pure h)
        | some request =>
          obtain ⟨hreq, htakes⟩ := hcovered hcreated hhandshake request hserved
          exact vwp_mono (vwp_perform_backed h (viewOf_fits s) hreq htakes)
            (fun _ _ hw => vwp_pure hw) fun _ _ he => he
    next => exact vwp_pure h
  exact wp_of_ok (Q := fun _ s' => Backed (viewOf s')) (hwp s rfl) hok

/-- INTERNAL: the first connection is attended, or there is no thread for it. SRCLINE:
server.c:30-42 -/
theorem serverInit_cons : serverInit .ilp32 (connection :: connections) s = .ok false t ↔
    ∃ u, (connection.created = 0 ∧ connection.attend .ilp32 s = .ok () u ∨
      0 < connection.created ∧ u = s) ∧ serverInit .ilp32 connections u = .ok false t := by
  rw [Model.serverInit]
  by_cases hneg : connection.created < 0
  · rw [if_pos hneg]
    constructor
    · intro h
      cases h
    · rintro ⟨u, ⟨hzero, -⟩ | ⟨hpos, -⟩, -⟩ <;> omega
  rw [if_neg hneg]
  by_cases hzero : connection.created = 0
  · rw [if_pos hzero]
    constructor
    · intro h
      obtain ⟨⟨⟩, u, hok, hrest⟩ := exists_ok_of_bind h
      exact ⟨u, Or.inl ⟨hzero, hok⟩, hrest⟩
    · rintro ⟨u, ⟨-, hok⟩ | ⟨hpos, -⟩, hrest⟩
      · rw [bind_of_ok hok]
        exact hrest
      · omega
  · rw [if_neg hzero]
    constructor
    · exact fun h => ⟨s, Or.inr ⟨by omega, rfl⟩, h⟩
    · rintro ⟨u, ⟨h, -⟩ | ⟨-, rfl⟩, hrest⟩
      · exact absurd h hzero
      · exact hrest

/-- INTERNAL: **the disk stays backed**, by induction on the connections. -/
theorem Backed.serverInit (h : Backed (viewOf s))
    (hserved : Model.serverInit .ilp32 connections s = .ok false t)
    (hcovered : ∀ k u c, Model.serverInit .ilp32 (connections.take k) s = .ok false u →
      connections[k]? = some c → Covered u c) : Backed (viewOf t) := by
  induction connections generalizing s with
  | nil =>
    cases hserved
    exact h
  | cons connection connections ih =>
    obtain ⟨u, hfirst, hrest⟩ := serverInit_cons.mp hserved
    have hu : Backed (viewOf u) := by
      rcases hfirst with ⟨hcreated, hok⟩ | ⟨-, rfl⟩
      · exact h.attend hcreated (hcovered 0 s connection rfl rfl) hok
      · exact h
    apply ih hu hrest
    intro k u' c hu' hc
    refine hcovered (k + 1) u' c ?_ hc
    rw [List.take_succ_cons]
    exact serverInit_cons.mpr ⟨u, hfirst, hu'⟩

/-- INTERNAL: a server that is still in its loop. SRCLINE: sac.c:12-32 -/
theorem main_eq_iff (hload : loadBitmap s = .ok () s₀) :
    main .ilp32 connections s = .ok false t ↔
      Model.serverInit .ilp32 connections s₀ = .ok false t := by
  rw [main, bind_of_ok hload]
  constructor
  · intro h
    obtain ⟨left, u, hok, hrest⟩ := exists_ok_of_bind h
    cases left with
    | true =>
      obtain ⟨⟨⟩, u', -, hend⟩ := exists_ok_of_bind hrest
      cases hend
    | false =>
      cases hrest
      exact hok
  · intro h
    rw [bind_of_ok h]
    rfl

/-- **The bitmap survives a restart**, after any connections of a server that was started on a
well-formed disk, if each request takes blocks that the bitmap on the disk marks already.
SRCLINE: sac.c:12-125, server.c:17-46 -/
theorem bitmap_survives_restart (hload : loadBitmap s = .ok () s₀) (himage : Inv (viewOf s₀) none)
    (hserved : main .ilp32 connections s = .ok false t)
    (hcovered : ∀ k u c, main .ilp32 (connections.take k) s = .ok false u →
      connections[k]? = some c → Covered u c) : SurvivesRestart t := by
  obtain ⟨hdisk, hused⟩ := used_of_loaded hload
  have hbacked : Backed (viewOf s₀) := by
    refine ⟨himage, fun c hc hmarked => ?_⟩
    rw [show (viewOf s₀).metadata 1 = s₀.disk 1 from rfl, hdisk, ← hused c hc]
    exact hmarked
  refine (hbacked.serverInit ((main_eq_iff hload).mp hserved) fun k u c hu hc => ?_).survives
  exact hcovered k u c ((main_eq_iff hload).mpr hu) hc

/-- A connection that asks for the removal of the file `/a`. -/
def removeConnection : Connection := ⟨0, 0, ⟨5, 5, [3, 0, 47, 97, 0]⟩⟩

/-- A connection that asks for the file `/a`. -/
def openConnection : Connection := ⟨0, 0, ⟨1, 7, [3, 0, 47, 97, 0, 0, 0]⟩⟩

/-- A connection that asks for the directory `/a`. -/
def mkdirConnection : Connection := ⟨0, 0, ⟨6, 7, [3, 0, 47, 97, 0, 0, 0]⟩⟩

variable (connection) in
/-- INTERNAL: the request of a connection is performed. -/
theorem exists_attended (op : Operation) {request : Request} {r : ℤ}
    (hhandshake : connection.handshake = Identifier.sac.code)
    (hserved : served .ilp32 connection.package = some (some request))
    (hperform : perform .ilp32 request = op.perform >>= FsSac.createDefaultPackage .ilp32)
    (hok : op.perform s = .ok r t) :
    ∃ u, connection.attend .ilp32 s = .ok () u ∧ viewOf u = viewOf t := by
  obtain ⟨package, u, hpacked, -, hview⟩ := exists_packed r t
  refine ⟨u, ?_, hview⟩
  rw [Connection.attend, if_pos hhandshake, attendConnection_eq, hserved]
  dsimp only
  rw [hperform, bind_assoc, bind_of_ok hok, bind_of_ok hpacked]
  rfl

/-! ### A file that is removed and made again -/

/-- INTERNAL: a new file has the lowest free slot, and the slots before it are in use. SRCLINE:
file.c:31-51 -/
theorem slots_before_new {n : ℕ} (hopen : sacOpen aPath newDisk = .ok (n : ℤ) s) :
    ∀ y, 2 ≤ y → y < 2 + n → s.used y = true := by
  have hfresh := fresh_of_formatted formatted_newDisk
  have hinv := hfresh.plain.toInv
  have hcreates := vwp_sacOpen (E := fun _ _ => True) (Q := fun r w => ∃ (m date : ℕ), r = (m : ℤ) ∧
      Created (viewOf newDisk) w 0 [97] m (newInode 1 [97] 0 date)) hinv
    (aPath_target hinv.toCore) (fun _ => by decide)
    (fun m _ hfound => by rw [hfresh.lookup_eq_none] at hfound; cases hfound)
    (fun _ w m date hc => ⟨m, date, rfl, hc⟩) fun _ _ _ _ => trivial
  obtain ⟨⟨m, date, hm, hc⟩, horder⟩ := wp_of_ok (Q := fun r s' => (∃ (m date : ℕ), r = (m : ℤ) ∧
      Created (viewOf newDisk) (viewOf s') 0 [97] m (newInode 1 [97] 0 date)) ∧
        TakenInOrder firstOfRegion newDisk.used s'.used)
    (vwp_inOrder hcreates (inOrder_sacOpen aPath) newDisk rfl) hopen
  obtain rfl := Int.ofNat_inj.mp hm
  obtain ⟨t, hborn, hlinked⟩ := hc.tree
  have hlive : (viewOf s).live n := (hlinked.live n).mpr ((hborn.live n).mpr (Or.inr rfl))
  have hfree : newDisk.used (2 + n) = false := by
    by_contra hused
    exact hc.dead ⟨hc.slot, by simpa using hused⟩
  have hslot := hc.slot
  intro y hy hlt
  refine horder.below (2 + n) hfree hlive.2 y ?_ hlt
  rw [firstOfRegion_node (by omega)]
  exact hy

/-- INTERNAL: a server loads the bitmap of a disk that marks the whole data region, besides what a
state uses. -/
theorem exists_loaded_full (h : Inv (viewOf s) none) : ∃ s₁ s₀, loadBitmap s₁ = .ok () s₀ ∧
    Inv (viewOf s₀) none ∧ (viewOf s₀).inode = (viewOf s).inode ∧
    (viewOf s₀).tree = (viewOf s).tree ∧ (∀ c < 34, s₀.used c = s.used c) ∧
    (∀ c, 34 ≤ c → c < 3000 → s₀.used c = true) ∧
    ∀ c < 3000, testBit ((viewOf s₀).metadata 1) c = s₀.used c := by
  have hview := viewOf_takeAll (List.range' 34 2966) s
  generalize (List.range' 34 2966).foldl SacState.take s = full at hview
  have hfull : ∀ c, full.used c = (decide (c ∈ List.range' 34 2966) || s.used c) :=
    fun c => congrFun (congrArg View.used hview) c
  have hwp : wp loadBitmap (fun _ t => t.disk = (full.setBlock 1 full.bitmap).disk ∧
      ∀ c < 3000, t.used c = testBit full.bitmap c) (fun _ _ => False)
      (full.setBlock 1 full.bitmap) := by
    refine loadBitmap_wp fun t hdisk hused => ⟨hdisk, fun c hc => ?_⟩
    rw [hused c hc, setBlock_same]
  obtain ⟨⟨⟩, s₀, hload, hdisk, hused⟩ := exists_ok_of_wp hwp fun _ _ hf => hf
  have hsame : ∀ b, b ≠ 1 → s₀.disk b = full.disk b := by
    intro b hb
    rw [hdisk, setBlock_ne _ _ hb]
  have hinode : (viewOf s₀).inode = (viewOf s).inode := by
    have hbefore : (viewOf full).inode = (viewOf s).inode := by rw [hview]
    rw [← hbefore]
    funext n
    simp only [viewOf, hsame (2 + n) (by omega)]
  have hdata : (viewOf s₀).data = (viewOf s).data := by
    have hbefore : (viewOf full).data = (viewOf s).data := by rw [hview]
    rw [← hbefore]
    funext b
    by_cases hb : 34 ≤ b
    · simp only [viewOf, hsame b (by omega)]
    · simp only [viewOf, hb, false_and, if_false]
  have hlow : ∀ c < 34, s₀.used c = s.used c := by
    intro c hc
    rw [hused c (by omega)]
    change full.used c = _
    rw [hfull, Bool.or_eq_right_iff_imp, decide_eq_true_eq, List.mem_range'_1]
    omega
  have hhigh : ∀ c, 34 ≤ c → c < 3000 → s₀.used c = true := by
    intro c hc hc'
    have hmem : c ∈ List.range' 34 2966 := List.mem_range'_1.mpr ⟨hc, by omega⟩
    rw [hused c hc']
    change full.used c = _
    rw [hfull, decide_eq_true hmem, Bool.true_or]
  refine ⟨_, s₀, hload, Inv.marked h hinode hdata hlow fun b hb hmarked => ?_, hinode,
    (tree_marked hinode hdata hlow).2, hlow, hhigh, fun c hc => ?_⟩
  · by_cases hlt : b < 34
    · exact (hlow b hlt).trans hmarked
    · exact hhigh b (by omega) hb
  · rw [hused c hc, show (viewOf s₀).metadata 1 = s₀.disk 1 from rfl, hdisk, setBlock_same]

/-- INTERNAL: the removal of the file `/a` leaves room for a new one in an empty directory. -/
theorem freeCount_of_deleted {v w : View} {n : ℕ} (h : Core v) (hn : v.live n)
    (hstate : (v.inode n).state = 1) (hptr : (v.inode n).ptr 0 ≠ 0) (hgap : NoGap (v.inode n))
    (hk : Deleted v w 0 n (freedByRemove v (v.inode n))) :
    freeCount w.used 2 34 ≠ 0 ∧ 2 ≤ freeCount w.used 34 3000 := by
  have hfree : w.used (2 + n) = false := by
    rw [Bool.eq_false_iff]
    exact fun hused => ((hk.used _).mp hused).2.1 rfl
  have hpointer : v.held n (.ptr 0) := ⟨hn, hptr⟩
  have hdata : v.held n (.data 0) := by
    refine ⟨hn, ?_⟩
    rw [Inode.refers, blocks_file hstate hptr]
    exact Nat.succ_pos _
  have hfreed : ∀ r, v.held n r → w.used (v.place n r) = false := by
    intro r hr
    rw [Bool.eq_false_iff]
    intro hused
    apply ((hk.used _).mp hused).2.2
    rw [freedByRemove_of_noGap h hn hstate hgap]
    exact ⟨r, hr, rfl⟩
  have hne : v.place n (.ptr 0) ≠ v.place n (.data 0) := by
    intro e
    have hsame := (h.own.inj n (.ptr 0) n (.data 0) hpointer hdata e).2
    cases hsame
  obtain ⟨hx, hx', -⟩ := h.own.ok n (.ptr 0) hpointer
  obtain ⟨hy, hy', -⟩ := h.own.ok n (.data 0) hdata
  exact ⟨freeCount_slot_ne_zero hn.1 hfree,
    two_le_freeCount hx hx' hy hy' hne (hfreed _ hpointer) (hfreed _ hdata)⟩

/-- INTERNAL: the connection that removes the file `/a`. -/
theorem exists_attended_remove {n : ℕ} (h : Inv (viewOf s) none)
    (hnames : (viewOf s).tree.DistinctNames) (hlookup : (viewOf s).tree.lookup 0 [97] = some n)
    (hstate : ((viewOf s).inode n).state = 1) :
    ∃ u, removeConnection.attend .ilp32 s = .ok () u ∧
      Deleted (viewOf s) (viewOf u) 0 n (freedByRemove (viewOf s) ((viewOf s).inode n)) ∧
      (viewOf u).tree.lookup 0 [97] = none := by
  have ht := aPath_target h.toCore
  obtain ⟨r, hremove, hk⟩ := exists_remove h ht hlookup hstate
  obtain ⟨u, hattend, hu⟩ := exists_attended removeConnection
    (.remove aPath) rfl (show _ = some (some (.remove aPath)) from rfl)
    (perform_eq rfl fun _ _ _ h => by cases h) hremove
  have hgone := (hk.removes h hnames ht hlookup).gone
  rw [leadsTo, (aPath_target hk.inv.toCore).walk] at hgone
  rw [← hu] at hk hgone
  exact ⟨u, hattend, hk, hgone⟩

/-- INTERNAL: the connection that makes the file `/a`, which takes a free slot. -/
theorem exists_attended_open (h : Inv (viewOf s) none)
    (hnone : (viewOf s).tree.lookup 0 [97] = none) (hslots : freeCount (viewOf s).used 2 34 ≠ 0)
    (hblocks : 2 ≤ freeCount (viewOf s).used 34 3000) : ∃ (t : SacState) (m : ℕ),
      openConnection.attend .ilp32 s = .ok () t ∧ s.used (2 + m) = false ∧
        t.used (2 + m) = true := by
  have hcreates := vwp_sacOpen (E := fun _ _ => False) (Q := fun r w => ∃ (m date : ℕ), r = (m : ℤ) ∧
      Created (viewOf s) w 0 [97] m (newInode 1 [97] 0 date)) h (aPath_target h.toCore)
    (fun _ => by decide) (fun m _ hfound => by rw [hnone] at hfound; cases hfound)
    (fun _ w m date hc => ⟨m, date, rfl, hc⟩) fun _ _ _ he => by
      rcases he.full with hzero | hone
      · exact hslots hzero
      · omega
  obtain ⟨r, r', hcreate, m, date, -, hc⟩ := exists_ok_of_wp (hcreates s rfl) fun _ _ hf => hf
  obtain ⟨t, hattend, ht⟩ := exists_attended openConnection
    (.open aPath) rfl (show _ = some (some (.open aPath 0)) from rfl)
    (perform_eq rfl fun _ _ _ h => by cases h) hcreate
  obtain ⟨born, hborn, hlinked⟩ := hc.tree
  have hlive : (viewOf r').live m := (hlinked.live m).mpr ((hborn.live m).mpr (Or.inr rfl))
  rw [← ht] at hlive
  refine ⟨t, m, hattend, ?_, hlive.2⟩
  by_contra hused
  exact hc.dead ⟨hc.slot, by simpa using hused⟩

/-- INTERNAL: a removal takes nothing. -/
theorem covered_remove (h : Inv (viewOf s) none) : Covered s removeConnection := by
  intro _ _ request hrequest
  obtain rfl : Request.remove aPath = request := Option.some.inj (Option.some.inj hrequest)
  refine ⟨⟨(aPath_addressed h.toCore).placed,
    passable_of_dropLast fun _ => ⟨0, (aPath_target h.toCore).split.1, h.root⟩⟩, ?_⟩
  rintro op hop b - - (⟨-, -, hlt⟩ | ⟨-, hlt⟩)
  · cases hop
    exact absurd hlt (Nat.not_lt_zero _)
  · cases hop
    exact absurd hlt (Nat.not_lt_zero _)

/-- INTERNAL: **behind the removal of a file a creation takes marked blocks**, when the slots up to
that of the file and the data region are marked: the lowest free slot is the one that the removal
has released, or one before it. -/
theorem covered_open {v : View} {n : ℕ} {F : Set ℕ} (hk : Deleted v (viewOf s) 0 n F)
    (hslots : ∀ c, 2 ≤ c → c ≤ 2 + n → testBit (v.metadata 1) c = true)
    (hblocks : ∀ c, 34 ≤ c → c < 3000 → testBit (v.metadata 1) c = true) :
    Covered s openConnection := by
  have h := hk.inv
  intro _ _ request hrequest
  obtain rfl : Request.open aPath 0 = request := Option.some.inj (Option.some.inj hrequest)
  refine ⟨⟨(aPath_addressed h.toCore).placed,
    passable_of_dropLast fun _ => ⟨0, (aPath_target h.toCore).split.1, h.root⟩⟩, ?_⟩
  rintro op hop c hc hfree hamong
  rw [hk.metadata]
  cases hop
  rcases hamong with ⟨hge, -, hlowest⟩ | ⟨hge, -⟩
  · have hzero : freeCount s.used 2 c = 0 := by
      simp only [nodesTaken] at hlowest
      split at hlowest
      · exact Nat.lt_one_iff.mp hlowest
      · exact absurd hlowest (Nat.not_lt_zero _)
    by_cases hbehind : 2 + n < c
    · have hreleased := freeCount_eq_zero_iff.mp hzero (2 + n) (by omega) hbehind
      exact absurd rfl ((hk.used _).mp hreleased).2.1
    · exact hslots c hge (not_lt.mp hbehind)
  · exact hblocks c hge hc

/-- The statement for a stored file that is removed and made again: the image marks its blocks, the
removal releases them, and the creation takes them. -/
theorem bitmap_survives_removed_file : ∃ s u t c,
    main .ilp32 [removeConnection] s = .ok false u ∧ u.used c = false ∧
      main .ilp32 [removeConnection, openConnection] s = .ok false t ∧ t.used c = true ∧
        SurvivesRestart t := by
  obtain ⟨n, f₀, f, hopen, -, hf, -, hkept⟩ := exists_oneFile [1] Nat.one_pos (by decide)
  obtain ⟨s, s₀, hload, himage, hinode, htree, hlow, hhigh, hdisk⟩ := exists_loaded_full hf.toInv
  have hlookup : (viewOf s₀).tree.lookup 0 [97] = some n := by
    rw [← (aPath_target himage.toCore).walk, htree]
    exact hf.found
  have hnames : (viewOf s₀).tree.DistinctNames := htree ▸ hf.names
  have hn := (parentBlock_of_lookup himage himage.live_root hlookup).1
  have hstate : ((viewOf s₀).inode n).state = 1 := by
    rw [hinode]
    exact hf.state
  have hptr : ((viewOf s₀).inode n).ptr 0 ≠ 0 := by
    rw [hinode]
    exact hf.ptr
  have hgap : NoGap ((viewOf s₀).inode n) := by
    rw [hinode]
    exact hf.noStray.noGap ((hf.node n hf.live).file hf.state) hf.ptr
  -- the two connections
  obtain ⟨u, hattend, hk, hgone⟩ := exists_attended_remove himage hnames hlookup hstate
  obtain ⟨hslots, hblocks⟩ := freeCount_of_deleted himage.toCore hn hstate hptr hgap hk
  obtain ⟨t, m, hattend', hfree, hused⟩ := exists_attended_open hk.inv hgone hslots hblocks
  have hrest : serverInit .ilp32 [openConnection] u = .ok false t :=
    serverInit_cons.mpr ⟨t, Or.inl ⟨rfl, hattend'⟩, rfl⟩
  have hrun : main .ilp32 [removeConnection] s = .ok false u :=
    (main_eq_iff hload).mpr (serverInit_cons.mpr ⟨u, Or.inl ⟨rfl, hattend⟩, rfl⟩)
  have hrun' : main .ilp32 [removeConnection, openConnection] s = .ok false t :=
    (main_eq_iff hload).mpr (serverInit_cons.mpr ⟨u, Or.inl ⟨rfl, hattend⟩, hrest⟩)
  have hcovered : Covered u openConnection := by
    apply covered_open hk
    · intro c hc hle
      have hslot := hn.1
      rw [hdisk c (by omega)]
      rcases Nat.lt_or_ge c (2 + n) with hbefore | hge
      · rw [hlow c (by omega)]
        exact hkept c (slots_before_new hopen c hc hbefore)
      · obtain rfl : c = 2 + n := by omega
        exact hn.2
    · intro c hc hlt
      rw [hdisk c hlt]
      exact hhigh c hc hlt
  refine ⟨s, u, t, 2 + m, hrun, hfree, hrun', hused, ?_⟩
  apply bitmap_survives_restart hload himage hrun'
  rintro (_ | _ | k) w connection hw hconnection
  · have hnil := (main_eq_iff hload).mp hw
    cases hnil
    obtain rfl : removeConnection = connection := Option.some.inj hconnection
    exact covered_remove himage
  · obtain rfl : u = w := by
      rw [List.take_succ_cons, List.take_zero, hrun] at hw
      exact (EStateM.Result.ok.inj hw).2
    obtain rfl : openConnection = connection := Option.some.inj hconnection
    exact hcovered
  · cases hconnection

/-- **A directory that was made on a new disk is not marked after a restart.** SRCLINE:
sac.c:12-125, server.c:17-46 -/
theorem mkdir_lost_after_restart : ∃ s s₀ t, Formatted s₀ ∧ loadBitmap s = .ok () s₀ ∧
    main .ilp32 [mkdirConnection] s = .ok false t ∧ ¬ SurvivesRestart t := by
  obtain ⟨s₁, s₂, bitmap, env, hformat, hload⟩ := formatted_newDisk
  have hfresh := fresh_of_formatted formatted_newDisk
  have hplain := hfresh.plain
  have ht := aPath_target hplain.toCore
  have hnone := hfresh.lookup_eq_none 0 [97]
  obtain ⟨n, t, date, hok, hc⟩ := exists_mkdir hplain.toInv ht (by decide) hnone (by omega)
    hfresh.spare
  obtain ⟨u, hattend, hu⟩ := exists_attended mkdirConnection (.mkdir aPath)
    rfl (show _ = some (some (.mkdir aPath 0)) from rfl) (perform_eq rfl fun _ _ _ h => by cases h)
    hok
  have hinit : serverInit .ilp32 [mkdirConnection] newDisk = .ok false u :=
    serverInit_cons.mpr ⟨u, Or.inl ⟨rfl, hattend⟩, rfl⟩
  have hserved := (main_eq_iff hload).mpr hinit
  refine ⟨_, newDisk, u, formatted_newDisk, hload, hserved, ?_⟩
  rw [← hu] at hc
  have hfound := (hc.newNode hplain ht hnone).found
  have hwalk : (diskTree (viewOf u)).walk 0 (stringSplit aPath.val) =
      (viewOf u).tree.walk 0 (stringSplit aPath.val) :=
    (Untouched.refl (viewOf u)).walk hc.inv hc.inv.toCore.live_root
  have hslot := hc.slot
  have hunused : newDisk.used (2 + n) = false := by
    by_contra hused
    exact hc.dead ⟨hslot, by simpa using hused⟩
  obtain ⟨hdisk, hused⟩ := used_of_loaded hload
  apply not_survivesRestart (b := 2 + n) ⟨_, n, hwalk.trans hfound, Or.inl rfl⟩ (by omega)
  have hmetadata : u.disk 1 = newDisk.disk 1 := congrFun hc.metadata 1
  rw [hmetadata, hdisk, ← hused _ (by omega), hunused]

end Runs

end LinuseFs.Analysis
