import LinuseFs.Analysis.NameRuns

/-!
# Names of any length

A name goes through the 71 bytes of a node, the 124 bytes of a record and the 71 bytes of a
decoded entry, each time with its NUL.  The first of these copies decides: a name of 70 bytes
fits everywhere, and `create_node` copies a longer one past the end of its field.  The sizes that
are documented, 71 bytes for a name, leave out the NUL.
-/

set_option autoImplicit false

namespace LinuseFs.Analysis

open LinuseFs.Computation LinuseFs.Model LinuseFs.Interface

/-- From `s` to `s'` the directory `d` has got the entry `name`, which leads to the new node `n`:
`search_path` returns exactly this name and number, the node carries the name, its parent and the
size it was created with, and the other entries of the directory are as they were. -/
structure Stored (s s' : SacState) (path : CString) (d : ℕ) (name : List UInt8) (state : UInt8)
    (n : ℕ) : Prop where
  free : ¬ (viewOf s).live n
  live : (viewOf s').live n
  search : ∃ e s'', searchPath path.val s' = .ok e s'' ∧ isValidEntry e = true ∧
    e.name = name ∧ e.nodeNum = n
  state_eq : ((viewOf s').inode n).state = state
  name_eq : ((viewOf s').inode n).name = some name
  parent : ((viewOf s').inode n).parentBlock = getBlockNumFromNodeNum d
  size : ((viewOf s').inode n).fileSize = 0
  entries : (viewOf s').tree.entries d = (viewOf s).tree.entries d ++ [(name, n)]

/-- There are blocks for one more entry of `d`: a slot of the node table, and two data blocks when
it is the first one. -/
def HasRoom (v : View) (d : ℕ) : Prop :=
  freeCount v.used 2 34 ≠ 0 ∧ ((v.inode d).fileSize = 0 → 2 ≤ freeCount v.used 34 3000)

/-- The call refuses the name, with nothing changed: the directory has it, it is longer than
what is documented, or there are no blocks for it. -/
structure Refused (s s' : SacState) (d : ℕ) (name : List UInt8) : Prop where
  same : viewOf s' = viewOf s
  reason : ((viewOf s).tree.lookup d name).isSome ∨ 71 < name.length ∨ ¬ HasRoom (viewOf s) d

/-- `sac_mkdir` refuses the name, by its answer or by the stop of the allocator, or stores it. -/
def MkdirStores (s : SacState) (path : CString) (d : ℕ) (name : List UInt8) : Prop :=
  wp (sacMkdir path)
    (fun r s' => r = -1 ∧ Refused s s' d name ∨ r = 0 ∧ ∃ n, Stored s s' path d name 2 n)
    (fun e s' => e.IsAlloc ∧ Refused s s' d name) s

/-- `sac_open` opens the name that is there, or it refuses the name or stores it. -/
def OpenStores (s : SacState) (path : CString) (d : ℕ) (name : List UInt8) : Prop :=
  wp (sacOpen path)
    (fun r s' =>
      (∃ n : ℕ, (viewOf s).tree.lookup d name = some n ∧ r = n ∧ viewOf s' = viewOf s) ∨
      r = -1 ∧ Refused s s' d name ∨ ∃ n : ℕ, r = n ∧ Stored s s' path d name 1 n)
    (fun e s' => e.IsAlloc ∧ Refused s s' d name) s

section StoredNames

variable {s s' : SacState} {path : CString} {d n : ℕ} {name : List UInt8} {state : UInt8}
  {date : ℕ}

/-- INTERNAL: **a creation stores its name.** -/
theorem Created.stored
    (hc : Created (viewOf s) (viewOf s') d name n (newInode state name d date))
    (h : Inv (viewOf s) none) (ht : Target (viewOf s) path d name)
    (hnone : (viewOf s).tree.lookup d name = none) : Stored s s' path d name state n := by
  obtain ⟨t, hborn, hlinked⟩ := hc.tree
  have hd := ht.live h
  obtain ⟨front, hpath, hfront⟩ := ht.cut
  have hdn : d ≠ n := by
    rintro rfl
    exact hc.dead hd
  have hentries : (viewOf s').tree.entries d = (viewOf s).tree.entries d ++ [(name, n)] := by
    rw [hlinked.entries_dir, hborn.entries d hdn]
  have hwalk := Namespace.walk_created h.tree hborn hlinked hc.dead hd hfront hnone
  have ht' : Target (viewOf s') path d name := by
    refine ⟨ht.valid, ⟨front, hpath, ?_⟩, ht.slash_free, ht.name_ne, hc.dir⟩
    rw [hwalk, if_neg (by simp), hfront]
  have hlookup : (viewOf s').tree.lookup d name = some n := by
    rw [hlinked.lookup, if_pos ⟨rfl, rfl⟩, hborn.lookup hdn, hnone, Option.none_or]
  have hsearch : vwp (searchPath path.val)
      (fun e _ => isValidEntry e = true ∧ e.name = name ∧ e.nodeNum = n) (fun _ _ => False)
      (viewOf s') := by
    refine vwp_searchPath_target hc.inv ht' (fun e m hm hnum hvalid hname => ?_)
      fun e hmissing => ?_
    · rw [hlookup] at hm
      cases hm
      exact ⟨hvalid, hname, hnum⟩
    · rw [hlookup] at hmissing
      cases hmissing
  obtain ⟨e, s'', hok, he⟩ := exists_ok_of_wp (hsearch s' rfl) fun _ _ hf => hf
  refine ⟨hc.dead, (hlinked.live n).mpr ((hborn.live n).mpr (Or.inr rfl)), ⟨e, s'', hok, he⟩,
    ?_, ?_, ?_, ?_, hentries⟩ <;> rw [hc.node] <;> rfl

/-- INTERNAL: **a name of 71 bytes or more leaves the field of `create_node`.** SRCLINE:
utils.c:88-99 -/
theorem vwp_createNode_long {v : View} {Q : Node → View → Prop} {E : Fault → View → Prop}
    {parentBlock fileSize creationDate modificationDate : ℕ} {ptr : ℕ → ℕ}
    (hlong : 71 ≤ name.length) (hE : E .memory v) :
    vwp (createNode state name parentBlock fileSize creationDate modificationDate ptr) Q E v := by
  refine vwp_bind (vwp_malloc fun fresh => ?_)
  rw [if_neg (by simp only [fileNameSize]; omega)]
  exact vwp_throw hE

/-- INTERNAL: no directory has a name of 71 bytes. -/
theorem lookup_long {v : View} (hlong : 71 ≤ name.length) : v.tree.lookup d name = none := by
  cases hlookup : v.tree.lookup d name with
  | none => rfl
  | some n =>
    have := length_le_of_lookup hlookup
    omega

/-- INTERNAL: a free slot is counted. -/
theorem freeCount_slot_ne_zero {v : View} (hn : n < 32) (hfree : v.used (2 + n) = false) :
    freeCount v.used 2 34 ≠ 0 := by
  intro hzero
  rw [freeCount_eq_zero_iff.mp hzero (2 + n) (by omega) (by omega)] at hfree
  cases hfree

/-- INTERNAL: **`sac_mkdir` of a long name** overruns the name field, unless no node is free.
SRCLINE: directory.c:161-179 -/
theorem vwp_sacMkdir_long {v : View} (h : Inv v none) (ht : Target v path d name)
    (hlong : 71 ≤ name.length) :
    vwp (sacMkdir path) (fun _ _ => False)
      (fun e w => e = .memory ∧ freeCount v.used 2 34 ≠ 0 ∨
        e.IsAlloc ∧ freeCount v.used 2 34 = 0 ∧ w = v) v := by
  have hnone := lookup_long (v := v) (d := d) hlong
  refine vwp_sacMkdir_entry h ht (fun hfound => ?_) fun _ node _ => ?_
  · rw [hnone] at hfound
    cases hfound
  · refine vwp_bind (vwp_bind (vwp_getFreeNodeBlock (fun n hn hfree _ => ?_)
      fun e he hcount => Or.inr ⟨he, hcount, rfl⟩))
    refine vwp_bind (vwp_bind (vwp_bind (vwp_time fun date _ => vwp_createNode_long hlong ?_)))
    exact Or.inl ⟨rfl, freeCount_slot_ne_zero hn hfree⟩

/-- INTERNAL: **`sac_open` of a long name** overruns the name field. SRCLINE: file.c:31-36 -/
theorem vwp_sacOpen_long {v : View} (h : Inv v none) (ht : Target v path d name)
    (hlong : 71 ≤ name.length) :
    vwp (sacOpen path) (fun _ _ => False) (fun e _ => e = .memory) v := by
  have hnone := lookup_long (v := v) (d := d) hlong
  refine vwp_sacOpen_entry h ht (vwp_createAndSaveFileNode_entry h (ht.live h) ht.state ht.name_ne
    (fun n hfound => ?_) fun _ folder _ => ?_)
  · rw [hnone] at hfound
    cases hfound
  · exact vwp_bind (vwp_bind (vwp_time fun date _ => vwp_createNode_long hlong rfl))

/-- INTERNAL: **a creation that the allocator stops** refuses the name exactly when no slot was
free: otherwise the node is on the disk already. -/
theorem refused_of_outOfBlocks {e : Fault} (he : OutOfBlocks (viewOf s) d e (viewOf s')) :
    Refused s s' d name ↔ freeCount s.used 2 34 = 0 := by
  constructor
  · intro hrefused
    rcases he with ⟨-, ⟨hzero, -⟩ | ⟨-, -, n, -, hfree, hused⟩⟩
    · exact hzero
    · rw [hrefused.same, hfree] at hused
      cases hused
  · intro hzero
    rcases he with ⟨-, ⟨-, hsame⟩ | ⟨-, -, n, hn, hfree, -⟩⟩
    · exact ⟨hsame, Or.inr (Or.inr fun hroom => hroom.1 hzero)⟩
    · exact absurd hzero (freeCount_slot_ne_zero hn hfree)

/-- INTERNAL: with room for the first record the allocator stops for lack of a slot only. -/
theorem OutOfBlocks.noSlot {v w : View} {e : Fault} (he : OutOfBlocks v d e w)
    (hrecord : (v.inode d).fileSize = 0 → 2 ≤ freeCount v.used 34 3000) :
    freeCount v.used 2 34 = 0 := by
  rcases he with ⟨-, ⟨hzero, -⟩ | ⟨hempty, hfull, -⟩⟩
  · exact hzero
  · have hcount := hrecord hempty
    omega

/-- INTERNAL: `sac_mkdir` of a name that fits. -/
theorem vwp_sacMkdir_short (h : Inv (viewOf s) none) (ht : Target (viewOf s) path d name)
    (hlen : (viewOf s).tree.lookup d name = none → name.length ≤ 70) :
    vwp (sacMkdir path)
      (fun r w => r = -1 ∧ w = viewOf s ∧ ((viewOf s).tree.lookup d name).isSome ∨
        r = 0 ∧ (viewOf s).tree.lookup d name = none ∧
          ∃ n date, Created (viewOf s) w d name n (newInode 2 name d date))
      (fun e w => (viewOf s).tree.lookup d name = none ∧ OutOfBlocks (viewOf s) d e w)
      (viewOf s) :=
  vwp_sacMkdir h ht hlen (fun hfound => Or.inl ⟨rfl, rfl, hfound⟩)
    (fun hnone _ n date hc => Or.inr ⟨rfl, hnone, n, date, hc⟩) fun hnone _ _ he => ⟨hnone, he⟩

/-- INTERNAL: `sac_open` of a name that fits. -/
theorem vwp_sacOpen_short (h : Inv (viewOf s) none) (ht : Target (viewOf s) path d name)
    (hlen : (viewOf s).tree.lookup d name = none → name.length ≤ 70) :
    vwp (sacOpen path)
      (fun r w => (∃ n : ℕ, (viewOf s).tree.lookup d name = some n ∧ r = n ∧ w = viewOf s) ∨
        (viewOf s).tree.lookup d name = none ∧
          ∃ (n : ℕ) (date : ℕ), r = n ∧ Created (viewOf s) w d name n (newInode 1 name d date))
      (fun e w => (viewOf s).tree.lookup d name = none ∧ OutOfBlocks (viewOf s) d e w)
      (viewOf s) :=
  vwp_sacOpen h ht hlen (fun n _ hfound => Or.inl ⟨n, hfound, rfl, rfl⟩)
    (fun hnone _ n date hc => Or.inr ⟨hnone, n, date, rfl, hc⟩) fun hnone _ _ he => ⟨hnone, he⟩

/-- INTERNAL: **when a creation stores or refuses a name that the field holds**: it fails to only
where the allocator stops it behind the new node, for lack of the blocks of a first record. -/
theorem storesOrRefuses_iff {α : Type} {x : Sac α} {Q : α → SacState → Prop}
    (hx : wp x (fun r s' => Q r s' ∧ (((viewOf s).tree.lookup d name).isSome ∨
        (((viewOf s).inode d).fileSize = 0 → 2 ≤ freeCount s.used 34 3000)))
      (fun e s' => (viewOf s).tree.lookup d name = none ∧
        OutOfBlocks (viewOf s) d e (viewOf s')) s) :
    wp x Q (fun e s' => e.IsAlloc ∧ Refused s s' d name) s ↔
      ((viewOf s).tree.lookup d name).isSome ∨ freeCount s.used 2 34 = 0 ∨
        (((viewOf s).inode d).fileSize = 0 → 2 ≤ freeCount s.used 34 3000) := by
  constructor
  · intro hstores
    by_contra hno
    rw [not_or, not_or] at hno
    have hstops : wp x (fun _ _ => False)
        (fun e s' => OutOfBlocks (viewOf s) d e (viewOf s')) s := by
      refine wp_mono hx (fun r s' hr => ?_) fun _ _ he => he.2
      exact hr.2.elim hno.1 hno.2.2
    obtain ⟨e, s', herror, he⟩ := exists_error_of_wp hstops
    exact hno.2.1 ((refused_of_outOfBlocks he).mp (wp_of_error hstores herror).2)
  · intro hcond
    apply wp_mono hx (fun r s' hr => hr.1)
    intro e s' he
    obtain ⟨hnone, hstop⟩ := he
    refine ⟨hstop.1, (refused_of_outOfBlocks hstop).mpr ?_⟩
    rw [hnone] at hcond
    exact (hcond.resolve_left Bool.false_ne_true).elim id fun hroom => hstop.noSlot hroom

/-- INTERNAL: **when `sac_mkdir` fulfils it**, for a name that the field holds. -/
theorem mkdirStores_short_iff (h : Inv (viewOf s) none) (ht : Target (viewOf s) path d name)
    (hlen : (viewOf s).tree.lookup d name = none → name.length ≤ 70) :
    MkdirStores s path d name ↔ ((viewOf s).tree.lookup d name).isSome ∨
      freeCount s.used 2 34 = 0 ∨
      (((viewOf s).inode d).fileSize = 0 → 2 ≤ freeCount s.used 34 3000) := by
  apply storesOrRefuses_iff
  refine wp_mono (vwp_sacMkdir_short h ht hlen s rfl) (fun r s' hr => ?_) fun _ _ he => he
  rcases hr with ⟨rfl, hsame, hfound⟩ | ⟨rfl, hnone, n, date, hc⟩
  · exact ⟨Or.inl ⟨rfl, hsame, Or.inl hfound⟩, Or.inl hfound⟩
  · exact ⟨Or.inr ⟨rfl, n, hc.stored h ht hnone⟩, Or.inr hc.room⟩

/-- INTERNAL: **when `sac_open` fulfils it**, for a name that the field holds. -/
theorem openStores_short_iff (h : Inv (viewOf s) none) (ht : Target (viewOf s) path d name)
    (hlen : (viewOf s).tree.lookup d name = none → name.length ≤ 70) :
    OpenStores s path d name ↔ ((viewOf s).tree.lookup d name).isSome ∨
      freeCount s.used 2 34 = 0 ∨
      (((viewOf s).inode d).fileSize = 0 → 2 ≤ freeCount s.used 34 3000) := by
  apply storesOrRefuses_iff
  refine wp_mono (vwp_sacOpen_short h ht hlen s rfl) (fun r s' hr => ?_) fun _ _ he => he
  rcases hr with ⟨n, hfound, rfl, hsame⟩ | ⟨hnone, n, date, rfl, hc⟩
  · refine ⟨Or.inl ⟨n, hfound, rfl, hsame⟩, Or.inl ?_⟩
    rw [hfound]
    rfl
  · exact ⟨Or.inr (Or.inr ⟨n, rfl, hc.stored h ht hnone⟩), Or.inr hc.room⟩

/-- INTERNAL: when `sac_mkdir` fulfils it for a long name. -/
theorem mkdirStores_long_iff (h : Inv (viewOf s) none) (ht : Target (viewOf s) path d name)
    (hlong : 71 ≤ name.length) : MkdirStores s path d name ↔ freeCount s.used 2 34 = 0 := by
  have hmkdir := vwp_sacMkdir_long h ht hlong
  constructor
  · intro hstores
    obtain ⟨e, s', herror, ⟨rfl, -⟩ | ⟨-, hzero, -⟩⟩ := exists_error_of_wp (hmkdir s rfl)
    · exact absurd (wp_of_error hstores herror).1 not_isAlloc_memory
    · exact hzero
  · intro hzero
    apply wp_mono (hmkdir s rfl) (fun _ _ hf => hf.elim)
    intro e s' he
    rcases he with ⟨-, hcount⟩ | ⟨halloc, -, hsame⟩
    · exact absurd hzero hcount
    · exact ⟨halloc, hsame, Or.inr (Or.inr fun hroom => hroom.1 hzero)⟩

theorem not_openStores_long (h : Inv (viewOf s) none) (ht : Target (viewOf s) path d name)
    (hlong : 71 ≤ name.length) : ¬ OpenStores s path d name := by
  intro hstores
  obtain ⟨e, s', herror, rfl⟩ := exists_error_of_wp (vwp_sacOpen_long h ht hlong s rfl)
  exact not_isAlloc_memory (wp_of_error hstores herror).1

/-- **Names are stored faithfully or refused** exactly when the directory has the name, or the
name has at most 70 bytes and there is room for its record; or when no slot of the node table is
free and the server stops before anything is stored, which is before the name is copied in
`sac_mkdir`, and behind it in `sac_open`. SRCLINE: sacio.c:13-50, sacio.c:121-150,
directory.c:161-213, file.c:15-51, utils.c:88-99 -/
theorem names_stored_iff (h : Inv (viewOf s) none) (ht : Target (viewOf s) path d name) :
    (MkdirStores s path d name ↔ ((viewOf s).tree.lookup d name).isSome ∨
      freeCount s.used 2 34 = 0 ∨ name.length ≤ 70 ∧ HasRoom (viewOf s) d) ∧
    (OpenStores s path d name ↔ ((viewOf s).tree.lookup d name).isSome ∨
      name.length ≤ 70 ∧ (freeCount s.used 2 34 = 0 ∨ HasRoom (viewOf s) d)) := by
  have hroom : HasRoom (viewOf s) d ↔ freeCount s.used 2 34 ≠ 0 ∧
      (((viewOf s).inode d).fileSize = 0 → 2 ≤ freeCount s.used 34 3000) := Iff.rfl
  rw [hroom]
  by_cases hlen : name.length ≤ 70
  · rw [mkdirStores_short_iff h ht fun _ => hlen, openStores_short_iff h ht fun _ => hlen]
    constructor <;> tauto
  · have hnone := lookup_long (v := viewOf s) (d := d) (not_le.mp hlen)
    rw [mkdirStores_long_iff h ht (not_le.mp hlen), hnone]
    refine ⟨by simp [hlen], iff_of_false (not_openStores_long h ht (not_le.mp hlen)) ?_⟩
    simp [hlen]

/-- The statement on a new disk, for the path `/a`. -/
theorem names_stored_new_disk :
    (MkdirStores newDisk aPath 0 [97] ↔ ((viewOf newDisk).tree.lookup 0 [97]).isSome ∨
      freeCount newDisk.used 2 34 = 0 ∨ [(97 : UInt8)].length ≤ 70 ∧ HasRoom (viewOf newDisk) 0) ∧
    (OpenStores newDisk aPath 0 [97] ↔ ((viewOf newDisk).tree.lookup 0 [97]).isSome ∨
      [(97 : UInt8)].length ≤ 70 ∧
        (freeCount newDisk.used 2 34 = 0 ∨ HasRoom (viewOf newDisk) 0)) := by
  have hinv := (fresh_of_formatted formatted_newDisk).inv.1
  exact names_stored_iff hinv (aPath_target hinv.toCore)

/-- The path of a name of 71 letters in the root directory. -/
def longPath : CString := ⟨slash :: List.replicate 71 97, by decide⟩

/-- **A name of 71 bytes, which the documentation allows**, is neither stored nor refused on a new
disk. SRCLINE: utils.c:88-99 -/
theorem long_name_overruns :
    Target (viewOf newDisk) longPath 0 (List.replicate 71 97) ∧
    ¬ MkdirStores newDisk longPath 0 (List.replicate 71 97) ∧
    ¬ OpenStores newDisk longPath 0 (List.replicate 71 97) := by
  have hfresh := fresh_of_formatted formatted_newDisk
  have hinv := hfresh.inv.1
  have ht : Target (viewOf newDisk) longPath 0 (List.replicate 71 97) :=
    root_target hinv.toCore rfl (by decide) (by decide)
  have hlong : 71 ≤ (List.replicate 71 (97 : UInt8)).length := by decide
  refine ⟨ht, ?_, not_openStores_long hinv ht hlong⟩
  rw [mkdirStores_long_iff hinv ht hlong]
  have hspare := hfresh.spare.1
  have hused : (viewOf newDisk).used = newDisk.used := rfl
  rw [hused] at hspare
  omega

end StoredNames

end LinuseFs.Analysis
