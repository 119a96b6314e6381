import LinuseFs.Analysis.TreeOnDisk
import LinuseFs.Analysis.Restart
import LinuseFs.Analysis.ReaddirReply
import LinuseFs.Analysis.Renaming

/-!
# The server is a file tree

Each request that the server performs is a step of the file tree on its disk, and the answer it
packs is the answer of that step.  So is a run of requests, with the one way to stop that a tree
does not have: when fewer blocks are free than the request may take.

Which requests these are is a condition on the tree: a path leads past no file, a descriptor is
the number of a file, a read asks for a file that is not empty.
-/

set_option autoImplicit false

namespace LinuseFs.Analysis

open LinuseFs.Computation LinuseFs.Model LinuseFs.Interface

/-! ## Requests and answers -/

/-- What the file system does where it is free: it cuts a file by whole blocks, fills a gap with
NULs and the end with letters. SRCLINE: sacio.c:181-200, 522-552 -/
def sacPolicy : FileTree.Policy UInt8 := ⟨sizeLeft, 0, 65⟩

/-- What a request asks of the tree; `sac_close` asks nothing of it. SRCLINE: sacio.c:490-492 -/
def callOf : Request → Option (FileTree.Call ℕ (List UInt8) UInt8)
  | .open path _ => some (.create (stringSplit path.val))
  | .close _ => none
  | .write fd buffer offset => some (.write fd.toNat offset.toNat buffer)
  | .read fd count offset => some (.read fd.toNat count.toNat offset.toNat)
  | .remove path => some (.remove (stringSplit path.val))
  | .mkdir path _ => some (.mkdir (stringSplit path.val))
  | .rmdir path => some (.rmdir (stringSplit path.val))
  | .stat path => some (.stat (stringSplit path.val))
  | .readdir path => some (.list (stringSplit path.val))
  | .rename oldPath newPath => some (.rename (stringSplit oldPath.val) (stringSplit newPath.val))
  | .truncate path size => some (.truncate (stringSplit path.val) size.toNat)

/-- The fields of an answer to STAT. SRCLINE: fs_sac.c:48-74 -/
def statPackage (id : ℤ) (isDirOrFile ino size : ℕ) (mtim ctim : ℤ) : Package where
  messageId := id
  size := 2 + 2 + 4 + 8 + 8
  data := le 2 isDirOrFile ++ le 2 ino ++ leInt 4 size ++ leInt 8 mtim ++ leInt 8 ctim

/-- The package carries the answer to the request.  Of most ids the server sets the lower half;
`_sac_readdir` sets the whole id when it fails. SRCLINE: fs_sac.c:8-115 -/
def Reports (request : Request) (package : Package) :
    FileTree.Reply ℕ (List UInt8) UInt8 → Prop
  | .done => StatusReply 0 package
  | .refused => StatusReply (-1) package ∧ ∀ path, request = .readdir path → package.messageId = -1
  | .notEmpty => StatusReply (-2) package
  | .number n => StatusReply n package
  | .count k => StatusReply k package
  | .bytes l => package.messageId = 0 ∧ package.size = l.length ∧ package.data.take l.length = l
  | .directory n entries => ∃ id mtim ctim, i32 id = 0 ∧
      package = statPackage id 2 n (128 * entries) mtim ctim
  | .file n size => ∃ id mtim ctim, i32 id = 0 ∧ package = statPackage id 1 n size mtim ctim
  | .names l => ∃ names : List CString, names.map Subtype.val = l ∧
      (names.length ≤ 31 ∧ ∀ name ∈ names, name.val.length ≤ 70) ∧
      ∃ id, i32 id = 0 ∧ package = ⟨id, (encNames names).length, encNames names⟩

/-- The tree becomes `t'` by the request, and the package carries its answer. -/
def TreeStep (t : Tree) (event : Request × Package) (t' : Tree) : Prop :=
  match callOf event.1 with
  | none => t' = t
  | some call => ∃ reply, FileTree.Step sacPolicy t call reply t' ∧ Reports event.1 event.2 reply

/-- The path is valid and leads past no file. -/
structure Clear (t : Tree) (path : CString) : Prop where
  valid : isValidPath path.val = true
  passes : t.PassesNoFile (stringSplit path.val)

/-- The requests that are answered as the tree says. -/
def Allowed (t : Tree) : Request → Prop
  | .open path _ => Sent path ∧ Clear t path
  | .mkdir path _ => Sent path ∧ Clear t path
  | .close _ => True
  | .write fd _ offset => 0 ≤ offset ∧ ∃ ps c, t.node ps = some (fd.toNat, .file c) ∧
      (offset.toNat ≤ c.length ∨ offset.toNat < 4096)
  | .read fd count offset => 0 ≤ offset ∧ offset < 2 ^ 31 ∧ 0 ≤ count ∧ offset + count < 2 ^ 32 ∧
      ∃ ps c, t.node ps = some (fd.toNat, .file c) ∧ c ≠ []
  | .remove path => path.val ≠ [slash] ∧ Clear t path
  | .rmdir path => path.val ≠ [slash] ∧ Clear t path
  | .stat path => Clear t path
  | .readdir path => Clear t path
  | .rename oldPath newPath =>
    (oldPath.val ≠ [slash] ∧ Clear t oldPath) ∧ (Sent newPath ∧ Clear t newPath) ∧
      (t.HasParent (stringSplit oldPath.val) → t.HasParent (stringSplit newPath.val) →
        t.Movable (stringSplit oldPath.val) (stringSplit newPath.val))
  -- the last block of the file is not the last one of a pointer block
  | .truncate path size => path.val ≠ [slash] ∧ Clear t path ∧ size < 2 ^ 31 ∧
      ∀ n c, t.node (stringSplit path.val) = some (n, .file c) → size < c.length →
        (c.length / 4096 + 1) % 1024 ≠ 0

/-- The data blocks that suffice for `count` bytes from `offset` on: each may need a pointer
block. -/
def blocksFor (offset count : ℕ) : ℕ := 2 * ((offset % 4096 + count) / 4096 + 1)

/-- Less is free than the request may take. -/
def ShortOf (v : View) (t : Tree) : Request → Prop
  | .open _ _ | .mkdir _ _ => freeCount v.used 2 34 = 0 ∨ freeCount v.used 34 3000 ≤ 1
  | .rename _ _ => freeCount v.used 34 3000 ≤ 1
  | .write _ buffer offset => freeCount v.used 34 3000 < blocksFor offset.toNat buffer.length
  | .truncate path size => ∃ n c, t.node (stringSplit path.val) = some (n, .file c) ∧
      c.length < size ∧ freeCount v.used 34 3000 < blocksFor c.length (size.toNat - c.length)
  | _ => False

/-- The allocator has stopped the server for lack of blocks. -/
def RunsOut (v : View) (t : Tree) (request : Request) (e : Fault) (_ : View) : Prop :=
  e.IsAlloc ∧ ShortOf v t request

/-- The tree of the disk has made the step of the request. -/
def AnsweredBy (t : Tree) (request : Request) (package : Package) (w : View) : Prop :=
  ∃ t', TreeStep t (request, package) t' ∧ Represents w t'

section Paths

variable {v w : View} {t : Tree} {path : CString} {E : Fault → View → Prop}

/-- INTERNAL: **where a path leads to**: into a directory, or nowhere. -/
theorem Represents.target_or_missing (h : Represents v t) (hclear : Clear t path)
    (hroot : path.val ≠ [slash]) :
    (v.tree.walk 0 (stringSplit path.val).dropLast = none ∧
      v.tree.walk 0 (stringSplit path.val) = none ∧ ¬ t.HasParent (stringSplit path.val)) ∨
    ∃ front x d, stringSplit path.val = front ++ [x] ∧ Target v path d x ∧
      v.tree.walk 0 front = some d := by
  obtain ⟨front, x, hsplit⟩ : ∃ front x, stringSplit path.val = front ++ [x] := by
    obtain ⟨front, x, hpath, hslash, hx⟩ := exists_last_piece hclear.valid hroot
    exact ⟨_, _, by rw [hpath, stringSplit_append front hslash hx]⟩
  have hpasses := hclear.passes
  rw [hsplit] at hpasses ⊢
  rw [List.dropLast_concat]
  cases hfront : v.tree.walk 0 front with
  | none =>
    left
    refine ⟨rfl, by rw [Namespace.walk_concat, hfront, Option.bind_none], ?_⟩
    rintro ⟨front', x', heq, hdir⟩
    obtain ⟨rfl, -⟩ := List.append_inj' heq rfl
    obtain ⟨n, hn, -⟩ := h.isDir_iff.mp hdir
    rw [hfront] at hn
    cases hn
  | some d =>
    right
    have hdir : (v.inode d).state = 2 := by
      rcases (h.toCore.node d (h.live hfront)).kind with hfile | hdir
      · refine absurd (h.isFile_iff.mpr ⟨d, hfront, hfile⟩) (hpasses front ?_ ?_)
        · exact List.prefix_append _ _
        · simp
      · exact hdir
    have ht := exists_target hclear.valid hroot
      (by rw [hsplit, List.dropLast_concat]; exact hfront) hdir
    rw [hsplit, List.getLastD_concat] at ht
    exact ⟨front, x, d, rfl, ht, hfront⟩

end Paths

/-! ## The requests, one by one -/

section Packing

variable {v w : View} {t t' : Tree} {request : Request} {E : Fault → View → Prop}
  {call : FileTree.Call ℕ (List UInt8) UInt8}

/-- INTERNAL: a result is packed as the answer of the tree. SRCLINE: fs_sac.c:8-115 -/
theorem Represents.packed {reply : FileTree.Reply ℕ (List UInt8) UInt8} {r : ℤ}
    (hw : Represents w t') (hcall : callOf request = some call)
    (hstep : FileTree.Step sacPolicy t call reply t')
    (hreports : ∀ package, StatusReply r package → Reports request package reply) :
    vwp (FsSac.createDefaultPackage .ilp32 r) (AnsweredBy t request) E w := by
  refine vwp_createDefaultPackage fun package hr => ⟨t', ?_, hw⟩
  unfold TreeStep
  dsimp only
  rw [hcall]
  exact ⟨reply, hstep, hreports package hr⟩

/-- INTERNAL: a refusal is packed. SRCLINE: fs_sac.c:8-115 -/
theorem Represents.packedRefused (h : Represents v t) (hcall : callOf request = some call)
    (hstep : FileTree.Step sacPolicy t call .refused t)
    (hrequest : ∀ path, request ≠ .readdir path) :
    vwp (FsSac.createDefaultPackage .ilp32 (-1)) (AnsweredBy t request) E v :=
  h.packed hcall hstep fun _ hr => ⟨hr, fun path heq => absurd heq (hrequest path)⟩

end Packing

section Requests

variable {v : View} {t : Tree} {path : CString}

theorem Represents.mkdir (h : Represents v t) {mode : ℤ} (hsent : Sent path)
    (hclear : Clear t path) :
    vwp (perform .ilp32 (.mkdir path mode)) (AnsweredBy t (.mkdir path mode))
      (RunsOut v t (.mkdir path mode)) v := by
  apply vwp_bind
  rcases h.target_or_missing hclear hsent.ne_root with
    ⟨hfront, -, hparent⟩ | ⟨front, x, d, hsplit, ht, hfront⟩
  · refine vwp_sacMkdir_missing h.toInv hsent.valid hsent.ne_root (h.passable hclear.passes)
      hfront ?_
    exact h.packedRefused rfl (.mkdir_refused (Or.inr hparent)) nofun
  have hwalk := ht.walk
  refine vwp_sacMkdir h.toInv ht (fun _ => ?_) (fun hfound => ?_) (fun hnone w n date hc => ?_)
    fun _ e w he => ⟨he.1, he.full⟩
  · have hlen := hsent.length_last
    rwa [ht.split.2] at hlen
  · refine h.packedRefused rfl (.mkdir_refused (Or.inl fun hnone => ?_)) nofun
    rw [h.node_eq_none, hwalk] at hnone
    rw [hnone] at hfound
    cases hfound
  · have hv := h.vacant hfront ht.state hnone hc.dead
    have hw := hc.represents h hfront ht.state hnone hv
    rw [objectOf_dir (by rw [hc.node]; rfl)] at hw
    have hstep : FileTree.Step sacPolicy t (.mkdir (stringSplit path.val)) .done
        (t.insert (front ++ [x]) n .dir hv) := by
      rw [hsplit]
      exact .mkdir hv
    exact hw.packed rfl hstep fun _ hr => hr

theorem Represents.open (h : Represents v t) {mode : ℤ} (hsent : Sent path)
    (hclear : Clear t path) :
    vwp (perform .ilp32 (.open path mode)) (AnsweredBy t (.open path mode))
      (RunsOut v t (.open path mode)) v := by
  apply vwp_bind
  rcases h.target_or_missing hclear hsent.ne_root with
    ⟨hfront, hnone, hparent⟩ | ⟨front, x, d, hsplit, ht, hfront⟩
  · refine vwp_sacOpen_missing h.toInv hsent.valid hsent.ne_root (h.passable hclear.passes)
      hfront ?_
    have hstep : FileTree.Step sacPolicy t (.create (stringSplit path.val)) .refused t :=
      .create_refused (h.node_eq_none.mpr hnone) hparent
    exact h.packedRefused rfl hstep nofun
  have hwalk := ht.walk
  refine vwp_sacOpen h.toInv ht (fun _ => ?_) (fun n _ hfound => ?_) (fun hnone w n date hc => ?_)
    fun _ e w he => ⟨he.1, he.full⟩
  · have hlen := hsent.length_last
    rwa [ht.split.2] at hlen
  · have hstep : FileTree.Step sacPolicy t (.create (stringSplit path.val)) (.number n) t :=
      .create_found (h.node_eq_some.mpr ⟨hwalk.trans hfound, rfl⟩)
    exact h.packed rfl hstep fun _ hr => hr
  · have hv := h.vacant hfront ht.state hnone hc.dead
    have hw := hc.represents h hfront ht.state hnone hv
    have hempty : content w n = [] := by
      rw [content, hc.node]
      rfl
    rw [objectOf_file (by rw [hc.node]; rfl), hempty] at hw
    have hstep : FileTree.Step sacPolicy t (.create (stringSplit path.val)) (.number n)
        (t.insert (front ++ [x]) n (.file []) hv) := by
      rw [hsplit]
      exact .create hv
    exact hw.packed rfl hstep fun _ hr => hr

/-- INTERNAL: what has records has a name in it. -/
theorem Represents.child_of_size (h : Represents v t) {ps : List (List UInt8)} {n : ℕ}
    (hps : v.tree.walk 0 ps = some n) (hdir : (v.inode n).state = 2)
    (hsize : (v.inode n).fileSize ≠ 0) : ∃ x, t.node (ps ++ [x]) ≠ none := by
  have hn := h.live hps
  have hmod := ((h.toCore.node n hn).dir hdir).size
  have hlen : 0 < (v.tree.entries n).length := by
    rw [entries_dir hn hdir, length_records]
    omega
  obtain ⟨e, he⟩ := List.exists_mem_of_length_pos hlen
  refine ⟨e.1, fun hnone => ?_⟩
  rw [h.node_eq_none, Namespace.walk_concat, hps, Option.bind_some,
    Namespace.lookup_eq_none_iff] at hnone
  exact hnone e he rfl

theorem Represents.rmdir (h : Represents v t) (hroot : path.val ≠ [slash])
    (hclear : Clear t path) :
    vwp (perform .ilp32 (.rmdir path)) (AnsweredBy t (.rmdir path))
      (RunsOut v t (.rmdir path)) v := by
  apply vwp_bind
  have hrefused : (¬ t.IsDir (stringSplit path.val)) →
      vwp (FsSac.createDefaultPackage .ilp32 (-1)) (AnsweredBy t (.rmdir path))
        (RunsOut v t (.rmdir path)) v :=
    fun hnot => h.packedRefused rfl (.rmdir_refused hnot) nofun
  rcases h.target_or_missing hclear hroot with
    ⟨-, hnone, -⟩ | ⟨front, x, d, hsplit, ht, hfront⟩
  · refine vwp_sacRmdir_missing h.toInv hclear.valid hroot (h.passable hclear.passes) hnone
      (hrefused fun hdir => ?_)
    obtain ⟨n, hn, -⟩ := h.isDir_iff.mp hdir
    rw [hnone] at hn
    cases hn
  have hwalk := ht.walk
  refine vwp_sacRmdir h.toInv ht (fun hnodir => hrefused fun hdir => ?_)
    (fun n hlookup hdir hsize => ?_) fun n w hlookup hdir hsize hk => ?_
  · obtain ⟨n, hn, hstate⟩ := h.isDir_iff.mp hdir
    exact hnodir n (hwalk.symm.trans hn) hstate
  · obtain ⟨y, hy⟩ := h.child_of_size (hwalk.trans hlookup) hdir hsize
    exact h.packed rfl (.rmdir_full hy) fun _ hr => hr
  · have hne : front ++ [x] ≠ [] := by simp
    have hempty := entries_of_size_zero hsize
    have hw := hk.represents h hfront ht.state hlookup hempty hne
    have hstep : FileTree.Step sacPolicy t (.rmdir (stringSplit path.val)) .done
        (t.erase (front ++ [x]) hne) := by
      have hisDir := h.isDir_iff.mpr ⟨n, hwalk.trans hlookup, hdir⟩
      rw [hsplit] at hisDir hwalk ⊢
      refine .rmdir hne hisDir fun y => ?_
      rw [h.node_eq_none, Namespace.walk_concat, hwalk, hlookup, Option.bind_some,
        Namespace.lookup_eq_none_iff, hempty]
      simp
    exact hw.packed rfl hstep fun _ hr => hr

theorem Represents.remove (h : Represents v t) (hroot : path.val ≠ [slash])
    (hclear : Clear t path) :
    vwp (perform .ilp32 (.remove path)) (AnsweredBy t (.remove path))
      (RunsOut v t (.remove path)) v := by
  apply vwp_bind
  have hrefused : (¬ t.IsFile (stringSplit path.val)) →
      vwp (FsSac.createDefaultPackage .ilp32 (-1)) (AnsweredBy t (.remove path))
        (RunsOut v t (.remove path)) v :=
    fun hnot => h.packedRefused rfl (.remove_refused hnot) nofun
  rcases h.target_or_missing hclear hroot with
    ⟨-, hnone, -⟩ | ⟨front, x, d, hsplit, ht, hfront⟩
  · refine vwp_sacRemove_missing h.toInv hclear.valid (h.passable hclear.passes) hnone
      (hrefused fun hfile => ?_)
    obtain ⟨n, hn, -⟩ := h.isFile_iff.mp hfile
    rw [hnone] at hn
    cases hn
  have hwalk := ht.walk
  refine vwp_sacRemove h.toInv ht (fun hnofile => hrefused fun hfile => ?_)
    fun n w hlookup hfile hk => ?_
  · obtain ⟨n, hn, hstate⟩ := h.isFile_iff.mp hfile
    exact hnofile n (hwalk.symm.trans hn) hstate
  · have hne : front ++ [x] ≠ [] := by simp
    have hempty := entries_of_state_ne (v := v) (d := n) (by rw [hfile]; decide)
    have hw := hk.represents h hfront ht.state hlookup hempty hne
    have hstep : FileTree.Step sacPolicy t (.remove (stringSplit path.val)) .done
        (t.erase (front ++ [x]) hne) := by
      have hisFile := h.isFile_iff.mpr ⟨n, hwalk.trans hlookup, hfile⟩
      rw [hsplit] at hisFile ⊢
      exact .remove hne hisFile
    exact hw.packed rfl hstep fun _ hr => hr

theorem Represents.rename (h : Represents v t) {newPath : CString} (hroot : path.val ≠ [slash])
    (hclear : Clear t path) (hsent : Sent newPath) (hclear' : Clear t newPath)
    (hmovable : t.HasParent (stringSplit path.val) → t.HasParent (stringSplit newPath.val) →
      t.Movable (stringSplit path.val) (stringSplit newPath.val)) :
    vwp (perform .ilp32 (.rename path newPath)) (AnsweredBy t (.rename path newPath))
      (RunsOut v t (.rename path newPath)) v := by
  apply vwp_bind
  have hrefused : (v.tree.walk 0 (stringSplit path.val).dropLast = none ∨
      v.tree.walk 0 (stringSplit newPath.val).dropLast = none) →
      ¬ t.HasParent (stringSplit path.val) ∨ ¬ t.HasParent (stringSplit newPath.val) →
      vwp (sacRename path newPath)
        (fun r w => vwp (FsSac.createDefaultPackage .ilp32 r) (AnsweredBy t (.rename path newPath))
          (RunsOut v t (.rename path newPath)) w) (RunsOut v t (.rename path newPath)) v := by
    intro hmissing hparent
    refine vwp_sacRename_parents h.toInv ⟨hclear.valid, hroot⟩ ⟨hsent.valid, hsent.ne_root⟩
      ((h.passable hclear.passes).of_initial (List.dropLast_prefix _))
      ((h.passable hclear'.passes).of_initial (List.dropLast_prefix _)) (fun _ => ?_)
      fun d d' hd hd' => ?_
    · exact h.packedRefused rfl (.rename_refused hparent) nofun
    · rw [hd, hd'] at hmissing
      simp at hmissing
  rcases h.target_or_missing hclear hroot with
    ⟨hfront, -, hparent⟩ | ⟨front, x, d, hsplit, ht, hfront⟩
  · exact hrefused (Or.inl hfront) (Or.inl hparent)
  rcases h.target_or_missing hclear' hsent.ne_root with
    ⟨hfront', -, hparent⟩ | ⟨front', x', d', hsplit', ht', hfront'⟩
  · exact hrefused (Or.inr hfront') (Or.inr hparent)
  have hparent : t.HasParent (stringSplit path.val) :=
    ⟨front, x, hsplit, h.isDir_iff.mpr ⟨d, hfront, ht.state⟩⟩
  have hparent' : t.HasParent (stringSplit newPath.val) :=
    ⟨front', x', hsplit', h.isDir_iff.mpr ⟨d', hfront', ht'.state⟩⟩
  have hm := hmovable hparent hparent'
  have hwalk := ht.walk
  have hwalk' := ht'.walk
  cases hlookup : v.tree.lookup d x with
  | none => exact absurd (h.node_eq_none.mpr (hwalk.trans hlookup)) hm.found
  | some n =>
    have hnone : v.tree.lookup d' x' = none := hwalk'.symm.trans (h.node_eq_none.mp hm.free)
    have hlen := hsent.length_last
    rw [ht'.split.2] at hlen
    refine vwp_sacRename h.toInv ht ht' hlookup hlen (fun w hr => ?_)
      fun _ _ he _ hfree => ⟨he, hfree⟩
    have hm' : t.Movable (front ++ [x]) (front' ++ [x']) := by
      rw [← hsplit, ← hsplit']
      exact hm
    have hw := hr.represents h hfront ht.state hfront' ht'.state hlookup hnone hm'
    have hstep : FileTree.Step sacPolicy t
        (.rename (stringSplit path.val) (stringSplit newPath.val)) .done
        (t.move (front ++ [x]) (front' ++ [x']) hm') := by
      rw [hsplit, hsplit']
      exact .rename hm'
    exact hw.packed rfl hstep fun _ hr => hr

/-- INTERNAL: a write to the disk is a write to the tree. -/
theorem Written.represents {w : View} {ps : List (List UInt8)} {n a b : ℕ} {src : ℕ → UInt8}
    (hw : Written v w n a b src) (h : Represents v t) (hps : v.tree.walk 0 ps = some n)
    (hfile : (v.inode n).state = 1) : Represents w (t.overwrite ps (Analysis.content w n)) := by
  have hstate : ∀ m, (w.inode m).state = (v.inode m).state := by
    intro m
    by_cases hmn : m = n
    · rw [hmn]
      exact hw.grown.state
    · rw [hw.grown.inode m hmn]
  have hnotdir : (v.inode n).state ≠ 2 := by
    rw [hfile]
    decide
  exact h.overwrite hps hfile (hw.grown.inv h.toInv hnotdir) (hw.grown.tree h.toCore hnotdir) hstate
    (fun m hmn hm hmfile => Others.content (hw.grown.others h.toCore) h.toCore hmn hm hmfile)
    (hw.noStrays h.noStrays)

theorem Represents.write (h : Represents v t) {fd offset : ℤ} {buffer c : List UInt8}
    {ps : List (List UInt8)} (hoffset : 0 ≤ offset)
    (hps : t.node ps = some (fd.toNat, .file c))
    (hle : offset.toNat ≤ c.length ∨ offset.toNat < 4096) :
    vwp (perform .ilp32 (.write fd buffer offset)) (AnsweredBy t (.write fd buffer offset))
      (RunsOut v t (.write fd buffer offset)) v := by
  obtain ⟨hwalk, hfile, hcontent⟩ := h.node_file.mp hps
  have hn := h.live hwalk
  obtain ⟨k, rfl⟩ := Int.eq_ofNat_of_zero_le hoffset
  rw [Int.toNat_natCast, ← hcontent, length_content] at hle
  apply vwp_bind
  refine vwp_sacWrite_noStray h.toInv hn hfile hle (Or.inl (h.noStrays _ hn hfile)) (fun w hw => ?_)
    fun _ _ he hfree => ⟨he, hfree⟩
  have hw' := hw.represents h hwalk hfile
  rw [content_written hw, hcontent] at hw'
  have hstep : FileTree.Step sacPolicy t (.write fd.toNat ((k : ℤ).toNat) buffer)
      (.count buffer.length) (t.overwrite ps (pwriteFill 0 c k buffer)) := by
    rw [Int.toNat_natCast]
    exact .write hps
  exact hw'.packed rfl hstep fun _ hr => hr

theorem Represents.truncate (h : Represents v t) {size : ℤ} (hroot : path.val ≠ [slash])
    (hclear : Clear t path) (hsize : size < 2 ^ 31)
    (hlast : ∀ n c, t.node (stringSplit path.val) = some (n, .file c) → size < c.length →
      (c.length / 4096 + 1) % 1024 ≠ 0) :
    vwp (perform .ilp32 (.truncate path size)) (AnsweredBy t (.truncate path size))
      (RunsOut v t (.truncate path size)) v := by
  have heq : perform .ilp32 (.truncate path size) =
      sacTruncate .ilp32 path (size.toNat : ℤ) >>= FsSac.createDefaultPackage .ilp32 := by
    rw [← sacTruncate_toNat]
    rfl
  have hlen : (size.toNat : ℤ) < 2 ^ 31 := by omega
  rw [heq]
  apply vwp_bind
  have hrefused : (¬ t.IsFile (stringSplit path.val)) →
      vwp (FsSac.createDefaultPackage .ilp32 (-1)) (AnsweredBy t (.truncate path size))
        (RunsOut v t (.truncate path size)) v :=
    fun hnot => h.packedRefused rfl (.truncate_refused hnot) nofun
  rcases h.target_or_missing hclear hroot with
    ⟨-, hnone, -⟩ | ⟨front, x, d, hsplit, ht, hfront⟩
  · refine vwp_mono (vwp_sacTruncate_missing h.toInv hclear.valid (h.passable hclear.passes) hnone
      (Q := fun r w => r = -1 ∧ w = v) ⟨rfl, rfl⟩) ?_ fun _ _ he => he
    rintro _ _ ⟨rfl, rfl⟩
    apply hrefused
    intro hfile
    obtain ⟨n, hn, -⟩ := h.isFile_iff.mp hfile
    rw [hnone] at hn
    cases hn
  have hwalk := ht.walk
  have hdone : ∀ n w, v.tree.lookup d x = some n → (v.inode n).state = 1 →
      Represents w (t.overwrite (stringSplit path.val) (content w n)) →
      content w n = resize 65 (content v n) (sizeLeft size.toNat (v.inode n).fileSize) →
      vwp (FsSac.createDefaultPackage .ilp32 0) (AnsweredBy t (.truncate path size))
        (RunsOut v t (.truncate path size)) w := by
    intro n w hlookup hfile hw hcontent
    have hnode := h.node_file.mpr ⟨hwalk.trans hlookup, hfile, rfl⟩
    have hstep : FileTree.Step sacPolicy t (.truncate (stringSplit path.val) size.toNat) .done
        (t.overwrite (stringSplit path.val)
          (resize 65 (content v n) (sizeLeft size.toNat (content v n).length))) :=
      .truncate hnode
    rw [length_content] at hstep
    rw [hcontent] at hw
    exact hw.packed rfl hstep fun _ hr => hr
  refine vwp_sacTruncate_of_write h.toInv ht hlen (fun hnofile => hrefused fun hfile => ?_)
    (fun n count hlookup hfile hcount _ => ?_) (fun n w hlookup hfile hle hs hw => ?_)
  · obtain ⟨n, hn, hstate⟩ := h.isFile_iff.mp hfile
    exact hnofile n (hwalk.symm.trans hn) hstate
  · have hn := h.live (hwalk.trans hlookup)
    have hnode := h.node_file.mpr ⟨hwalk.trans hlookup, hfile, rfl⟩
    have hpadding : (padding count).length = count := List.length_replicate
    refine vwp_sacWrite_noStray h.toInv hn hfile (Or.inl le_rfl) (Or.inl (h.noStrays n hn hfile))
      (fun w hw => ?_) fun _ _ he hfree => ⟨he, n, _, hnode, ?_, ?_⟩
    · rw [min_self, hpadding] at hw
      have hgrow : sizeLeft size.toNat (v.inode n).fileSize = (v.inode n).fileSize + count := by
        rw [sizeLeft_of_ge (by omega)]
        omega
      apply hdone n w hlookup hfile (hw.represents h (hwalk.trans hlookup) hfile)
      rw [content_padded hw, hgrow]
    · rw [length_content]
      omega
    · have hcount' : size.toNat - (v.inode n).fileSize = count := by omega
      rwa [length_content, hcount', blocksFor, ← hpadding]
  · have hn := h.live (hwalk.trans hlookup)
    have hlt : size.toNat ≤ (v.inode n).fileSize := by omega
    rw [Int.toNat_natCast] at hw
    refine hdone n w hlookup hfile ?_ (content_cut hs hn hfile hlt hw)
    have hnotdir : (v.inode n).state ≠ 2 := by
      rw [hfile]
      decide
    have hstate : ∀ m, (w.inode m).state = (v.inode m).state := by
      intro m
      by_cases hmn : m = n
      · rw [hmn]
        exact hs.state
      · rw [hs.others.inode m hmn]
    have hstrays : NoStrays w := by
      intro m hm hmfile
      rw [hstate m] at hmfile
      by_cases hmn : m = n
      · rw [hmn, hw]
        apply shortened_noStray h.toCore hn hfile (h.noStrays n hn hfile)
        intro hshort
        have hnode := h.node_file.mpr ⟨hwalk.trans hlookup, hfile, rfl⟩
        have hsize := hlast n _ hnode
        rw [length_content] at hsize
        exact hsize (by omega)
      · rw [hs.others.inode m hmn]
        exact h.noStrays m ((hs.live m).mp hm) hmfile
    have htree : w.tree = v.tree :=
      tree_of_others hs.others h.toCore hs.live hnotdir hs.state hs.parentBlock
    exact h.overwrite (hwalk.trans hlookup) hfile (hs.inv h.toInv hnotdir) htree hstate
      (fun m hmn hm hmfile => Others.content hs.others h.toCore hmn hm hmfile) hstrays

/-- INTERNAL: **a file that is not empty is read without fail.** SRCLINE: fs_sac.c:23-31 -/
theorem vwp_performRead (h : Core v) {fd count offset : ℤ} (hn : v.live fd.toNat)
    (hfile : (v.inode fd.toNat).state = 1) (hne : content v fd.toNat ≠ []) (hoffset : 0 ≤ offset)
    (hcount : 0 ≤ count) (hstart : offset < 2 ^ 31) (hend : offset + count < 2 ^ 32) :
    vwp (perform .ilp32 (.read fd count offset)) (fun package w => w = v ∧
        Reports (.read fd count offset) package
          (.bytes (((content v fd.toNat).drop offset.toNat).take count.toNat)))
      (fun _ _ => False) v := by
  obtain ⟨k, rfl⟩ := Int.eq_ofNat_of_zero_le hoffset
  obtain ⟨m, rfl⟩ := Int.eq_ofNat_of_zero_le hcount
  have hsize : (v.inode fd.toNat).fileSize ≠ 0 := by
    rw [← length_content]
    exact fun hzero => hne (List.eq_nil_of_length_eq_zero hzero)
  have hptr := h.ptr_ne_zero hn hfile hsize
  have hbytes : vwp (sacRead .ilp32 fd.toNat m (k : ℤ)) (fun r w => w = v ∧
        r = ((((content v fd.toNat).drop k).take m).length, ((content v fd.toNat).drop k).take m))
      (fun _ _ => False) v :=
    vwp_sacRead h hn hfile hptr (by omega) (by omega) (fun _ => Or.inl ⟨rfl, by omega⟩)
      fun l hl => ⟨rfl, by rw [hl]⟩
  refine vwp_fsSacRead hbytes ?_ ?_
  · rintro data r _ ⟨rfl, rfl⟩ hle
    dsimp only at hle
    rw [Int.toNat_natCast] at hle
    refine ⟨rfl, rfl, ?_, ?_⟩
    · simp only [replyOf, Int.toNat_natCast]
      split
      · omega
      · omega
    · rw [Int.toNat_natCast]
      exact data_replyOf data hle
  · rintro r _ ⟨rfl, rfl⟩ hlt
    dsimp only at hlt
    rw [Int.toNat_natCast, List.length_take] at hlt
    omega

theorem Represents.read_bytes (h : Represents v t) {fd count offset : ℤ} {c : List UInt8}
    {ps : List (List UInt8)} (hoffset : 0 ≤ offset) (hcount : 0 ≤ count)
    (hstart : offset < 2 ^ 31) (hend : offset + count < 2 ^ 32)
    (hps : t.node ps = some (fd.toNat, .file c)) (hne : c ≠ []) :
    vwp (perform .ilp32 (.read fd count offset))
      (fun package w => w = v ∧ Reports (.read fd count offset) package
        (.bytes ((c.drop offset.toNat).take count.toNat)))
      (fun _ _ => False) v := by
  obtain ⟨hwalk, hfile, rfl⟩ := h.node_file.mp hps
  exact vwp_performRead h.toCore (h.live hwalk) hfile hne hoffset hcount hstart hend

theorem Represents.read (h : Represents v t) {fd count offset : ℤ} {c : List UInt8}
    {ps : List (List UInt8)} (hoffset : 0 ≤ offset) (hcount : 0 ≤ count)
    (hstart : offset < 2 ^ 31) (hend : offset + count < 2 ^ 32)
    (hps : t.node ps = some (fd.toNat, .file c)) (hne : c ≠ []) :
    vwp (perform .ilp32 (.read fd count offset)) (AnsweredBy t (.read fd count offset))
      (RunsOut v t (.read fd count offset)) v := by
  refine vwp_mono (h.read_bytes hoffset hcount hstart hend hps hne) ?_ fun _ _ hf => hf.elim
  rintro package _ ⟨rfl, hreports⟩
  exact ⟨t, ⟨_, .read hps, hreports⟩, h⟩

/-! ### Attributes and names -/

/-- The names in the directory, in the order of its records. -/
def namesOf (v : View) (d : ℕ) : List (List UInt8) := (v.tree.entries d).map Prod.fst

/-- INTERNAL: **the records of a directory are its names**, each once. -/
theorem Represents.lists (h : Represents v t) {ps : List (List UInt8)} {n : ℕ}
    (hps : v.tree.walk 0 ps = some n) (hdir : (v.inode n).state = 2) :
    t.Lists ps (namesOf v n) where
  dir := h.isDir_iff.mpr ⟨n, hps, hdir⟩
  nodup := h.names n (h.live hps)
  mem_iff x := by
    rw [ne_eq, h.node_eq_none, Namespace.walk_concat, hps, Option.bind_some,
      Namespace.lookup_eq_none_iff, namesOf, List.mem_map]
    push Not
    rfl

theorem length_namesOf (h : Represents v t) {n : ℕ} (hn : v.live n) (hdir : (v.inode n).state = 2) :
    128 * (namesOf v n).length = (v.inode n).fileSize := by
  have hmod := ((h.toCore.node n hn).dir hdir).size
  rw [namesOf, List.length_map, entries_dir hn hdir, length_records]
  omega

/-- INTERNAL: **`sac_stat`** reports the kind, the number and the size. SRCLINE: sacio.c:315-347 -/
theorem vwp_sacStat {Q : ℤ × Option Stat → View → Prop} {E : Fault → View → Prop}
    (h : Represents v t) (hclear : Clear t path)
    (hmissing : v.tree.walk 0 (stringSplit path.val) = none → Q (-1, none) v)
    (hfound : ∀ n mtim ctim, v.tree.walk 0 (stringSplit path.val) = some n →
      Q (0, some ⟨(v.inode n).state = 2, n, (v.inode n).fileSize, mtim, ctim⟩) v) :
    vwp (sacStat path) Q E v := by
  unfold sacStat
  rw [if_neg (by simp [hclear.valid])]
  refine vwp_bind (vwp_searchPath_passable h.toInv (h.passable hclear.passes) fun e he => ?_)
  rcases he with ⟨hwalk, hvalid, -⟩ | ⟨hwalk, hinvalid, -⟩
  · have hn := h.live hwalk
    have hok := h.toCore.node _ hn
    rw [if_neg (by simp [hvalid])]
    refine vwp_bind (vwp_readNode hn.1 hok.named fun node hnode => ?_)
    have hstate : node.state = (v.inode e.nodeNum).state := by
      rw [← hnode]
      rfl
    have hsize : node.fileSize = (v.inode e.nodeNum).fileSize := by
      rw [← hnode]
      rfl
    dsimp only
    rw [if_pos (by rw [hstate]; exact hok.kind)]
    refine vwp_bind (vwp_unmapAndDestroyNode hn.1 (hnode ▸ hok.fits) ?_)
    rw [hnode, View.setInode_self, hstate, hsize]
    exact vwp_pure (hfound _ _ _ hwalk)
  · rw [if_pos (by simp [hinvalid])]
    exact vwp_pure (hmissing hwalk)

/-- INTERNAL: **the answer to STAT is built from the result** of `sac_stat`. SRCLINE:
fs_sac.c:48-74 -/
theorem vwp_fsSacStat {Q : Package → View → Prop} {E : Fault → View → Prop}
    {M : View → Prop} {R : Stat → View → Prop}
    (hstat : vwp (Model.sacStat path) (fun r w => (r = (-1, none) ∧ M w) ∨
      ∃ stbuf, r = (0, some stbuf) ∧ R stbuf w) E v)
    (hmissing : ∀ package w, M w → StatusReply (-1) package → Q package w)
    (hfound : ∀ stbuf w id, R stbuf w → i32 id = 0 →
      Q ⟨id, 2 + 2 + 4 + 8 + 8, le 2 (if stbuf.isDir then 2 else 1) ++ le 2 stbuf.ino ++
        leInt 4 (Abi.ilp32.long stbuf.size) ++ leInt 8 (Abi.ilp32.long stbuf.mtim) ++
          leInt 8 (Abi.ilp32.long stbuf.ctim)⟩ w) :
    vwp (FsSac.sacStat .ilp32 path) Q E v := by
  unfold FsSac.sacStat
  apply vwp_bind_of hstat (fun _ _ he => he)
  rintro _ w (⟨rfl, hm⟩ | ⟨stbuf, rfl, hr⟩)
  · dsimp only
    refine vwp_bind ?_
    refine vwp_createDefaultPackage ?_
    intro package hpackage
    have hid : ¬ i32 package.messageId ≥ 0 := by
      rw [hpackage.id]
      decide
    rw [if_neg hid]
    exact vwp_pure (hmissing package w hm hpackage)
  · dsimp only
    refine vwp_bind ?_
    refine vwp_createDefaultPackage ?_
    intro package hpackage
    have hid : i32 package.messageId = 0 := hpackage.id
    rw [if_pos hid.ge]
    exact vwp_pure (hfound stbuf w package.messageId hr hid)

theorem Represents.stat (h : Represents v t) (hclear : Clear t path) :
    vwp (perform .ilp32 (.stat path)) (AnsweredBy t (.stat path)) (RunsOut v t (.stat path)) v := by
  refine vwp_fsSacStat
    (M := fun w => w = v ∧ v.tree.walk 0 (stringSplit path.val) = none)
    (R := fun stbuf w => w = v ∧ ∃ n mtim ctim, v.tree.walk 0 (stringSplit path.val) = some n ∧
      stbuf = ⟨(v.inode n).state = 2, n, (v.inode n).fileSize, mtim, ctim⟩)
    (vwp_sacStat h hclear (fun hmissing => Or.inl ⟨rfl, rfl, hmissing⟩)
      fun n mtim ctim hwalk => Or.inr ⟨_, rfl, rfl, n, mtim, ctim, hwalk, rfl⟩) ?_ ?_
  · rintro package _ ⟨rfl, hmissing⟩ hpackage
    have hstep : FileTree.Step sacPolicy t (.stat (stringSplit path.val)) .refused t :=
      .stat_refused (h.node_eq_none.mpr hmissing)
    exact ⟨t, ⟨.refused, hstep, hpackage, nofun⟩, h⟩
  rintro _ w id ⟨hw, n, mtim, ctim, hwalk, rfl⟩ hid
  rw [hw]
  dsimp only
  have hn := h.live hwalk
  have hlt : (v.inode n).fileSize < 2 ^ 31 := by
    rcases (h.toCore.node n hn).kind with hfile | hdir
    · have hsize := fileSize_lt h.toCore hn hfile
      omega
    · have hsize := ((h.toCore.node n hn).dir hdir).size_le
      omega
  have hlong : Abi.ilp32.long ((v.inode n).fileSize : ℤ) = (v.inode n).fileSize := long_of_lt hlt
  rw [hlong]
  rcases (h.toCore.node n hn).kind with hfile | hdir
  · have hnode := h.node_file.mpr ⟨hwalk, hfile, rfl⟩
    refine ⟨t, ⟨.file n (content v n).length, .stat_file hnode, ?_⟩, h⟩
    refine ⟨id, Abi.ilp32.long mtim, Abi.ilp32.long ctim, hid, ?_⟩
    rw [length_content, hfile]
    rfl
  · have hnode := h.node_dir.mpr ⟨hwalk, hdir⟩
    have hlists := h.lists hwalk hdir
    refine ⟨t, ⟨.directory n (namesOf v n).length, .stat_dir hnode hlists, ?_⟩, h⟩
    refine ⟨id, Abi.ilp32.long mtim, Abi.ilp32.long ctim, hid, ?_⟩
    rw [length_namesOf h hn hdir, hdir]
    rfl

/-- INTERNAL: a stored name is a C string of at most 70 bytes. -/
theorem name_of_entry {d : ℕ} {e : List UInt8 × ℕ} (he : e ∈ v.tree.entries d) :
    (0 : UInt8) ∉ e.1 ∧ e.1.length ≤ 70 := by
  simp only [View.tree] at he
  split at he
  · obtain ⟨k, -, rfl⟩ := List.mem_map.mp he
    simp only [View.record]
    cases hcstr : cstr (v.data (v.dataBlock (v.inode d) 0)) (k * 128 + 4) 71 with
    | none => simp
    | some x =>
      obtain ⟨hlen, -, -, hfree⟩ := cstr_eq_some_iff.mp hcstr
      exact ⟨hfree, Nat.le_of_lt_succ hlen⟩
  · cases he

/-- INTERNAL: the names of a directory as C strings. -/
theorem exists_cStrings (v : View) (d : ℕ) : ∃ names : List CString,
    names.map Subtype.val = namesOf v d ∧ ∀ name ∈ names, name.val.length ≤ 70 := by
  have hval : ∀ x ∈ namesOf v d, (cString x).val = x ∧ x.length ≤ 70 := by
    intro x hx
    obtain ⟨e, he, rfl⟩ := List.mem_map.mp hx
    obtain ⟨hfree, hlen⟩ := name_of_entry he
    exact ⟨congrArg Subtype.val (cString_val ⟨e.1, hfree⟩), hlen⟩
  refine ⟨(namesOf v d).map cString, ?_, ?_⟩
  · rw [List.map_map]
    exact (List.map_congr_left fun x hx => (hval x hx).1).trans (List.map_id _)
  · intro name hname
    obtain ⟨x, hx, rfl⟩ := List.mem_map.mp hname
    rw [(hval x hx).1]
    exact (hval x hx).2

/-- INTERNAL: the loop over the records collects the names. SRCLINE: sacio.c:368-374 -/
theorem foldl_loadEntry (rs : List Record) (acc : List (List UInt8)) :
    rs.foldl (fun acc r => (loadEntry (entryOf r) acc).2) acc = acc ++ rs.map Prod.fst := by
  induction rs generalizing acc with
  | nil => simp
  | cons r rs ih =>
    rw [List.foldl_cons, ih, loadEntry, List.append_assoc]
    rfl

/-- INTERNAL: **`sac_readdir`** stores the names of the directory. SRCLINE: sacio.c:349-381 -/
theorem vwp_sacReaddir {Q : Option (List (List UInt8)) → View → Prop} {E : Fault → View → Prop}
    (h : Represents v t) (hclear : Clear t path)
    (hnodir : ¬ t.IsDir (stringSplit path.val) → Q none v)
    (hfound : ∀ n, v.tree.walk 0 (stringSplit path.val) = some n → (v.inode n).state = 2 →
      Q (some (namesOf v n)) v) : vwp (sacReaddir path) Q E v := by
  unfold sacReaddir
  rw [if_neg (by simp [hclear.valid])]
  refine vwp_bind (vwp_searchPath_passable h.toInv (h.passable hclear.passes) fun e he => ?_)
  have hn : v.live e.nodeNum := by
    rcases he with ⟨hwalk, -, -⟩ | ⟨-, -, hzero⟩
    · exact h.live hwalk
    · rw [hzero]
      exact h.toCore.live_root
  have hok := h.toCore.node _ hn
  refine vwp_bind (vwp_readNode hn.1 hok.named fun node hnode => ?_)
  have hback : ∀ {r}, Q r v →
      vwp (unmapAndDestroyNode node (2 + e.nodeNum) >>= fun _ => pure r) Q E v := by
    intro r hr
    refine vwp_bind (vwp_unmapAndDestroyNode hn.1 (hnode ▸ hok.fits) (vwp_pure ?_))
    rw [hnode, View.setInode_self]
    exact hr
  have hstate : node.state = (v.inode e.nodeNum).state := by
    rw [← hnode]
    rfl
  dsimp only
  by_cases hdir : isValidEntry e = true ∧ (v.inode e.nodeNum).state = 2
  · obtain ⟨hvalid, hdir⟩ := hdir
    rw [if_neg (by simp [hvalid, hstate, hdir])]
    have hwalk : v.tree.walk 0 (stringSplit path.val) = some e.nodeNum := by
      rcases he with ⟨hwalk, -, -⟩ | ⟨-, hinvalid, -⟩
      · exact hwalk
      · rw [hvalid] at hinvalid
        cases hinvalid
    have hblocks := dirBlocks h.toCore hn hdir
    rw [← hnode] at hblocks
    refine vwp_bind (vwp_iteratePointersBlocks (hstate.trans hdir) hblocks [] fun r _ _ _ _ => ?_)
    rw [(visit_all (fun _ _ => rfl) _ _ _ rfl).2, foldl_loadEntry, List.nil_append, hnode,
      ← entries_dir hn hdir]
    have hsize : node.fileSize = (v.inode e.nodeNum).fileSize := by
      rw [← hnode]
      rfl
    rw [if_neg]
    · exact hback (hfound _ hwalk hdir)
    · rw [hsize, ← length_namesOf h hn hdir]
      simp [namesOf, dirEntrySize]
  · have hnot : (!isValidEntry e || decide (node.state ≠ 2)) = true := by
      rw [hstate]
      by_cases hvalid : isValidEntry e = true
      · simp only [hvalid, true_and] at hdir
        simp [hdir]
      · simp [hvalid]
    rw [if_pos hnot]
    refine hback (hnodir fun hisDir => hdir ?_)
    obtain ⟨n, hwalk', hstate'⟩ := h.isDir_iff.mp hisDir
    rcases he with ⟨hwalk, hvalid, -⟩ | ⟨hwalk, -, -⟩
    · rw [hwalk] at hwalk'
      cases hwalk'
      exact ⟨hvalid, hstate'⟩
    · rw [hwalk] at hwalk'
      cases hwalk'

theorem length_encNames_le {names : List CString} {k : ℕ}
    (hlen : ∀ name ∈ names, name.val.length ≤ k) :
    (encNames names).length ≤ names.length * (k + 3) := by
  induction names with
  | nil => simp [encNames]
  | cons name names ih =>
    have hhead := hlen name List.mem_cons_self
    have htail := ih fun name' hname' => hlen name' (List.mem_cons_of_mem _ hname')
    rw [length_encNames] at htail ⊢
    rw [List.map_cons, List.sum_cons, List.length_cons, Nat.add_mul]
    omega

theorem Represents.readdir (h : Represents v t) (hclear : Clear t path) :
    vwp (perform .ilp32 (.readdir path)) (AnsweredBy t (.readdir path))
      (RunsOut v t (.readdir path)) v := by
  unfold perform FsSac.sacReaddir
  apply vwp_bind
  apply vwp_createDefaultPackage
  rintro ⟨id, size, data⟩ ⟨hid, rfl, rfl⟩
  refine vwp_bind (vwp_sacReaddir h hclear (fun hnodir => ?_) fun n hwalk hdir => ?_)
  · refine vwp_pure ⟨t, ⟨.refused, .list_refused hnodir, ⟨rfl, rfl, rfl⟩, fun _ _ => rfl⟩, h⟩
  obtain ⟨names, hnames, hlen⟩ := exists_cStrings v n
  refine vwp_bind (vwp_malloc fun fresh => ?_)
  have hcount : names.length ≤ 31 := by
    have hrecords := (h.toInv.records_le (h.live hwalk) hdir).1
    have hlength := congrArg List.length hnames
    have hsize := length_namesOf h (h.live hwalk) hdir
    rw [List.length_map] at hlength
    omega
  have htotal : (encNames names).length < 2 ^ 32 := by
    have hbound := length_encNames_le hlen
    omega
  have hpacked := agregarEntradas_eq fresh names [] id
    (fun name hname => (hlen name hname).trans (by decide)) htotal
  rw [hnames, List.nil_append] at hpacked
  have hstep : FileTree.Step sacPolicy t (.list (stringSplit path.val)) (.names (namesOf v n)) t :=
    .list (h.lists hwalk hdir)
  change vwp (checked (FsSac.agregarEntradas fresh (namesOf v n) ⟨id, 0, []⟩)) _ _ _
  rw [List.length_nil] at hpacked
  rw [hpacked]
  exact vwp_pure ⟨t, ⟨_, hstep, names, hnames, ⟨hcount, hlen⟩, id, hid, rfl⟩, h⟩

end Requests

/-! ## Runs -/

section Runs

variable {v : View} {s s' : SacState} {t : Tree} {request : Request}
  {events : List (Request × Package)}

/-- INTERNAL: **the step lemma**: an allowed request is a step of the tree, or it finds fewer blocks
free than it may take. SRCLINE: server.c:102-161 -/
theorem vwp_perform_allowed (h : Represents v t) (hallowed : Allowed t request) :
    vwp (perform .ilp32 request) (AnsweredBy t request) (RunsOut v t request) v := by
  cases request with
  | «open» path mode => exact h.open hallowed.1 hallowed.2
  | close fd =>
    unfold perform FsSac.sacClose
    exact vwp_createDefaultPackage fun _ _ => ⟨t, rfl, h⟩
  | write fd buffer offset =>
    obtain ⟨hoffset, ps, c, hps, hle⟩ := hallowed
    exact h.write hoffset hps hle
  | read fd count offset =>
    obtain ⟨hoffset, hstart, hcount, hend, ps, c, hps, hne⟩ := hallowed
    exact h.read hoffset hcount hstart hend hps hne
  | remove path => exact h.remove hallowed.1 hallowed.2
  | mkdir path mode => exact h.mkdir hallowed.1 hallowed.2
  | rmdir path => exact h.rmdir hallowed.1 hallowed.2
  | stat path => exact h.stat hallowed
  | readdir path => exact h.readdir hallowed
  | rename oldPath newPath =>
    obtain ⟨⟨hroot, hclear⟩, ⟨hsent, hclear'⟩, hmovable⟩ := hallowed
    exact h.rename hroot hclear hsent hclear' hmovable
  | truncate path size =>
    obtain ⟨hroot, hclear, hsize, hlast⟩ := hallowed
    exact h.truncate hroot hclear hsize hlast

/-- INTERNAL: **a formatted disk is the empty tree.** -/
theorem Fresh.represents (h : Fresh v) : Represents v (FileTree.empty 0) := by
  refine ⟨h.inv.1, h.inv.2.1, h.noStrays, fun ps => ?_, fun n hn => ?_⟩
  · cases ps with
    | nil =>
      rw [Namespace.walk_nil, Option.map_some, objectOf_dir h.inv.1.root]
      rfl
    | cons x ps =>
      rw [Namespace.walk, h.lookup_eq_none 0 x]
      rfl
  · exact ⟨[], by rw [h.live.mp hn, Namespace.walk_nil]⟩

/-- The server performs a request that the tree of its disk allows. -/
def Performs (s : SacState) (event : Request × Package) (s' : SacState) : Prop :=
  (∃ t, Represents (viewOf s) t ∧ Allowed t event.1) ∧
    perform .ilp32 event.1 s = .ok event.2 s'

/-- INTERNAL: **runs of requests are runs of the tree**, by simulation. -/
theorem exists_tree_run (h : Represents (viewOf s) t) (hrun : Run Performs s events s') :
    ∃ t', Run TreeStep t events t' ∧ Represents (viewOf s') t' := by
  apply hrun.simulates (R := fun s t => Represents (viewOf s) t) h
  rintro s ⟨request, package⟩ s' t h ⟨⟨t₀, h₀, hallowed⟩, hok⟩
  obtain rfl := h.eq h₀
  exact wp_of_ok (Q := fun package s' => AnsweredBy t request package (viewOf s'))
    (vwp_perform_allowed h hallowed s rfl) hok

/-- **The server is a file tree.**  From a formatted disk a run of requests is a run of the tree
with the same answers, and a request that the tree then allows is answered so, too, unless fewer
blocks are free than it may take: nothing else can go wrong. SRCLINE: server.c:102-161,
sacio.c:13-555 -/
theorem server_refines_tree (hs : Formatted s) (hrun : Run Performs s events s') :
    ∃ t, Run TreeStep (FileTree.empty 0) events t ∧ Represents (viewOf s') t ∧
      ∀ request, Allowed t request →
        wp (perform .ilp32 request) (fun package s'' => AnsweredBy t request package (viewOf s''))
          (fun e _ => e.IsAlloc ∧ ShortOf (viewOf s') t request) s' := by
  obtain ⟨t, htree, h⟩ := exists_tree_run (fresh_of_formatted hs).represents hrun
  exact ⟨t, htree, h, fun request hallowed => vwp_perform_allowed h hallowed s' rfl⟩

theorem empty_clear {path : CString} (hvalid : isValidPath path.val = true) :
    Clear (FileTree.empty 0) path := by
  refine ⟨hvalid, ?_⟩
  rintro qs - - ⟨n, c, hn⟩
  simp only [FileTree.empty] at hn
  split at hn
  · cases hn
  · cases hn

/-- INTERNAL: the server makes a directory on a new disk. -/
theorem exists_performs_mkdir : ∃ s package n date, StatusReply 0 package ∧
    Performs newDisk (.mkdir aPath 0, package) s ∧
      Created (viewOf newDisk) (viewOf s) 0 [97] n (newInode 2 [97] 0 date) := by
  have hfresh := fresh_of_formatted formatted_newDisk
  have haddressed := aPath_addressed hfresh.inv.1.toCore
  obtain ⟨n, u, date, hmkdir, hcreated⟩ := exists_mkdir hfresh.inv.1
    (aPath_target hfresh.inv.1.toCore) (by decide) (hfresh.lookup_eq_none 0 _) (by decide)
    hfresh.spare
  have hallowed : Allowed (FileTree.empty 0) (.mkdir aPath 0) :=
    ⟨haddressed.toSent, empty_clear haddressed.valid⟩
  obtain ⟨package, s, hpacked, hpackage, hview⟩ := exists_packed 0 u
  have hperform : perform .ilp32 (.mkdir aPath 0) newDisk = .ok package s :=
    (bind_of_ok hmkdir).trans hpacked
  exact ⟨s, package, n, date, hpackage, ⟨⟨_, hfresh.represents, hallowed⟩, hperform⟩,
    hview ▸ hcreated⟩

/-- The statement for one directory on a new disk. -/
theorem server_refines_tree_mkdir : ∃ s package t, StatusReply 0 package ∧
    Run TreeStep (FileTree.empty 0) [(.mkdir aPath 0, package)] t ∧
      Represents (viewOf s) t ∧ ∀ request, Allowed t request →
        wp (perform .ilp32 request) (fun package s' => AnsweredBy t request package (viewOf s'))
          (fun e _ => e.IsAlloc ∧ ShortOf (viewOf s) t request) s := by
  obtain ⟨s, package, -, -, hpackage, hperforms, -⟩ := exists_performs_mkdir
  obtain ⟨t, hrun⟩ := server_refines_tree formatted_newDisk (Run.single hperforms)
  exact ⟨s, package, t, hpackage, hrun⟩

end Runs

end LinuseFs.Analysis
