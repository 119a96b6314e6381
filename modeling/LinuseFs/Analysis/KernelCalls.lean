import LinuseFs.Analysis.RemoteCall
import LinuseFs.Analysis.TreeRefinement

/-!
# The mounted file system is a file tree

What the kernel sees of the file system through the callbacks of the client, the wire and the
server: each callback makes the step of the file tree that its request asks for, and its result is
the answer of the tree as the kernel reads it, an `errno` or a count, with the bytes, the names and
the descriptor it stores.

The hidden files and `.` and `..` are the client's own: for these it does not ask the server.
-/

set_option autoImplicit false

namespace LinuseFs.Analysis

open LinuseFs.Computation LinuseFs.Model LinuseFs.Interface

/-! ## Callbacks and answers -/

/-- The request that a callback sends, if it sends one. SRCLINE: fuse.c:57-326 -/
def requestFor : Callback → Option Request
  | .getattr path => if correctPath path then some (.stat path) else none
  | .open path => if correctPath path then some (.open path 66) else none
  | .create path => some (.open path 577)
  | .truncate path size => some (.truncate path size)
  | .release path fh => if correctPath path then some (.close (i32 fh)) else none
  | .rename oldPath newPath => some (.rename oldPath newPath)
  | .read path size offset fh =>
    if correctPath path then some (.read (i32 fh) size offset) else none
  | .write buffer offset fh => some (.write (i32 fh) buffer offset)
  | .unlink path => some (.remove path)
  | .mkdir path mode => some (.mkdir path mode)
  | .rmdir path => if path.val = [46] ∨ path.val = [46, 46] then none else some (.rmdir path)
  | .readdir path => some (.readdir path)

/-- What the client answers when it does not ask the server. -/
def unasked : Callback → KernelReply
  | .rmdir _ => { res := -1 }
  | _ => { res := 0 }

/-- The result of a callback that returns the status of the server. -/
def statusOf : FileTree.Reply ℕ (List UInt8) UInt8 → ℤ
  | .done => 0
  | .notEmpty => -2
  | .number n => n
  | .count k => k
  | _ => -1

/-- The answer of the tree, as the kernel is told. -/
def shownAs (reply : FileTree.Reply ℕ (List UInt8) UInt8) : Callback → KernelReply
  | .open _ | .create _ =>
    match reply with
    | .number n => { res := 0, fh := some n }
    | _ => { res := -eacces }
  | .read .. =>
    match reply with
    | .bytes l => { res := l.length, buffer := l }
    | _ => { res := -1 }
  | .readdir _ =>
    match reply with
    | .names l => { res := 0, entries := [[46, 0], [46, 46, 0]] ++ l.map fun name => name ++ [0] }
    | _ => { res := -enoent, entries := [[46, 0], [46, 46, 0]] }
  | .rmdir _ =>
    match reply with
    | .notEmpty => { res := -enotempty }
    | reply => { res := statusOf reply }
  | _ => { res := statusOf reply }

/-- The kernel is told the answer of the tree.  But `do_readdir` tests the whole id of the answer, of
which the server has set the lower half, and may take the names for a failure. SRCLINE:
fuse.c:192-196 -/
def Told (reply : FileTree.Reply ℕ (List UInt8) UInt8) (callback : Callback)
    (result : KernelReply) : Prop :=
  result = shownAs reply callback ∨
    (∃ path, callback = .readdir path) ∧ result = shownAs .refused callback

/-- The tree becomes `t'` by the callback, and the kernel is told its answer. -/
def KernelStep (t : Tree) (event : Callback × KernelReply) (t' : Tree) : Prop :=
  match requestFor event.1 with
  | none => t' = t ∧ event.2 = unasked event.1
  | some request =>
    match callOf request with
    | none => t' = t
    | some call => ∃ reply, FileTree.Step sacPolicy t call reply t' ∧ Told reply event.1 event.2

/-- The callbacks that are answered as the tree says: those with a request that the wire has room
for and that the server answers so.  A STAT is left out, whose decoder reads on behind the
package. -/
def Permitted (t : Tree) (callback : Callback) : Prop :=
  (∀ request, requestFor callback = some request →
    request.identifier ≠ .stat ∧ OnWire request ∧ Allowed t request) ∧
  -- counts are returned as an `int`
  match callback with
  | .read _ size _ _ => size < 2 ^ 31
  | .write buffer _ _ => buffer.length < 2 ^ 31
  | _ => True

/-- Less is free than the request of the callback may take. -/
def ShortOfCallback (v : View) (t : Tree) (callback : Callback) : Prop :=
  ∃ request, requestFor callback = some request ∧ ShortOf v t request

/-- The allocator has stopped the server for lack of blocks. -/
def StopsShort (v : View) (t : Tree) (callback : Callback) (e : Fault) (_ : View) : Prop :=
  e.IsAlloc ∧ ShortOfCallback v t callback

/-- The tree of the disk has made the step of the callback. -/
def ShownBy (t : Tree) (callback : Callback) (result : KernelReply) (w : View) : Prop :=
  ∃ t', KernelStep t (callback, result) t' ∧ Represents w t'

/-! ## One callback -/

section Callbacks

variable {fresh : ℕ → UInt8} {v w : View} {t t' : Tree} {request : Request} {package : Package}
  {reply : FileTree.Reply ℕ (List UInt8) UInt8} {path : CString}

theorem StatusReply.delivered {r : ℤ} (h : StatusReply r package) :
    StatusReply r (delivered package) := by
  refine ⟨h.id, h.size, ?_⟩
  rw [Analysis.delivered, h.size]
  rfl

/-- INTERNAL: the cut leaves an answer what it is. -/
theorem Reports.delivered (h : Reports request package reply) :
    Reports request (delivered package) reply := by
  cases reply with
  | done => exact StatusReply.delivered h
  | refused => exact ⟨StatusReply.delivered h.1, h.2⟩
  | notEmpty => exact StatusReply.delivered h
  | number n => exact StatusReply.delivered h
  | count k => exact StatusReply.delivered h
  | bytes l =>
    obtain ⟨hid, hsize, hdata⟩ := h
    refine ⟨hid, hsize, ?_⟩
    rw [Analysis.delivered, hsize, List.take_take, Nat.min_self, hdata]
  | directory n entries =>
    obtain ⟨id, mtim, ctim, hid, rfl⟩ := h
    exact ⟨id, mtim, ctim, hid, by simp [Analysis.delivered, statPackage]⟩
  | file n size =>
    obtain ⟨id, mtim, ctim, hid, rfl⟩ := h
    exact ⟨id, mtim, ctim, hid, by simp [Analysis.delivered, statPackage]⟩
  | names l =>
    obtain ⟨names, hnames, hfits, id, hid, rfl⟩ := h
    exact ⟨names, hnames, hfits, id, hid, by simp [Analysis.delivered]⟩

/-- INTERNAL: **a call over the wire is answered as the tree says.** SRCLINE: client.c:21-76 -/
theorem Represents.callServer (h : Represents v t) (hstat : request.identifier ≠ .stat)
    (hwire : OnWire request) (hallowed : Allowed t request) :
    vwp (Model.callServer fresh .ilp32 request) (AnsweredBy t request) (RunsOut v t request) v := by
  rw [hwire.callServer_eq hstat, ← bind_pure_comp]
  apply vwp_bind_of (vwp_perform_allowed h hallowed) (fun _ _ he => he)
  intro package w hanswer
  apply vwp_pure
  obtain ⟨t', hstep, hw⟩ := hanswer
  refine ⟨t', ?_, hw⟩
  unfold TreeStep at hstep ⊢
  cases hcall : callOf request with
  | none =>
    rw [hcall] at hstep
    exact hstep
  | some call =>
    rw [hcall] at hstep
    obtain ⟨reply, hstep, hreports⟩ := hstep
    exact ⟨reply, hstep, Reports.delivered hreports⟩

/-- INTERNAL: a callback that asks the server. -/
theorem Represents.asked (request : Request) {callback : Callback}
    {call : FileTree.Call ℕ (List UInt8) UInt8} {f : Package → Sac KernelReply}
    (h : Represents v t) (hpermitted : Permitted t callback)
    (hrequest : requestFor callback = some request) (hcall : callOf request = some call)
    (hinvoke : callback.invoke fresh .ilp32 = Model.callServer fresh .ilp32 request >>= f)
    (hf : ∀ package w t' reply, FileTree.Step sacPolicy t call reply t' →
      Reports request package reply → Represents w t' →
        ∃ result, Told reply callback result ∧ f package = pure result) :
    vwp (callback.invoke fresh .ilp32) (ShownBy t callback) (StopsShort v t callback) v := by
  obtain ⟨hstat, hwire, hallowed⟩ := hpermitted.1 request hrequest
  rw [hinvoke]
  refine vwp_bind_of (h.callServer hstat hwire hallowed)
    (fun _ _ he => ⟨he.1, request, hrequest, he.2⟩) ?_
  rintro package w ⟨t', hstep, hw⟩
  unfold TreeStep at hstep
  rw [hcall] at hstep
  obtain ⟨reply, hstep, hreports⟩ := hstep
  obtain ⟨result, htold, hresult⟩ := hf package w t' reply hstep hreports hw
  rw [hresult]
  refine vwp_pure ⟨t', ?_, hw⟩
  unfold KernelStep
  rw [hrequest]
  dsimp only
  rw [hcall]
  exact ⟨reply, hstep, htold⟩

/-- INTERNAL: a callback that the client answers itself. -/
theorem Represents.unasked {callback : Callback} (h : Represents v t)
    (hrequest : requestFor callback = none)
    (hinvoke : callback.invoke fresh .ilp32 = pure (Analysis.unasked callback)) :
    vwp (callback.invoke fresh .ilp32) (ShownBy t callback) (StopsShort v t callback) v := by
  rw [hinvoke]
  refine vwp_pure ⟨t, ?_, h⟩
  unfold KernelStep
  rw [hrequest]
  exact ⟨rfl, rfl⟩

/-- The answer is a status, or a number that an `int` has room for. -/
def HasStatus : FileTree.Reply ℕ (List UInt8) UInt8 → Prop
  | .done | .refused | .notEmpty => True
  | .number n => n < 2 ^ 31
  | .count k => k < 2 ^ 31
  | _ => False

theorem Reports.status (h : Reports request package reply) (hstatus : HasStatus reply) :
    i32 package.messageId = statusOf reply := by
  cases reply with
  | done => exact StatusReply.id h
  | refused => exact h.1.id
  | notEmpty => exact StatusReply.id h
  | number n => exact (StatusReply.id h).trans (i32_of_lt hstatus)
  | count k => exact (StatusReply.id h).trans (i32_of_lt hstatus)
  | _ => exact hstatus.elim

/-- INTERNAL: a callback that returns the status of the server. -/
theorem Represents.askedStatus {callback : Callback} {call : FileTree.Call ℕ (List UInt8) UInt8}
    (h : Represents v t) (hpermitted : Permitted t callback)
    (hrequest : requestFor callback = some request) (hcall : callOf request = some call)
    (hinvoke : callback.invoke fresh .ilp32 = Model.callServer fresh .ilp32 request >>=
      fun response => pure { res := i32 response.messageId })
    (hstatus : ∀ reply t', FileTree.Step sacPolicy t call reply t' → HasStatus reply ∧
      shownAs reply callback = { res := statusOf reply }) :
    vwp (callback.invoke fresh .ilp32) (ShownBy t callback) (StopsShort v t callback) v := by
  apply h.asked request hpermitted hrequest hcall hinvoke
  intro package w t' reply hstep hreports _
  obtain ⟨hreply, hshown⟩ := hstatus reply t' hstep
  exact ⟨_, Or.inl hshown.symm, by rw [hreports.status hreply]⟩

theorem Represents.askedMkdir (h : Represents v t) {mode : ℤ}
    (hpermitted : Permitted t (.mkdir path mode)) :
    vwp ((Callback.mkdir path mode).invoke fresh .ilp32) (ShownBy t (.mkdir path mode))
      (StopsShort v t (.mkdir path mode)) v := by
  apply h.askedStatus hpermitted rfl rfl
  · simp only [Callback.invoke, doMkdir, bind_assoc, pure_bind]
  · intro reply t' hstep
    cases hstep <;> exact ⟨trivial, rfl⟩

theorem Represents.askedRemove (h : Represents v t) (hpermitted : Permitted t (.unlink path)) :
    vwp ((Callback.unlink path).invoke fresh .ilp32) (ShownBy t (.unlink path))
      (StopsShort v t (.unlink path)) v := by
  apply h.askedStatus hpermitted rfl rfl
  · simp only [Callback.invoke, doRemove, bind_assoc, pure_bind]
  · intro reply t' hstep
    cases hstep <;> exact ⟨trivial, rfl⟩

theorem Represents.askedRename (h : Represents v t) {oldPath newPath : CString}
    (hpermitted : Permitted t (.rename oldPath newPath)) :
    vwp ((Callback.rename oldPath newPath).invoke fresh .ilp32)
      (ShownBy t (.rename oldPath newPath)) (StopsShort v t (.rename oldPath newPath)) v := by
  apply h.askedStatus hpermitted rfl rfl
  · simp only [Callback.invoke, doRename, bind_assoc, pure_bind]
  · intro reply t' hstep
    cases hstep <;> exact ⟨trivial, rfl⟩

theorem Represents.askedTruncate (h : Represents v t) {size : ℤ}
    (hpermitted : Permitted t (.truncate path size)) :
    vwp ((Callback.truncate path size).invoke fresh .ilp32) (ShownBy t (.truncate path size))
      (StopsShort v t (.truncate path size)) v := by
  apply h.askedStatus hpermitted rfl rfl
  · simp only [Callback.invoke, doTruncate, bind_assoc, pure_bind]
  · intro reply t' hstep
    cases hstep <;> exact ⟨trivial, rfl⟩

theorem Represents.askedWrite (h : Represents v t) {buffer : List UInt8} {offset fh : ℤ}
    (hpermitted : Permitted t (.write buffer offset fh)) :
    vwp ((Callback.write buffer offset fh).invoke fresh .ilp32)
      (ShownBy t (.write buffer offset fh)) (StopsShort v t (.write buffer offset fh)) v := by
  apply h.askedStatus hpermitted rfl rfl
  · simp only [Callback.invoke, doWrite, bind_assoc, pure_bind]
  · intro reply t' hstep
    cases hstep with
    | write hps => exact ⟨hpermitted.2, rfl⟩

/-- INTERNAL: the number of an object is one of a node. -/
theorem Represents.number_lt (h : Represents v t) {ps : List (List UInt8)} {n : ℕ}
    {o : Object UInt8} (hps : t.node ps = some (n, o)) : n < 32 :=
  (h.live (h.node_eq_some.mp hps).1).1

/-- INTERNAL: an answer to OPEN. SRCLINE: fuse.c:57-75, fuse.c:284-298 -/
theorem Represents.askedDescriptor {callback : Callback} (mode : ℤ) (h : Represents v t)
    (hpermitted : Permitted t callback)
    (hcallback : callback = .open path ∨ callback = .create path)
    (hrequest : requestFor callback = some (.open path mode))
    (hinvoke : callback.invoke fresh .ilp32 = Model.callServer fresh .ilp32 (.open path mode) >>=
      fun response => pure { res := (descriptorOf response).1, fh := (descriptorOf response).2 }) :
    vwp (callback.invoke fresh .ilp32) (ShownBy t callback) (StopsShort v t callback) v := by
  apply h.asked (.open path mode) hpermitted hrequest rfl hinvoke
  intro package w t' reply hstep hreports hw
  refine ⟨_, Or.inl rfl, ?_⟩
  have hnumber : ∀ n ps o, t'.node ps = some (n, o) → reply = .number n →
      (pure { res := (descriptorOf package).1, fh := (descriptorOf package).2 } : Sac KernelReply) =
        pure (shownAs reply callback) := by
    rintro n ps o hps rfl
    have hn := hw.number_lt hps
    have hid := hreports.status (show n < 2 ^ 31 by omega)
    have hdescriptor : descriptorOf package = (0, some (n : ℤ)) := by
      rw [descriptorOf, hid]
      exact if_neg (not_lt.mpr (Int.natCast_nonneg n))
    rw [hdescriptor]
    rcases hcallback with rfl | rfl <;> rfl
  cases hstep with
  | create hv => exact hnumber _ _ _ (by rw [FileTree.node_insert, if_pos rfl]) rfl
  | create_found hps => exact hnumber _ _ _ hps rfl
  | create_refused hnone hparent =>
    have hid := hreports.status trivial
    have hdescriptor : descriptorOf package = (-eacces, none) := by
      rw [descriptorOf, hid]
      rfl
    rw [hdescriptor]
    rcases hcallback with rfl | rfl <;> rfl

theorem Represents.askedOpen (h : Represents v t) (hpermitted : Permitted t (.open path)) :
    vwp ((Callback.open path).invoke fresh .ilp32) (ShownBy t (.open path))
      (StopsShort v t (.open path)) v := by
  cases hpath : correctPath path with
  | false =>
    apply h.unasked (by simp [requestFor, hpath])
    simp only [Callback.invoke, doOpen, hpath, Bool.not_false, if_true, pure_bind, Analysis.unasked]
  | true =>
    apply h.askedDescriptor 66 hpermitted (Or.inl rfl) (by simp [requestFor, hpath])
    simp only [Callback.invoke, doOpen, hpath, Bool.not_true, Bool.false_eq_true, if_false,
      bind_assoc, pure_bind]

theorem Represents.askedCreate (h : Represents v t) (hpermitted : Permitted t (.create path)) :
    vwp ((Callback.create path).invoke fresh .ilp32) (ShownBy t (.create path))
      (StopsShort v t (.create path)) v := by
  apply h.askedDescriptor 577 hpermitted (Or.inr rfl) rfl
  simp only [Callback.invoke, doCreate, bind_assoc, pure_bind]

/-- INTERNAL: the bytes of an answer to READ fit the buffer. SRCLINE: fuse.c:95-114 -/
theorem Represents.askedRead (h : Represents v t) {size : ℕ} {offset fh : ℤ}
    (hpermitted : Permitted t (.read path size offset fh)) :
    vwp ((Callback.read path size offset fh).invoke fresh .ilp32)
      (ShownBy t (.read path size offset fh)) (StopsShort v t (.read path size offset fh)) v := by
  cases hpath : correctPath path with
  | false =>
    apply h.unasked (by simp [requestFor, hpath])
    simp only [Callback.invoke, doRead, hpath, Bool.not_false, if_true, pure_bind, Analysis.unasked]
  | true =>
    refine h.asked (.read (i32 fh) size offset)
      (f := fun response => do
        let bytes ← checked (peek response.data 0 response.size)
        if size < response.size then throw .memory
        else return {
          res := if response.messageId = 0 then i32 response.size else i32 response.messageId
          buffer := bytes })
      hpermitted (by simp [requestFor, hpath]) rfl ?_ ?_
    · simp only [Callback.invoke, doRead, hpath, Bool.not_true, Bool.false_eq_true, if_false,
        bind_assoc]
      refine congrArg _ (funext fun response => congrArg _ (funext fun bytes => ?_))
      split <;> rfl
    · intro package w t' reply hstep hreports _
      cases hstep with
      | @read ps n c count offset hps =>
        obtain ⟨hid, hsize, hdata⟩ := hreports
        have hlen : ((c.drop offset.toNat).take (size : ℤ).toNat).length ≤ size := by
          rw [List.length_take, Int.toNat_natCast]
          exact Nat.min_le_left _ _
        have hfits : package.size ≤ package.data.length := by
          rw [hsize, ← hdata]
          exact List.length_take_le' _ _
        have hpeek : peek package.data 0 package.size =
            some ((c.drop offset.toNat).take (size : ℤ).toNat) := by
          rw [peek, if_pos (by omega), List.drop_zero, hsize, hdata]
        have hsize' : i32 (package.size : ℤ) = package.size :=
          i32_of_lt (by have := hpermitted.2; dsimp only at this; omega)
        refine ⟨_, Or.inl rfl, ?_⟩
        simp only [hpeek, checked, pure_bind, hid, if_true, hsize', shownAs]
        rw [if_neg (by omega), hsize]

theorem Represents.askedRmdir (h : Represents v t) (hpermitted : Permitted t (.rmdir path)) :
    vwp ((Callback.rmdir path).invoke fresh .ilp32) (ShownBy t (.rmdir path))
      (StopsShort v t (.rmdir path)) v := by
  by_cases hdot : path.val = [46] ∨ path.val = [46, 46]
  · apply h.unasked (by simp [requestFor, hdot])
    simp only [Callback.invoke, doRmdir, hdot, if_true, pure_bind, Analysis.unasked]
  · refine h.asked (.rmdir path) (f := fun response => pure {
      res := if i32 response.messageId = -2 then -enotempty else i32 response.messageId })
      hpermitted (by simp [requestFor, hdot]) rfl ?_ ?_
    · simp only [Callback.invoke, doRmdir, hdot, if_false, bind_assoc]
      refine congrArg _ (funext fun response => ?_)
      split <;> rfl
    · intro package w t' reply hstep hreports _
      refine ⟨_, Or.inl rfl, ?_⟩
      cases hstep <;> rw [hreports.status trivial] <;> rfl

theorem Represents.askedReaddir (h : Represents v t) (hpermitted : Permitted t (.readdir path)) :
    vwp ((Callback.readdir path).invoke fresh .ilp32) (ShownBy t (.readdir path))
      (StopsShort v t (.readdir path)) v := by
  refine h.asked (.readdir path) (f := fun response => do
      let r ← checked (doReaddir response)
      return { res := r.1, entries := r.2 }) hpermitted rfl rfl ?_ ?_
  · simp only [Callback.invoke, doReaddirCall, bind_assoc]
  · intro package w t' reply hstep hreports _
    have hfailed : package.messageId < 0 → ∃ result, Told reply (.readdir path) result ∧
        (do
          let r ← checked (doReaddir package)
          return { res := r.1, entries := r.2 } : Sac KernelReply) = pure result := by
      intro hid
      refine ⟨_, Or.inr ⟨⟨path, rfl⟩, rfl⟩, ?_⟩
      simp only [doReaddir, hid, if_true, checked, shownAs]
      rfl
    cases hstep with
    | list hl =>
      obtain ⟨names, rfl, ⟨hcount, hlen⟩, id, hid, rfl⟩ := hreports
      by_cases hneg : id < 0
      · exact hfailed hneg
      have hshort : ∀ name ∈ names, name.val.length ≤ 65532 := fun name hname =>
        (hlen name hname).trans (by decide)
      have htotal : (encNames names).length < 2 ^ 31 := by
        have hbound := length_encNames_le hlen
        omega
      have hrounds := length_le_encNames names
      have hdecode := leerEntradas_eq names [] id ((encNames names).length + 1) hshort htotal
        (by omega)
      rw [List.nil_append, List.length_nil] at hdecode
      refine ⟨_, Or.inl rfl, ?_⟩
      simp only [doReaddir, hneg, if_false, hdecode, Option.bind_eq_bind, Option.bind_some,
        checked, shownAs, List.map_map]
      rfl
    | list_refused hnodir =>
      exact hfailed (by rw [hreports.2 path rfl]; decide)

theorem Represents.askedRelease (h : Represents v t) {fh : ℤ}
    (hpermitted : Permitted t (.release path fh)) :
    vwp ((Callback.release path fh).invoke fresh .ilp32) (ShownBy t (.release path fh))
      (StopsShort v t (.release path fh)) v := by
  cases hpath : correctPath path with
  | false =>
    apply h.unasked (by simp [requestFor, hpath])
    simp only [Callback.invoke, doRelease, hpath, Bool.not_false, if_true, pure_bind,
      Analysis.unasked]
  | true =>
    have hrequest : requestFor (.release path fh) = some (.close (i32 fh)) := by
      simp [requestFor, hpath]
    obtain ⟨hstat, hwire, hallowed⟩ := hpermitted.1 _ hrequest
    have hinvoke : (Callback.release path fh).invoke fresh .ilp32 =
        Model.callServer fresh .ilp32 (.close (i32 fh)) >>= fun response =>
          pure { res := i32 response.messageId } := by
      simp only [Callback.invoke, doRelease, hpath, Bool.not_true, Bool.false_eq_true, if_false,
        bind_assoc, pure_bind]
    rw [hinvoke]
    refine vwp_bind_of (h.callServer hstat hwire hallowed)
      (fun _ _ he => ⟨he.1, _, hrequest, he.2⟩) ?_
    rintro package w ⟨t', hstep, hw⟩
    refine vwp_pure ⟨t', ?_, hw⟩
    unfold KernelStep
    rw [hrequest]
    exact hstep

/-- INTERNAL: **the step lemma**: a permitted callback is a step of the tree, or its request finds
fewer blocks free than it may take. SRCLINE: fuse.c:57-326 -/
theorem vwp_invoke_permitted (fresh : ℕ → UInt8) {callback : Callback} (h : Represents v t)
    (hpermitted : Permitted t callback) :
    vwp (callback.invoke fresh .ilp32) (ShownBy t callback) (StopsShort v t callback) v := by
  cases callback with
  | getattr path =>
    cases hpath : correctPath path with
    | false =>
      apply h.unasked (by simp [requestFor, hpath])
      simp only [Callback.invoke, doGetattr, hpath, Bool.not_false, if_true, pure_bind,
        Analysis.unasked]
    | true => exact absurd rfl (hpermitted.1 (.stat path) (by simp [requestFor, hpath])).1
  | «open» path => exact h.askedOpen hpermitted
  | create path => exact h.askedCreate hpermitted
  | truncate path size => exact h.askedTruncate hpermitted
  | release path fh => exact h.askedRelease hpermitted
  | rename oldPath newPath => exact h.askedRename hpermitted
  | read path size offset fh => exact h.askedRead hpermitted
  | write buffer offset fh => exact h.askedWrite hpermitted
  | unlink path => exact h.askedRemove hpermitted
  | mkdir path mode => exact h.askedMkdir hpermitted
  | rmdir path => exact h.askedRmdir hpermitted
  | readdir path => exact h.askedReaddir hpermitted

end Callbacks

/-! ## Runs -/

section Runs

variable {s s' : SacState} {t : Tree} {events : List (Callback × KernelReply)}

/-- The client answers a callback that the tree of the disk permits; what its `malloc` gives is of
no account. -/
def Mounted (s : SacState) (event : Callback × KernelReply) (s' : SacState) : Prop :=
  (∃ t, Represents (viewOf s) t ∧ Permitted t event.1) ∧
    ∃ fresh, event.1.invoke fresh .ilp32 s = .ok event.2 s'

/-- INTERNAL: what an answered callback does to the tree. -/
theorem Mounted.step {event : Callback × KernelReply} (hstep : Mounted s event s')
    (h : Represents (viewOf s) t) :
    Permitted t event.1 ∧ ∃ t', KernelStep t event t' ∧ Represents (viewOf s') t' := by
  obtain ⟨⟨t₀, h₀, hpermitted⟩, fresh, hok⟩ := hstep
  obtain rfl := h.eq h₀
  exact ⟨hpermitted, wp_of_ok (Q := fun result s' => ShownBy t event.1 result (viewOf s'))
    (vwp_invoke_permitted fresh h hpermitted s rfl) hok⟩

/-- INTERNAL: **runs of callbacks are runs of the tree**, by simulation. -/
theorem exists_kernel_run (h : Represents (viewOf s) t) (hrun : Run Mounted s events s') :
    ∃ t', Run KernelStep t events t' ∧ Represents (viewOf s') t' :=
  hrun.simulates (R := fun s t => Represents (viewOf s) t) h fun _ _ _ _ h hstep => (hstep.step h).2

/-- **The mounted file system is a file tree.**  From a formatted disk the kernel sees a run of the
tree through the client, the wire and the server, and a callback that the tree then permits is
answered so, too, unless fewer blocks are free than it may take. SRCLINE: fuse.c:57-326,
client.c:21-76, server.c:74-162 -/
theorem mount_refines_tree (hs : Formatted s) (hrun : Run Mounted s events s') :
    ∃ t, Run KernelStep (FileTree.empty 0) events t ∧ Represents (viewOf s') t ∧
      ∀ fresh callback, Permitted t callback →
        wp (callback.invoke fresh .ilp32)
          (fun result s'' => ShownBy t callback result (viewOf s''))
          (fun e _ => e.IsAlloc ∧ ShortOfCallback (viewOf s') t callback) s' := by
  obtain ⟨t, htree, h⟩ := exists_kernel_run (fresh_of_formatted hs).represents hrun
  exact ⟨t, htree, h, fun fresh callback hpermitted =>
    vwp_invoke_permitted fresh h hpermitted s' rfl⟩

/-- The statement for one directory on a new disk. -/
theorem mount_refines_tree_mkdir : ∃ s t,
    Run KernelStep (FileTree.empty 0) [(.mkdir aPath 0, { res := 0 })] t ∧
      Represents (viewOf s) t ∧ ∀ fresh callback, Permitted t callback →
        wp (callback.invoke fresh .ilp32)
          (fun result s' => ShownBy t callback result (viewOf s'))
          (fun e _ => e.IsAlloc ∧ ShortOfCallback (viewOf s) t callback) s := by
  obtain ⟨s, package, -, -, hpackage, hperforms, -⟩ := exists_performs_mkdir
  obtain ⟨⟨t, h, hallowed⟩, hok⟩ := hperforms
  have hwire : OnWire (.mkdir aPath 0) := show aPath.val.length ≤ 65532 by decide
  have hinvoke : (Callback.mkdir aPath 0).invoke (fun _ => 0) .ilp32 newDisk =
      .ok { res := 0 } s := by
    simp only [Callback.invoke, doMkdir, bind_assoc, pure_bind]
    rw [bind_of_ok (hwire.callServer_ok (by decide) hok), hpackage.delivered.id]
    rfl
  have hpermitted : Permitted t (.mkdir aPath 0) := by
    refine ⟨?_, trivial⟩
    rintro request hrequest
    cases hrequest
    exact ⟨by decide, hwire, hallowed⟩
  exact ⟨s, mount_refines_tree formatted_newDisk
    (Run.single ⟨⟨t, h, hpermitted⟩, fun _ => 0, hinvoke⟩)⟩

end Runs

end LinuseFs.Analysis
