import LinuseFs.Analysis.KernelCalls

/-!
# Copying a file into the mounted file system

A program that copies a file creates it and writes it chunk by chunk.  Whatever the kernel asks for
between its calls, as long as nobody else cuts or removes the file, any part of it is read as it was
written: the file holds the writes that were made to it, in their order, and consecutive ones append
their chunks.
-/

set_option autoImplicit false

namespace LinuseFs.Analysis

open LinuseFs.Computation LinuseFs.Model LinuseFs.Interface

/-- The call of the tree that a callback makes. -/
def callFor (callback : Callback) : Option (FileTree.Call ℕ (List UInt8) UInt8) :=
  (requestFor callback).bind callOf

/-- What is written to the file `n`: the offsets and the bytes. -/
def writesTo (n : ℕ) (events : List (Callback × KernelReply)) : List (ℕ × List UInt8) :=
  events.flatMap fun event => (callFor event.1).elim [] (FileTree.writesOf n)

/-- The client answers a callback that neither cuts nor removes the file `n`. -/
def SparesFile (n : ℕ) (s : SacState) (event : Callback × KernelReply) (s' : SacState) : Prop :=
  Mounted s event s' ∧
    ∀ t call, Represents (viewOf s) t → callFor event.1 = some call → ¬ t.Resizes n call

section Copies

variable {s s' u u' w : SacState} {v : View} {t t' : Tree} {n : ℕ} {c : List UInt8}
  {ps : List (List UInt8)} {path : CString} {event : Callback × KernelReply}
  {before events : List (Callback × KernelReply)}

theorem KernelStep.eq_of_none (h : KernelStep t event t') (hcall : callFor event.1 = none) :
    t' = t := by
  unfold KernelStep at h
  unfold callFor at hcall
  cases hrequest : requestFor event.1 with
  | none =>
    rw [hrequest] at h
    exact h.1
  | some request =>
    rw [hrequest] at h hcall
    rw [Option.bind_some] at hcall
    dsimp only at h
    rw [hcall] at h
    exact h

theorem KernelStep.of_some (h : KernelStep t event t') (call : FileTree.Call ℕ (List UInt8) UInt8)
    (hcall : callFor event.1 = some call) :
    ∃ reply, FileTree.Step sacPolicy t call reply t' ∧ Told reply event.1 event.2 := by
  unfold KernelStep at h
  unfold callFor at hcall
  cases hrequest : requestFor event.1 with
  | none =>
    rw [hrequest] at hcall
    cases hcall
  | some request =>
    rw [hrequest] at h hcall
    rw [Option.bind_some] at hcall
    dsimp only at h
    rw [hcall] at h
    exact h

/-- INTERNAL: only of a directory may the kernel be told something else. SRCLINE: fuse.c:192-196 -/
theorem Told.eq {reply : FileTree.Reply ℕ (List UInt8) UInt8} {callback : Callback}
    {result : KernelReply} (h : Told reply callback result)
    (hcallback : ∀ path, callback ≠ .readdir path) : result = shownAs reply callback := by
  rcases h with h | ⟨⟨path, hpath⟩, -⟩
  · exact h
  · exact absurd hpath (hcallback path)

/-- INTERNAL: **a file holds what was written to it**, over every run that spares it. -/
theorem exists_contents_of_run (h : Represents (viewOf s) t) (hps : t.node ps = some (n, .file c))
    (hrun : Run (SparesFile n) s events s') :
    ∃ t' qs, Represents (viewOf s') t' ∧
      t'.node qs = some (n, .file (writeAll 0 c (writesTo n events))) := by
  refine hrun.induct (I := fun events s => ∃ t qs, Represents (viewOf s) t ∧
    t.node qs = some (n, .file (writeAll 0 c (writesTo n events)))) ⟨t, ps, h, hps⟩ ?_
  rintro events s event s' ⟨t, qs, h, hqs⟩ ⟨hmounted, hspares⟩
  obtain ⟨-, t', hstep, h'⟩ := hmounted.step h
  have hwrites : writesTo n (events ++ [event]) =
      writesTo n events ++ (callFor event.1).elim [] (FileTree.writesOf n) := by
    simp [writesTo]
  rw [hwrites, writeAll_append]
  cases hcall : callFor event.1 with
  | none =>
    obtain rfl := hstep.eq_of_none hcall
    exact ⟨t', qs, h', hqs⟩
  | some call =>
    obtain ⟨reply, hstep, -⟩ := hstep.of_some _ hcall
    obtain ⟨rs, hrs⟩ := hstep.contents (hspares t call h hcall) hqs
    exact ⟨t', rs, h', hrs⟩

/-- INTERNAL: the kernel is told the bytes of a file. SRCLINE: fuse.c:95-114 -/
theorem Represents.read_shown (h : Represents v t) (hps : t.node ps = some (n, .file c))
    (hne : c ≠ []) (hpath : correctPath path = true) {size offset : ℕ} (hsize : size < 2 ^ 31)
    (hoffset : offset < 2 ^ 31) (fresh : ℕ → UInt8) :
    vwp ((Callback.read path size offset n).invoke fresh .ilp32)
      (fun result w => Represents w t ∧ result = {
        res := ((c.drop offset).take size).length
        buffer := (c.drop offset).take size }) (fun _ _ => False) v := by
  have hn := h.number_lt hps
  have hfd : i32 (n : ℤ) = n := i32_of_lt (by omega)
  have hrequest : requestFor (.read path size offset n) = some (.read n size offset) := by
    simp [requestFor, hpath, hfd]
  have hpermitted : Permitted t (.read path size offset n) := by
    refine ⟨?_, hsize⟩
    intro request heq
    rw [hrequest] at heq
    cases heq
    have hnode : t.node ps = some ((n : ℤ).toNat, .file c) := by
      rw [Int.toNat_natCast]
      exact hps
    refine ⟨Identifier.noConfusion, ?_, ?_⟩
    · exact ⟨⟨by omega, by omega⟩, ⟨by omega, by omega⟩, by omega, by omega⟩
    · exact ⟨by omega, by omega, by omega, by omega, ps, c, hnode, hne⟩
  apply vwp_mono (vwp_invoke_permitted fresh h hpermitted)
  · rintro result w ⟨t', hstep, hw⟩
    obtain ⟨reply, hstep, hshown⟩ :=
      hstep.of_some (.read n size offset) (by rw [callFor, hrequest]; rfl)
    generalize hcall : (FileTree.Call.read n size offset : FileTree.Call ℕ (List UInt8) UInt8) =
      call at hstep
    cases hstep with
    | @read qs m c' count offset' hqs =>
      cases hcall
      obtain rfl := t.unique qs ps _ _ _ hqs hps
      rw [hps] at hqs
      cases hqs
      exact ⟨hw, hshown.eq fun _ => Callback.noConfusion⟩
    | _ => cases hcall
  · rintro e w ⟨-, request, heq, hshort⟩
    rw [hrequest] at heq
    cases heq
    exact hshort

/-- INTERNAL: a file that was not there is empty when it has been created. SRCLINE:
fuse.c:284-298 -/
theorem exists_file_of_create {fd : ℕ} (h : Represents (viewOf u) t)
    (hcreate : Mounted u (.create path, { res := 0, fh := some fd }) u')
    (hmissing : leadsTo u (stringSplit path.val) = none) :
    ∃ t', Represents (viewOf u') t' ∧ t'.node (stringSplit path.val) = some (fd, .file []) := by
  obtain ⟨-, t', hstep, h'⟩ := hcreate.step h
  obtain ⟨reply, hstep, htold⟩ := hstep.of_some (.create (stringSplit path.val)) rfl
  have hshown := htold.eq fun _ => Callback.noConfusion
  have hnone : t.node (stringSplit path.val) = none := h.node_eq_none.mpr hmissing
  refine ⟨t', h', ?_⟩
  cases hstep with
  | @create ps n hv =>
    have hn : (fd : ℤ) = n := Option.some.inj (congrArg KernelReply.fh hshown)
    rw [FileTree.node_insert, if_pos rfl, Int.ofNat_inj.mp hn]
  | create_found hps =>
    rw [hnone] at hps
    cases hps
  | create_refused _ _ => cases hshown

/-- **A copied file is read as it was written.**  After a program has created a file and written its
chunks one behind the other, among any calls that do not cut or remove the file, the kernel is told
the bytes of the chunks, from wherever it reads. SRCLINE: fuse.c:95-128, fuse.c:284-298,
sacio.c:121-313 -/
theorem copied_file_is_read {path' : CString} {fd size offset : ℕ} {chunks : List (List UInt8)}
    (hs : Formatted s) (hbefore : Run Mounted s before u)
    (hcreate : Mounted u (.create path, { res := 0, fh := some fd }) u')
    (hmissing : leadsTo u (stringSplit path.val) = none)
    (hcopy : Run (SparesFile fd) u' events w) (hchunks : writesTo fd events = consecutive 0 chunks)
    (hne : chunks.flatten ≠ []) (hpath : correctPath path' = true) (hsize : size < 2 ^ 31)
    (hoffset : offset < 2 ^ 31) (fresh : ℕ → UInt8) :
    ∃ w', (Callback.read path' size offset fd).invoke fresh .ilp32 w = .ok {
      res := ((chunks.flatten.drop offset).take size).length
      buffer := (chunks.flatten.drop offset).take size } w' := by
  obtain ⟨t, -, h⟩ := exists_kernel_run (fresh_of_formatted hs).represents hbefore
  obtain ⟨t', h', hnode⟩ := exists_file_of_create h hcreate hmissing
  obtain ⟨t'', qs, h'', hqs⟩ := exists_contents_of_run h' hnode hcopy
  have hcontents : writeAll 0 [] (writesTo fd events) = chunks.flatten := by
    rw [hchunks]
    exact writeAll_consecutive 0 [] chunks
  rw [hcontents] at hqs
  have hread := h''.read_shown hqs hne hpath hsize hoffset fresh w rfl
  obtain ⟨result, w', hok, -, rfl⟩ := exists_ok_of_wp hread fun _ _ hf => hf
  exact ⟨w', hok⟩

/-- The statement for a file of one byte on a new disk. -/
theorem copied_file_is_read_one_byte : ∃ (fd : ℕ) (w w' : SacState),
    (Callback.read aPath 1 0 fd).invoke (fun _ => 0) .ilp32 w =
      .ok { res := 1, buffer := [7] } w' := by
  have hfresh := fresh_of_formatted formatted_newDisk
  have h := hfresh.represents
  have hinv := hfresh.inv.1
  have haddressed := aPath_addressed hinv.toCore
  obtain ⟨n, u₀, date, hopen, hc⟩ := exists_open hinv (aPath_target hinv.toCore) (by decide)
    (hfresh.lookup_eq_none 0 [97]) (by decide) hfresh.spare
  obtain ⟨package, u, hpacked, hpackage, hview⟩ := exists_packed n u₀
  rw [← hview] at hc
  have hn : n < 32 := hc.slot
  have hmissing : leadsTo newDisk (stringSplit aPath.val) = none :=
    hfresh.leadsTo_eq_none (by decide)
  have hwire : OnWire (.open aPath 577) := show aPath.val.length ≤ 65532 by decide
  have hcreated : Mounted newDisk (.create aPath, { res := 0, fh := some n }) u := by
    refine ⟨⟨_, h, ?_, trivial⟩, fun _ => 0, ?_⟩
    · intro request heq
      cases heq
      exact ⟨by decide, hwire, haddressed.toSent, empty_clear haddressed.valid⟩
    · simp only [Callback.invoke, doCreate, bind_assoc, pure_bind]
      have hperform : perform .ilp32 (.open aPath 577) newDisk = .ok package u :=
        (bind_of_ok hopen).trans hpacked
      apply (bind_of_ok (hwire.callServer_ok (by decide) hperform)).trans
      have hdescriptor : descriptorOf (delivered package) = (0, some (n : ℤ)) := by
        rw [descriptorOf, hpackage.delivered.id, i32_of_lt (by omega)]
        exact if_neg (not_lt.mpr (Int.natCast_nonneg n))
      rw [hdescriptor]
      rfl
  obtain ⟨t', hu, hnode⟩ := exists_file_of_create h hcreated hmissing
  have hfd : i32 (n : ℤ) = n := i32_of_lt (by omega)
  have hrequest : requestFor (.write [7] 0 n) = some (.write n [7] 0) := by
    rw [requestFor, hfd]
  have hpermitted : Permitted t' (.write [7] 0 n) := by
    refine ⟨?_, show 1 < 2 ^ 31 by decide⟩
    intro request heq
    rw [hrequest] at heq
    cases heq
    refine ⟨Identifier.noConfusion, ?_, le_rfl, _, _, hnode, Or.inl (Nat.zero_le _)⟩
    exact ⟨⟨by omega, by omega⟩, by simp, le_rfl, by decide⟩
  have hroom : ¬ ShortOfCallback (viewOf u) t' (.write [7] 0 n) := by
    rintro ⟨request, heq, hshort⟩
    rw [hrequest] at heq
    cases heq
    have hspare : 28 ≤ freeCount (viewOf u).used 34 3000 := (hc.spare hfresh.spare).2
    have hblocks : blocksFor (0 : ℤ).toNat [(7 : UInt8)].length = 2 := rfl
    simp only [ShortOf, hblocks] at hshort
    omega
  obtain ⟨result, w, hwrite, -⟩ :=
    exists_ok_of_wp (vwp_invoke_permitted (fun _ => 0) hu hpermitted u rfl)
      fun _ _ he => hroom he.2
  have hcall : callFor (.write [7] 0 n) = some (.write n 0 [7]) := by
    rw [callFor, hrequest]
    rfl
  have hspares : SparesFile n u (.write [7] 0 n, result) w := by
    refine ⟨⟨⟨t', hu, hpermitted⟩, fun _ => 0, hwrite⟩, ?_⟩
    intro t call _ heq
    rw [hcall] at heq
    cases heq
    exact id
  have hchunks : writesTo n [(.write [7] 0 n, result)] = consecutive 0 [[7]] := by
    simp [writesTo, hcall, FileTree.writesOf, consecutive]
  obtain ⟨w', hread⟩ := copied_file_is_read formatted_newDisk Run.nil hcreated hmissing
    (Run.single hspares) hchunks (by decide) (show correctPath aPath = true by decide)
    (show 1 < 2 ^ 31 by decide) (show 0 < 2 ^ 31 by decide) fun _ => 0
  exact ⟨n, w, w', hread⟩

end Copies

end LinuseFs.Analysis
