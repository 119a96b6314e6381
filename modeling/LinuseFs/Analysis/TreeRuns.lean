import LinuseFs.Analysis.TreeRefinement

/-!
# What a file keeps

The bytes of a write are what a read of them returns later, whatever else the server has been
asked in between, as long as nobody writes to that file, truncates it or removes it: it may be
renamed, and so may the directories above it.
-/

set_option autoImplicit false

namespace LinuseFs.Analysis

open LinuseFs.Computation LinuseFs.Model LinuseFs.Interface

/-- The server performs a request that does not change the file `n`. -/
def LeavesFile (n : ℕ) (s : SacState) (event : Request × Package) (s' : SacState) : Prop :=
  Performs s event s' ∧
    ∀ t call, Represents (viewOf s) t → callOf event.1 = some call → ¬ t.Changes n call

section LeavesFile

variable {s s' u u' w : SacState} {t : Tree} {n : ℕ} {c buffer : List UInt8} {fd offset : ℤ}
  {ps : List (List UInt8)} {package : Package} {events rest : List (Request × Package)}

/-- INTERNAL: what a performed request does to the tree. -/
theorem Performs.step {event : Request × Package} (hstep : Performs s event s')
    (h : Represents (viewOf s) t) :
    Allowed t event.1 ∧ ∃ t', TreeStep t event t' ∧ Represents (viewOf s') t' := by
  obtain ⟨⟨t₀, h₀, hallowed⟩, hok⟩ := hstep
  obtain rfl := h.eq h₀
  exact ⟨hallowed, wp_of_ok (Q := fun package s' => AnsweredBy t event.1 package (viewOf s'))
    (vwp_perform_allowed h hallowed s rfl) hok⟩

/-- INTERNAL: **runs that leave a file alone keep its bytes.** -/
theorem exists_file_of_run (h : Represents (viewOf s) t) (hps : t.node ps = some (n, .file c))
    (hrun : Run (LeavesFile n) s events s') :
    ∃ t' qs, Represents (viewOf s') t' ∧ t'.node qs = some (n, .file c) := by
  refine hrun.invariant
    (I := fun s => ∃ t qs, Represents (viewOf s) t ∧ t.node qs = some (n, .file c))
    ⟨t, ps, h, hps⟩ ?_
  rintro s event s' ⟨t, qs, h, hqs⟩ ⟨hperforms, hleaves⟩
  obtain ⟨-, t', hstep, h'⟩ := hperforms.step h
  unfold TreeStep at hstep
  cases hcall : callOf event.1 with
  | none =>
    rw [hcall] at hstep
    obtain rfl := hstep
    exact ⟨t', qs, h', hqs⟩
  | some call =>
    rw [hcall] at hstep
    obtain ⟨reply, hstep, -⟩ := hstep
    obtain ⟨rs, hrs⟩ := hstep.leaves (hleaves t call h hcall) hqs
    exact ⟨t', rs, h', hrs⟩

/-- INTERNAL: a write leaves the bytes of the buffer in the file. -/
theorem exists_file_of_write (h : Represents (viewOf s) t)
    (hwrite : Performs s (.write fd buffer offset, package) s') :
    0 ≤ offset ∧ ∃ t' qs c, Represents (viewOf s') t' ∧
      t'.node qs = some (fd.toNat, .file (pwriteFill 0 c offset.toNat buffer)) := by
  obtain ⟨⟨hoffset, -⟩, t', ⟨reply, hstep, -⟩, h'⟩ := hwrite.step h
  refine ⟨hoffset, t', ?_⟩
  cases hstep with
  | @write qs m c offset bytes hqs =>
    refine ⟨qs, c, h', ?_⟩
    rw [FileTree.node_overwrite, if_pos rfl, hqs]
    rfl

/-- **A read returns what was written**, if the file is left alone in between. SRCLINE:
sacio.c:152-313, fs_sac.c:18-31 -/
theorem written_bytes_are_read (hs : Formatted s) (hrun : Run Performs s events u)
    (hwrite : Performs u (.write fd buffer offset, package) u')
    (hrest : Run (LeavesFile fd.toNat) u' rest w) (hne : buffer ≠ [])
    (hend : offset + buffer.length < 2 ^ 31) :
    ∃ reply w', perform .ilp32 (.read fd buffer.length offset) w = .ok reply w' ∧
      reply.messageId = 0 ∧ reply.size = buffer.length ∧
      reply.data.take buffer.length = buffer := by
  obtain ⟨t, -, h⟩ := exists_tree_run (fresh_of_formatted hs).represents hrun
  obtain ⟨hoffset, t', ps, c, h', hps⟩ := exists_file_of_write h hwrite
  obtain ⟨t'', qs, h'', hqs⟩ := exists_file_of_run h' hps hrest
  have hbytes : ((pwriteFill 0 c offset.toNat buffer).drop offset.toNat).take buffer.length =
      buffer := take_drop_pwriteFill
  have hnonempty : pwriteFill 0 c offset.toNat buffer ≠ [] := by
    intro hempty
    rw [hempty] at hbytes
    simp only [List.drop_nil, List.take_nil] at hbytes
    exact hne hbytes.symm
  have hread := h''.read_bytes hoffset (Int.natCast_nonneg buffer.length) (by omega) (by omega) hqs
    hnonempty
  rw [Int.toNat_natCast, hbytes] at hread
  obtain ⟨reply, w', hok, -, hreports⟩ := exists_ok_of_wp (hread w rfl) fun _ _ hf => hf
  exact ⟨reply, w', hok, hreports⟩

/-- The statement for one byte in a new file. -/
theorem written_bytes_are_read_one_byte : ∃ (n : ℕ) (w : SacState) (reply : Package)
    (w' : SacState), perform .ilp32 (.read n 1 0) w = .ok reply w' ∧ reply.messageId = 0 ∧
      reply.size = 1 ∧ reply.data.take 1 = [7] := by
  have hfresh := fresh_of_formatted formatted_newDisk
  have h := hfresh.represents
  have hinv := hfresh.inv.1
  have haddressed := aPath_addressed hinv.toCore
  have hroot : (viewOf newDisk).tree.walk 0 [] = some 0 := rfl
  have hnone := hfresh.lookup_eq_none 0 [97]
  obtain ⟨n, u₀, date, hopen, hc⟩ := exists_open hinv (aPath_target hinv.toCore) (by decide)
    hnone (by decide) hfresh.spare
  obtain ⟨opened, u, hpacked, -, hview⟩ := exists_packed n u₀
  rw [← hview] at hc
  have hopened : Performs newDisk (.open aPath 0, opened) u :=
    ⟨⟨_, h, haddressed.toSent, empty_clear haddressed.valid⟩, (bind_of_ok hopen).trans hpacked⟩
  obtain ⟨t, hu, hn⟩ : ∃ t, Represents (viewOf u) t ∧ t.node [[97]] = some (n, .file []) := by
    have hv := h.vacant hroot hinv.root hnone hc.dead
    have hu := hc.represents h hroot hinv.root hnone hv
    have hempty : objectOf (viewOf u) n = .file [] := by
      rw [objectOf_file (by rw [hc.node]; rfl), content, hc.node]
      rfl
    rw [hempty] at hu
    exact ⟨_, hu, by rw [FileTree.node_insert]; exact if_pos rfl⟩
  obtain ⟨hwalk, hstate, -⟩ := hu.node_file.mp hn
  have hlive := hu.live hwalk
  obtain ⟨w₀, hwrite, -⟩ := exists_write [7] hc.inv hlive hstate (Nat.zero_le _)
    (hu.noStrays n hlive hstate)
    (show 2 * ((0 % 4096 + [(7 : UInt8)].length) / 4096 + 1) ≤ 28 by decide)
    (hc.spare hfresh.spare)
  obtain ⟨written, w, hpacked', -, -⟩ := exists_packed 1 w₀
  have hperform : perform .ilp32 (.write n [7] 0) u = .ok written w := by
    have heq : perform .ilp32 (.write n [7] 0) =
        (Operation.write n [7] 0).perform >>= FsSac.createDefaultPackage .ilp32 :=
      perform_eq rfl fun _ _ _ hrequest => by
        cases hrequest
        exact le_rfl
    rw [heq]
    exact (bind_of_ok hwrite).trans hpacked'
  have hwritten : Performs u (.write n [7] 0, written) w :=
    ⟨⟨_, hu, le_rfl, _, _, hn, Or.inl (Nat.zero_le _)⟩, hperform⟩
  obtain ⟨closed, w', hclose, -, -⟩ := exists_packed (sacClose n) w
  have hclosed : LeavesFile n w (.close n, closed) w' :=
    ⟨⟨⟨_, (hwritten.step hu).2.choose_spec.2, trivial⟩, hclose⟩, fun _ _ _ hnone => by cases hnone⟩
  have hread := written_bytes_are_read formatted_newDisk (Run.single hopened) hwritten
    (Run.single hclosed) (by decide) (by simp)
  exact ⟨n, w', hread⟩

end LeavesFile

end LinuseFs.Analysis
