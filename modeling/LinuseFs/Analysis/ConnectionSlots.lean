import LinuseFs.Model.Connections
import LinuseFs.Computation.Run
import Mathlib.Data.List.Nodup
import Mathlib.Data.List.Perm.Subperm

/-!
# The slots of the connections

The list of connection threads never holds more than `MAX_THREADS` ids.  An id stays in
it for ever exactly when the accept loop adds it after its thread has removed it: a
thread may run to its end between `pthread_create` and `list_add`.
-/

set_option autoImplicit false

namespace LinuseFs.Analysis

open LinuseFs.Computation LinuseFs.Model

variable {τ : Type} [DecidableEq τ]

/-! ## The removal loop -/

/-- INTERNAL: without the id in the list no round of the loop changes it.
SRCLINE: server.c:182-183 -/
theorem foldl_removeAt_of_notMem {tid : τ} {l : List τ} (h : tid ∉ l) (rounds : List ℕ) :
    rounds.foldl (removeAt tid) l = l := by
  induction rounds with
  | nil => rfl
  | cons n rounds ih =>
    have hn : l[n]? ≠ some tid := fun e => h (List.mem_of_getElem? e)
    rw [List.foldl_cons, removeAt, if_neg hn, ih]

/-- INTERNAL: the rounds over distinct ids erase the id, if they reach it.
SRCLINE: server.c:182-183 -/
theorem foldl_removeAt {tid : τ} {l : List τ} (hl : l.Nodup) (rounds : List ℕ)
    (hreach : ∀ n, l[n]? = some tid → n ∈ rounds) :
    rounds.foldl (removeAt tid) l = l.erase tid := by
  induction rounds with
  | nil =>
    have hmem : tid ∉ l := fun h => by
      obtain ⟨n, hn⟩ := List.mem_iff_getElem?.mp h
      exact absurd (hreach n hn) List.not_mem_nil
    rw [List.foldl_nil, List.erase_of_not_mem hmem]
  | cons n rounds ih =>
    rw [List.foldl_cons, removeAt]
    split
    next hn =>
      obtain ⟨hlt, hget⟩ := List.getElem?_eq_some_iff.mp hn
      have herase : l.eraseIdx n = l.erase tid := by rw [← hget, hl.erase_getElem]
      rw [herase, foldl_removeAt_of_notMem (hl.not_mem_erase)]
    next hn =>
      apply ih
      intro m hm
      rcases List.mem_cons.mp (hreach m hm) with rfl | hmem
      · exact absurd hm hn
      · exact hmem

/-- INTERNAL: **`remove_thread_from_actual_threads`** erases the id from a list of at most
`MAX_THREADS` distinct ids. SRCLINE: server.c:179-187 -/
theorem removeThreadFromActualThreads_eq {tid : τ} {l : List τ} (hl : l.Nodup)
    (hlen : l.length ≤ 6) : removeThreadFromActualThreads tid l = l.erase tid := by
  refine foldl_removeAt hl _ fun n hn => List.mem_range.mpr ?_
  have := (List.getElem?_eq_some_iff.mp hn).1
  exact lt_of_lt_of_le this hlen

/-! ## The invariant -/

/-- What holds in every reachable state. -/
structure ConnectionsOk (s : Connections τ) : Prop where
  length_le : s.connectionThreads.length ≤ 6
  length_lt : s.loop ≠ .idle → s.connectionThreads.length < 6
  nodup : s.connectionThreads.Nodup
  alive_nodup : s.alive.Nodup
  handedOut : ∀ tid ∈ s.connectionThreads, tid ∈ s.handedOut
  alive_handedOut : ∀ tid ∈ s.alive, tid ∈ s.handedOut
  created_handedOut : ∀ tid, s.loop = .created tid → tid ∈ s.handedOut
  created_notMem : ∀ tid, s.loop = .created tid → tid ∉ s.connectionThreads

omit [DecidableEq τ] in
theorem ConnectionsOk.initial : ConnectionsOk (Connections.initial : Connections τ) where
  length_le := by simp [Connections.initial]
  length_lt := by simp [Connections.initial]
  nodup := List.nodup_nil
  alive_nodup := List.nodup_nil
  handedOut := by simp [Connections.initial]
  alive_handedOut := by simp [Connections.initial]
  created_handedOut := by simp [Connections.initial]
  created_notMem := by simp [Connections.initial]

/-- INTERNAL: what each step requires and what it leaves. -/
theorem step_cases {s s' : Connections τ} {a : ConnectionStep τ} (h : s.step a s') :
    (a = .accept ∧ s.loop = .idle ∧ s.connectionThreads.length < 6 ∧
      s' = { s with loop := .accepted }) ∨
    (∃ tid, a = .create tid ∧ s.loop = .accepted ∧ tid ∉ s.handedOut ∧
      s' = { s with
        loop := .created tid
        handedOut := s.handedOut ++ [tid]
        alive := s.alive ++ [tid] }) ∨
    (∃ tid, a = .listAdd tid ∧ s.loop = .created tid ∧
      s' = { s with connectionThreads := s.connectionThreads ++ [tid], loop := .idle }) ∨
    (∃ tid, a = .remove tid ∧ tid ∈ s.alive ∧
      s' = { s with
        connectionThreads := removeThreadFromActualThreads tid s.connectionThreads
        alive := s.alive.erase tid }) := by
  cases a with
  | accept =>
    obtain ⟨⟨h1, h2⟩, h3⟩ := Option.ite_none_right_eq_some.mp h
    exact Or.inl ⟨rfl, h1, h2, (Option.some.inj h3).symm⟩
  | create tid =>
    obtain ⟨⟨h1, h2⟩, h3⟩ := Option.ite_none_right_eq_some.mp h
    exact Or.inr (Or.inl ⟨tid, rfl, h1, h2, (Option.some.inj h3).symm⟩)
  | listAdd tid =>
    obtain ⟨h1, h2⟩ := Option.ite_none_right_eq_some.mp h
    exact Or.inr (Or.inr (Or.inl ⟨tid, rfl, h1, (Option.some.inj h2).symm⟩))
  | remove tid =>
    obtain ⟨h1, h2⟩ := Option.ite_none_right_eq_some.mp h
    exact Or.inr (Or.inr (Or.inr ⟨tid, rfl, h1, (Option.some.inj h2).symm⟩))

/-- INTERNAL: **the invariant is preserved** by each step. -/
theorem ConnectionsOk.step {s s' : Connections τ} {a : ConnectionStep τ} (h : ConnectionsOk s)
    (hstep : s.step a s') : ConnectionsOk s' := by
  obtain ⟨rfl, -, hlen, rfl⟩ | ⟨tid, rfl, hloop, hnew, rfl⟩ | ⟨tid, rfl, hloop, rfl⟩ |
    ⟨tid, rfl, halive, rfl⟩ := step_cases hstep
  · exact { h with
      length_lt := fun _ => hlen
      created_handedOut := by simp
      created_notMem := by simp }
  · exact
      { length_le := h.length_le
        length_lt := fun _ => h.length_lt (by simp [hloop])
        nodup := h.nodup
        alive_nodup := by
          rw [List.nodup_append]
          refine ⟨h.alive_nodup, List.nodup_singleton tid, fun x hx y hy e => ?_⟩
          rw [List.mem_singleton] at hy
          exact hnew (h.alive_handedOut tid (hy ▸ e ▸ hx))
        handedOut := fun x hx => List.mem_append_left _ (h.handedOut x hx)
        alive_handedOut := fun x hx => by
          rcases List.mem_append.mp hx with hx | hx
          · exact List.mem_append_left _ (h.alive_handedOut x hx)
          · exact List.mem_append_right _ hx
        created_handedOut := fun x hx => by
          cases hx
          simp
        created_notMem := fun x hx hmem => by
          cases hx
          exact hnew (h.handedOut tid hmem) }
  · have hlt := h.length_lt (by simp [hloop])
    exact { h with
      length_le := by rw [List.length_append]; exact hlt
      length_lt := by simp
      nodup := by
        rw [List.nodup_append]
        refine ⟨h.nodup, List.nodup_singleton tid, fun x hx y hy e => ?_⟩
        rw [List.mem_singleton] at hy
        exact h.created_notMem tid hloop (hy ▸ e ▸ hx)
      handedOut := fun x hx => by
        rcases List.mem_append.mp hx with hx | hx
        · exact h.handedOut x hx
        · rw [List.mem_singleton.mp hx]
          exact h.created_handedOut tid hloop
      created_handedOut := by simp
      created_notMem := by simp }
  · rw [removeThreadFromActualThreads_eq h.nodup h.length_le]
    have hle : (s.connectionThreads.erase tid).length ≤ s.connectionThreads.length :=
      List.length_erase_le
    exact
      { length_le := hle.trans h.length_le
        length_lt := fun hl => lt_of_le_of_lt hle (h.length_lt hl)
        nodup := h.nodup.erase tid
        alive_nodup := h.alive_nodup.erase tid
        handedOut := fun x hx => h.handedOut x (List.mem_of_mem_erase hx)
        alive_handedOut := fun x hx => h.alive_handedOut x (List.mem_of_mem_erase hx)
        created_handedOut := h.created_handedOut
        created_notMem := fun x hx hmem =>
          h.created_notMem x hx (List.mem_of_mem_erase hmem) }

/-- What the steps taken so far say about the state. -/
structure History (as : List (ConnectionStep τ)) (s : Connections τ) : Prop where
  handedOut : ∀ tid, .listAdd tid ∈ as ∨ .remove tid ∈ as → tid ∈ s.handedOut
  listed : ∀ tid ∈ s.connectionThreads, .listAdd tid ∈ as
  alive : ∀ tid ∈ s.handedOut, .remove tid ∉ as → tid ∈ s.alive

/-- INTERNAL: each step extends the history. -/
theorem History.step {as : List (ConnectionStep τ)} {s s' : Connections τ}
    {a : ConnectionStep τ} (h : History as s) (hok : ConnectionsOk s) (hstep : s.step a s') :
    History (as ++ [a]) s' := by
  obtain ⟨rfl, -, -, rfl⟩ | ⟨tid, rfl, -, -, rfl⟩ | ⟨tid, rfl, hloop, rfl⟩ |
    ⟨tid, rfl, halive, rfl⟩ := step_cases hstep
  · exact ⟨by simpa using h.handedOut, by simpa using h.listed, by simpa using h.alive⟩
  · refine ⟨fun x hx => ?_, fun x hx => ?_, fun x hx hnot => ?_⟩
    · exact List.mem_append_left _ (h.handedOut x (by simpa using hx))
    · exact List.mem_append_left _ (h.listed x hx)
    · rcases List.mem_append.mp hx with hx | hx
      · exact List.mem_append_left _ (h.alive x hx (by simpa using hnot))
      · exact List.mem_append_right _ hx
  · refine ⟨fun x hx => ?_, fun x hx => ?_, fun x hx hnot => h.alive x hx (by simpa using hnot)⟩
    · by_cases hxt : x = tid
      · rw [hxt]
        exact hok.created_handedOut tid hloop
      · exact h.handedOut x (by simpa [hxt] using hx)
    · rcases List.mem_append.mp hx with hx | hx
      · exact List.mem_append_left _ (h.listed x hx)
      · rw [List.mem_singleton.mp hx]
        simp
  · refine ⟨fun x hx => ?_, fun x hx => ?_, fun x hx hnot => ?_⟩
    · by_cases hxt : x = tid
      · rw [hxt]
        exact hok.alive_handedOut tid halive
      · exact h.handedOut x (by simpa [hxt] using hx)
    · rw [removeThreadFromActualThreads_eq hok.nodup hok.length_le] at hx
      exact List.mem_append_left _ (h.listed x (List.mem_of_mem_erase hx))
    · simp only [List.mem_append, List.mem_singleton, not_or, ConnectionStep.remove.injEq] at hnot
      exact (List.mem_erase_of_ne hnot.2).mpr (h.alive x hx hnot.1)

/-! ## Slots -/

/-- After the steps `as`: the list holds at most `MAX_THREADS` ids and none that was both
added and removed, and the loop accepts while fewer threads are alive. -/
def SlotsKept (as : List (ConnectionStep τ)) (s : Connections τ) : Prop :=
  s.connectionThreads.length ≤ maxThreads ∧
  (∀ tid ∈ s.connectionThreads, ¬ (.remove tid ∈ as ∧ .listAdd tid ∈ as)) ∧
  (s.loop = .idle → s.alive.length < maxThreads → (s.next .accept).isSome)

/-- No id is added after its thread has removed it. -/
def NoLateAdd (as : List (ConnectionStep τ)) : Prop :=
  ∀ bs tid, bs ++ [.listAdd tid] <+: as → .remove tid ∉ bs

omit [DecidableEq τ] in
theorem NoLateAdd.init {as : List (ConnectionStep τ)} {a : ConnectionStep τ}
    (h : NoLateAdd (as ++ [a])) : NoLateAdd as :=
  fun bs tid hbs => h bs tid (hbs.trans (List.prefix_append as [a]))

/-- INTERNAL: **without a late addition no removed id is listed.** -/
theorem listed_not_removed {as : List (ConnectionStep τ)} {s : Connections τ}
    (hrun : Run Connections.step Connections.initial as s) :
    ConnectionsOk s ∧ History as s ∧
      (NoLateAdd as → ∀ tid ∈ s.connectionThreads, .remove tid ∉ as) := by
  refine hrun.induct (I := fun as s => ConnectionsOk s ∧ History as s ∧
    (NoLateAdd as → ∀ tid ∈ s.connectionThreads, .remove tid ∉ as)) ?_ ?_
  · exact ⟨ConnectionsOk.initial, ⟨by simp, by simp [Connections.initial],
      by simp [Connections.initial]⟩, fun _ _ _ => List.not_mem_nil⟩
  · rintro as s a s' ⟨hok, hhist, hlisted⟩ hstep
    refine ⟨hok.step hstep, hhist.step hok hstep, fun hlate x hx => ?_⟩
    have hold := hlisted hlate.init
    obtain ⟨rfl, -, -, rfl⟩ | ⟨tid, rfl, -, -, rfl⟩ | ⟨tid, rfl, -, rfl⟩ |
      ⟨tid, rfl, halive, rfl⟩ := step_cases hstep
    · simpa using hold x hx
    · simpa using hold x hx
    · rcases List.mem_append.mp hx with hx | hx
      · simpa using hold x hx
      · rw [List.mem_singleton.mp hx]
        simpa using hlate as tid (List.prefix_refl _)
    · rw [removeThreadFromActualThreads_eq hok.nodup hok.length_le] at hx
      have hne : x ≠ tid := fun e => hok.nodup.not_mem_erase (e ▸ hx)
      simpa [hne] using hold x (List.mem_of_mem_erase hx)

/-- INTERNAL: without a late addition the slots are kept. -/
theorem slotsKept_of_noLateAdd {as : List (ConnectionStep τ)} {s : Connections τ}
    (hrun : Run Connections.step Connections.initial as s) (hlate : NoLateAdd as) :
    SlotsKept as s := by
  obtain ⟨hok, hhist, hlisted⟩ := listed_not_removed hrun
  refine ⟨hok.length_le, fun tid htid h => hlisted hlate tid htid h.1, fun hidle halive => ?_⟩
  have hsub : s.connectionThreads ⊆ s.alive := fun tid htid =>
    hhist.alive tid (hok.handedOut tid htid) (hlisted hlate tid htid)
  have hle := (List.subperm_of_subset hok.nodup hsub).length_le
  simp only [Connections.next]
  rw [if_pos ⟨hidle, lt_of_le_of_lt hle halive⟩]
  rfl

/-- **The slots of the connections.**  They are kept in every state of a run exactly when
the accept loop never adds an id whose thread has already removed it.
SRCLINE: server.c:27-46, server.c:179-187 -/
theorem slots_kept_iff_no_late_add {as : List (ConnectionStep τ)} {s : Connections τ}
    (hrun : Run Connections.step Connections.initial as s) :
    (∀ bs s', bs <+: as → Run Connections.step Connections.initial bs s' → SlotsKept bs s') ↔
      NoLateAdd as := by
  constructor
  · intro hkept bs tid hbs hremoved
    obtain ⟨s', hrun'⟩ := hrun.exists_prefix hbs
    obtain ⟨-, hslots, -⟩ := hkept _ s' hbs hrun'
    obtain ⟨t, -, hlast⟩ := Run.snoc_iff.mp hrun'
    have hmem : tid ∈ s'.connectionThreads := by
      obtain ⟨-, he⟩ := Option.ite_none_right_eq_some.mp hlast
      rw [← Option.some.inj he]
      simp
    exact hslots tid hmem ⟨List.mem_append_left _ hremoved, by simp⟩
  · intro hlate bs s' hbs hrun'
    exact slotsKept_of_noLateAdd hrun' fun cs tid hcs => hlate cs tid (hcs.trans hbs)

/-- The statement at a run in which one connection comes and goes. -/
theorem slots_kept_one_connection :
    (∀ bs (s' : Connections ℕ),
      bs <+: [ConnectionStep.accept, .create 1, .listAdd 1, .remove 1] →
      Run Connections.step Connections.initial bs s' → SlotsKept bs s') ↔
      NoLateAdd [ConnectionStep.accept, .create 1, .listAdd 1, .remove 1] :=
  slots_kept_iff_no_late_add
    (s := ⟨[], .idle, [1], []⟩)
    (((Run.single (t := ⟨[], .accepted, [], []⟩) (by decide)).snoc
      (u := ⟨[], .created 1, [1], [1]⟩) (by decide)).snoc
      (u := ⟨[1], .idle, [1], [1]⟩) (by decide) |>.snoc (by decide))

/-- A thread that ends before the accept loop records it leaves its id in the list.
SRCLINE: server.c:33-40 -/
theorem thread_removed_before_added_leaks :
    ¬ ∀ as (s : Connections ℕ), Run Connections.step Connections.initial as s →
      SlotsKept as s := by
  intro h
  have hrun : Run Connections.step (Connections.initial : Connections ℕ)
      [.accept, .create 1, .remove 1, .listAdd 1] ⟨[1], .idle, [1], []⟩ :=
    ((Run.single (t := ⟨[], .accepted, [], []⟩) (by decide)).snoc
      (u := ⟨[], .created 1, [1], [1]⟩) (by decide)).snoc
      (u := ⟨[], .created 1, [1], []⟩) (by decide) |>.snoc (by decide)
  exact (h _ _ hrun).2.1 1 (by simp) ⟨by simp, by simp⟩

end LinuseFs.Analysis
