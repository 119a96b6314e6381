import Mathlib.Data.List.Infix

/-!
# Runs of a labelled transition relation

`Run step s as t` says that steps with the labels `as`, one after the other, lead from
`s` to `t`.  A run grows at its end, so that a statement about a run and the labels taken
so far is proved by one induction on the last step: `Run.invariant` when the labels do
not matter, `Run.induct` when they do.
-/

set_option autoImplicit false

namespace LinuseFs.Computation

variable {σ α : Type}

/-- The steps labelled `as` lead from `s` to a state, one after the other. -/
inductive Run (step : σ → α → σ → Prop) (s : σ) : List α → σ → Prop
  | nil : Run step s [] s
  | snoc {as : List α} {a : α} {t u : σ} (init : Run step s as t) (last : step t a u) :
    Run step s (as ++ [a]) u

namespace Run

variable {step step' : σ → α → σ → Prop} {s t u : σ} {as bs : List α}

/-- INTERNAL: **the invariant rule**.  What every step preserves holds at the end of a
run, if it holds at its start. -/
theorem invariant {I : σ → Prop} (hrun : Run step s as t) (hs : I s)
    (hstep : ∀ t a u, I t → step t a u → I u) : I t := by
  induction hrun with
  | nil => exact hs
  | snoc _ last ih => exact hstep _ _ _ ih last

/-- INTERNAL: the invariant rule for a statement about the labels taken so far. -/
theorem induct {I : List α → σ → Prop} (hrun : Run step s as t) (hs : I [] s)
    (hstep : ∀ as t a u, I as t → step t a u → I (as ++ [a]) u) : I as t := by
  induction hrun with
  | nil => exact hs
  | snoc _ last ih => exact hstep _ _ _ _ ih last

/-- INTERNAL: **the simulation rule**.  When each step is matched by a step of another relation
with the same label, each run is matched by a run with the same labels. -/
theorem simulates {τ : Type} {other : τ → α → τ → Prop} {R : σ → τ → Prop} {x : τ}
    (hrun : Run step s as t) (hs : R s x)
    (hstep : ∀ t a u x, R t x → step t a u → ∃ y, other x a y ∧ R u y) :
    ∃ y, Run other x as y ∧ R t y := by
  induction hrun with
  | nil => exact ⟨x, Run.nil, hs⟩
  | snoc _ last ih =>
    obtain ⟨y, hinit, hR⟩ := ih
    obtain ⟨z, hlast, hR'⟩ := hstep _ _ _ _ hR last
    exact ⟨z, hinit.snoc hlast, hR'⟩

theorem single {a : α} (h : step s a t) : Run step s [a] t := Run.nil.snoc h

/-- INTERNAL: a run followed by a run is a run. -/
theorem append (hrun : Run step s as t) (hrun' : Run step t bs u) :
    Run step s (as ++ bs) u := by
  induction hrun' with
  | nil => rwa [List.append_nil]
  | snoc _ last ih =>
    rw [← List.append_assoc]
    exact ih.snoc last

/-- INTERNAL: the last step of a run. -/
theorem snoc_iff {a : α} : Run step s (as ++ [a]) u ↔ ∃ t, Run step s as t ∧ step t a u := by
  constructor
  · generalize hlist : as ++ [a] = bs
    rintro (_ | ⟨init, last⟩)
    · simp at hlist
    · obtain ⟨rfl, rfl⟩ := List.append_inj' hlist rfl |>.imp id List.singleton_inj.mp
      exact ⟨_, init, last⟩
  · rintro ⟨t, init, last⟩
    exact init.snoc last

/-- INTERNAL: a run passes through a state after each beginning of its labels. -/
theorem exists_prefix (hrun : Run step s as t) (hbs : bs <+: as) :
    ∃ u, Run step s bs u := by
  induction hrun with
  | nil =>
    rw [List.prefix_nil.mp hbs]
    exact ⟨_, Run.nil⟩
  | snoc init last ih =>
    rcases List.prefix_concat_iff.mp hbs with rfl | hbs
    · exact ⟨_, init.snoc last⟩
    · exact ih hbs

end Run

end LinuseFs.Computation
