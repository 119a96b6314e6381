import LinuseFs.Computation.Steps

/-!
# Programs that disturb each other

Nothing keeps the programs of a `Company` apart.  What they know of each other is one order on the
views of the state: a step of any of them takes the view up in it, so that each relies on what all
of them guarantee.  A program `Behaves` when its steps go up from every view that the others may
have left, and it returns with its postcondition there.  Then so does every run, whatever the order
of the turns.
-/

set_option autoImplicit false

namespace LinuseFs.Computation

/-- Programs that take turns: what their steps do, the view they have of the state, and how the view
may change. -/
structure Company (ε σ V : Type) {L : Type} (R : L → Type) where
  exec : ∀ l, EStateM ε σ (R l)
  view : σ → V
  may : V → V → Prop
  refl : ∀ v, may v v
  trans : ∀ u v w, may u v → may v w → may u w

namespace Company

variable {ε σ V L α β ι : Type} {R : L → Type} (C : Company ε σ V R)

/-- The answer to a step taken at the view `v`, and the view it leaves. -/
def after (l : L) (Q : R l → V → Prop) (v : V) : Prop :=
  ∀ s, C.view s = v → wp (C.exec l) (fun b s' => Q b (C.view s')) (fun _ _ => True) s

/-- From the view `v` on, and whatever the others do in between, the program changes the view as it
may, and returns with `Q`. -/
def Behaves : Steps ε R α → (α → V → Prop) → V → Prop
  | .done a, Q, v => ∀ w, C.may v w → Q a w
  | .stop _, _, _ => True
  | .act l k, Q, v => ∀ w, C.may v w → C.after l (fun b u => C.may w u ∧ Behaves (k b) Q u) w

variable {C} {u v w : V} {l : L} {t : Steps ε R α} {f : α → Steps ε R β} {Q Q' : α → V → Prop}

/-! ### The rules -/

theorem after_mono {P P' : R l → V → Prop} (h : C.after l P v) (hP : ∀ b w, P b w → P' b w) :
    C.after l P' v :=
  fun s hs => wp_mono (h s hs) (fun b s' => hP b (C.view s')) fun _ _ he => he

/-- INTERNAL: the others may take a turn. -/
theorem Behaves.later (h : C.Behaves t Q v) (hvw : C.may v w) : C.Behaves t Q w := by
  cases t with
  | done a => exact fun u hwu => h u (C.trans v w u hvw hwu)
  | stop e => trivial
  | act l k => exact fun u hwu => h u (C.trans v w u hvw hwu)

theorem Behaves.pure {a : α} (h : ∀ w, C.may v w → Q a w) :
    C.Behaves (Pure.pure a : Steps ε R α) Q v := h

/-- INTERNAL: sequencing, with the rest from any view that the first program and the others may
leave. -/
theorem Behaves.bind {P : β → V → Prop} (h : C.Behaves t (fun a w => C.Behaves (f a) P w) v) :
    C.Behaves (t >>= f) P v := by
  induction t generalizing v with
  | done a => exact h v (C.refl v)
  | stop e => trivial
  | act l k ih => exact fun w hvw => after_mono (h w hvw) fun b u hb => ⟨hb.1, ih b hb.2⟩

theorem Behaves.atomic {P : R l → V → Prop}
    (h : ∀ w, C.may v w →
      C.after l (fun b u => C.may w u ∧ ∀ u', C.may u u' → P b u') w) :
    C.Behaves (Steps.atomic l) P v := h

/-! ### All of them -/

section Runs

variable [DecidableEq ι] {c c' : σ × (ι → Steps ε R α)} {a : ι × L} {as : List (ι × L)} {s : σ}
  {ts : ι → Steps ε R α} {Q : ι → α → V → Prop}

/-- INTERNAL: **the step lemma**: a turn of one program leaves all of them behaving. -/
theorem behaves_turn (h : ∀ i, C.Behaves (c.2 i) (Q i) (C.view c.1))
    (hturn : Steps.Turn C.exec c a c') :
    C.may (C.view c.1) (C.view c'.1) ∧ ∀ i, C.Behaves (c'.2 i) (Q i) (C.view c'.1) := by
  obtain ⟨k, b, hact, hexec, hupdate⟩ := hturn
  have hself := h a.1
  rw [hact] at hself
  obtain ⟨hmay, hrest⟩ : C.may (C.view c.1) (C.view c'.1) ∧
      C.Behaves (k b) (Q a.1) (C.view c'.1) :=
    wp_of_ok (Q := fun b s' => C.may (C.view c.1) (C.view s') ∧
      C.Behaves (k b) (Q a.1) (C.view s')) (hself _ (C.refl _) c.1 rfl) hexec
  refine ⟨hmay, fun i => ?_⟩
  by_cases hi : i = a.1
  · subst hi
    rw [hupdate, Function.update_self]
    exact hrest
  · rw [hupdate, Function.update_of_ne hi]
    exact (h i).later hmay

/-- INTERNAL: **whatever the order of the turns**, the view changes as it may, and a program that
has returned has done so with its postcondition. -/
theorem behaves_run (h : ∀ i, C.Behaves (ts i) (Q i) (C.view s))
    (hrun : Run (Steps.Turn C.exec) (s, ts) as c) :
    C.may (C.view s) (C.view c.1) ∧ ∀ i a, c.2 i = .done a → Q i a (C.view c.1) := by
  obtain ⟨hmay, hall⟩ := hrun.invariant
    (I := fun c => C.may (C.view s) (C.view c.1) ∧ ∀ i, C.Behaves (c.2 i) (Q i) (C.view c.1))
    ⟨C.refl _, h⟩ fun c a c' hI hturn => by
      obtain ⟨hmay, hall⟩ := behaves_turn hI.2 hturn
      exact ⟨C.trans _ _ _ hI.1 hmay, hall⟩
  refine ⟨hmay, fun i a hdone => ?_⟩
  have hi := hall i
  rw [hdone] at hi
  exact hi _ (C.refl _)

end Runs

end Company

end LinuseFs.Computation
