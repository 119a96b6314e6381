import Mathlib.Order.Basic

/-!
# Weakest preconditions for computations that may stop early

A computation is an `EStateM ε σ α`: it returns a value or stops with an `ε`, and the
state is kept in both cases.  `wp x Q E s` says that `x` started in `s` either returns
with `Q` or stops with `E`; taking `E` false gives total correctness, taking it true
on some stops gives correctness up to these stops.

The rules below are the only place where `EStateM.bind` and its companions are
unfolded: a proof about a program is a sequence of `wp_bind_of` steps, one per
statement, closed by `wp_pure`.
-/

set_option autoImplicit false

namespace LinuseFs.Computation

variable {ε σ α β : Type}

/-- The computation `x`, started in `s`, returns a value and a state in `Q` or stops
with an error and a state in `E`. -/
def wp (x : EStateM ε σ α) (Q : α → σ → Prop) (E : ε → σ → Prop) (s : σ) : Prop :=
  match x s with
  | .ok a s' => Q a s'
  | .error e s' => E e s'

variable {Q : α → σ → Prop} {E : ε → σ → Prop} {s : σ}

@[simp] theorem wp_pure (a : α) : wp (pure a) Q E s ↔ Q a s := Iff.rfl

@[simp] theorem wp_throw (e : ε) : wp (throw e : EStateM ε σ α) Q E s ↔ E e s := Iff.rfl

@[simp] theorem wp_get {Q : σ → σ → Prop} :
    wp (get : EStateM ε σ σ) Q E s ↔ Q s s := Iff.rfl

@[simp] theorem wp_set {Q : PUnit → σ → Prop} (s' : σ) :
    wp (set s' : EStateM ε σ PUnit) Q E s ↔ Q ⟨⟩ s' := Iff.rfl

@[simp] theorem wp_modify {Q : PUnit → σ → Prop} (f : σ → σ) :
    wp (modify f : EStateM ε σ PUnit) Q E s ↔ Q ⟨⟩ (f s) := Iff.rfl

/-- Sequencing: run `x`, then what follows from where `x` left the state. -/
theorem wp_bind (x : EStateM ε σ α) (f : α → EStateM ε σ β) {Q : β → σ → Prop} :
    wp (x >>= f) Q E s ↔ wp x (fun a s' => wp (f a) Q E s') E s := by
  simp only [wp, bind, EStateM.bind]
  cases x s <;> rfl

/-- INTERNAL: reading the state, and going on with it. -/
theorem get_bind_apply (f : σ → EStateM ε σ β) (s : σ) : (get >>= f) s = f s s := rfl

/-- INTERNAL: what follows a statement that returned. -/
theorem bind_of_ok {x : EStateM ε σ α} {f : α → EStateM ε σ β} {a : α} {u : σ}
    (h : x s = .ok a u) : (x >>= f) s = f a u := by
  simp only [bind, EStateM.bind, h]

/-- INTERNAL: what returned did so statement by statement. -/
theorem exists_ok_of_bind {x : EStateM ε σ α} {f : α → EStateM ε σ β} {r : β} {s' : σ}
    (h : (x >>= f) s = .ok r s') : ∃ a u, x s = .ok a u ∧ f a u = .ok r s' := by
  have hwp : wp (x >>= f) (fun b t => b = r ∧ t = s') (fun _ _ => False) s := by
    unfold wp
    rw [h]
    exact ⟨rfl, rfl⟩
  rw [wp_bind] at hwp
  unfold wp at hwp
  cases hx : x s with
  | error e u => rw [hx] at hwp; exact hwp.elim
  | ok a u =>
    rw [hx] at hwp
    refine ⟨a, u, rfl, ?_⟩
    cases hf : f a u with
    | error e t => simp only [hf] at hwp
    | ok b t =>
      simp only [hf] at hwp
      rw [hwp.1, hwp.2]

/-- INTERNAL: a weaker postcondition holds as well. -/
theorem wp_mono {x : EStateM ε σ α} {Q' : α → σ → Prop} {E' : ε → σ → Prop}
    (h : wp x Q E s) (hQ : ∀ a s', Q a s' → Q' a s') (hE : ∀ e s', E e s' → E' e s') :
    wp x Q' E' s := by
  unfold wp at h ⊢
  cases hx : x s with
  | ok a s' => rw [hx] at h; exact hQ a s' h
  | error e s' => rw [hx] at h; exact hE e s' h

/-- INTERNAL: **the step rule**.  A specification of the first statement and a proof
about the rest from its postcondition. -/
theorem wp_bind_of {x : EStateM ε σ α} {f : α → EStateM ε σ β} {Q : β → σ → Prop}
    {R : α → σ → Prop} {E' : ε → σ → Prop} (hx : wp x R E' s)
    (hf : ∀ a s', R a s' → wp (f a) Q E s') (hE : ∀ e s', E' e s' → E e s') :
    wp (x >>= f) Q E s := by
  rw [wp_bind]
  exact wp_mono hx hf hE

/-- INTERNAL: two postconditions of one computation hold together. -/
theorem wp_and {x : EStateM ε σ α} {Q' : α → σ → Prop} {E' : ε → σ → Prop}
    (h : wp x Q E s) (h' : wp x Q' E' s) :
    wp x (fun a s' => Q a s' ∧ Q' a s') (fun e s' => E e s' ∧ E' e s') s := by
  unfold wp at h h' ⊢
  cases hx : x s with
  | ok a s' => rw [hx] at h h'; exact ⟨h, h'⟩
  | error e s' => rw [hx] at h h'; exact ⟨h, h'⟩

/-- INTERNAL: what a specification says of a run that returned. -/
theorem wp_of_ok {x : EStateM ε σ α} {a : α} {s' : σ} (h : wp x Q E s)
    (hx : x s = .ok a s') : Q a s' := by
  unfold wp at h
  rw [hx] at h
  exact h

/-- INTERNAL: what a specification says of a run that stopped. -/
theorem wp_of_error {x : EStateM ε σ α} {e : ε} {s' : σ} (h : wp x Q E s)
    (hx : x s = .error e s') : E e s' := by
  unfold wp at h
  rw [hx] at h
  exact h

/-- INTERNAL: a computation that meets a specification and cannot stop returns. -/
theorem exists_ok_of_wp {x : EStateM ε σ α} (h : wp x Q E s) (hE : ∀ e s', ¬ E e s') :
    ∃ a s', x s = .ok a s' ∧ Q a s' := by
  unfold wp at h
  cases hx : x s with
  | ok a s' => rw [hx] at h; exact ⟨a, s', rfl, h⟩
  | error e s' => rw [hx] at h; exact absurd h (hE e s')

/-- INTERNAL: a computation that meets a specification and cannot return stops. -/
theorem exists_error_of_wp {x : EStateM ε σ α} (h : wp x (fun _ _ => False) E s) :
    ∃ e s', x s = .error e s' ∧ E e s' := by
  unfold wp at h
  cases hx : x s with
  | ok a s' => rw [hx] at h; exact h.elim
  | error e s' => rw [hx] at h; exact ⟨e, s', rfl, h⟩

/-- INTERNAL: the postcondition may use the run itself. -/
theorem wp_run {x : EStateM ε σ α} (h : wp x Q E s) :
    wp x (fun a s' => x s = .ok a s' ∧ Q a s') E s := by
  unfold wp at h ⊢
  cases hx : x s with
  | ok a s' => rw [hx] at h; exact ⟨rfl, h⟩
  | error e s' => rw [hx] at h; exact h

/-! ## Computations that only read -/

/-- When the computation returns, the state is the one it was started in. -/
def ReadOnly (x : EStateM ε σ α) : Prop := ∀ s, wp x (fun _ s' => s' = s) (fun _ _ => True) s

namespace ReadOnly

theorem pure (a : α) : ReadOnly (Pure.pure a : EStateM ε σ α) := fun _ => rfl

theorem throw (e : ε) : ReadOnly (MonadExcept.throw e : EStateM ε σ α) := fun _ => trivial

theorem get : ReadOnly (MonadState.get : EStateM ε σ σ) := fun _ => rfl

theorem bind {x : EStateM ε σ α} {f : α → EStateM ε σ β} (hx : ReadOnly x)
    (hf : ∀ a, ReadOnly (f a)) : ReadOnly (x >>= f) := by
  intro s
  refine wp_bind_of (hx s) (fun a s' hs => ?_) fun _ _ _ => trivial
  subst hs
  exact hf a s'

end ReadOnly

/-! ## What a computation can return -/

/-- When the computation returns, its value is in `P`. -/
def Returns (P : α → Prop) (x : EStateM ε σ α) : Prop :=
  ∀ s, wp x (fun a _ => P a) (fun _ _ => True) s

namespace Returns

variable {P : α → Prop}

theorem pure {a : α} (h : P a) : Returns P (Pure.pure a : EStateM ε σ α) := fun _ => h

theorem throw (e : ε) : Returns P (MonadExcept.throw e : EStateM ε σ α) := fun _ => trivial

/-- INTERNAL: what is returned is decided by the last statement. -/
theorem bind {x : EStateM ε σ β} {f : β → EStateM ε σ α} (hf : ∀ b, Returns P (f b)) :
    Returns P (x >>= f) := by
  intro s
  have hx : wp x (fun _ _ => True) (fun _ _ => True) s := by
    unfold wp
    split <;> trivial
  exact wp_bind_of hx (fun b s' _ => hf b s') fun _ _ _ => trivial

theorem bind_of {x : EStateM ε σ β} {f : β → EStateM ε σ α} {R : β → Prop} (hx : Returns R x)
    (hf : ∀ b, R b → Returns P (f b)) : Returns P (x >>= f) := by
  intro s
  exact wp_bind_of (hx s) (fun b s' hb => hf b hb s') fun _ _ _ => trivial

theorem ite {c : Prop} [Decidable c] {x y : EStateM ε σ α} (hx : Returns P x)
    (hy : Returns P y) : Returns P (if c then x else y) := by
  split
  · exact hx
  · exact hy

end Returns

/-! ## Computations that overlook a part of the state -/

/-- An outcome with another state. -/
def onState (f : σ → σ) : EStateM.Result ε σ α → EStateM.Result ε σ α
  | .ok a s => .ok a (f s)
  | .error e s => .error e (f s)

/-- Started in `s`, the computation overlooks what `f` changes: whether it is changed before or
behind the computation makes no difference. -/
def OverlooksAt (f : σ → σ) (x : EStateM ε σ α) (s : σ) : Prop := x (f s) = onState f (x s)

/-- The computation overlooks what `f` changes in every state. -/
def Overlooks (f : σ → σ) (x : EStateM ε σ α) : Prop := ∀ s, OverlooksAt f x s

/-- INTERNAL: what a computation does behind the change. -/
theorem OverlooksAt.wp {f : σ → σ} {x : EStateM ε σ α} (h : OverlooksAt f x s)
    (hx : wp x (fun a s' => Q a (f s')) (fun e s' => E e (f s')) s) :
    Computation.wp x Q E (f s) := by
  unfold Computation.wp at hx ⊢
  rw [h]
  cases hs : x s with
  | ok a s' =>
    rw [hs] at hx
    exact hx
  | error e s' =>
    rw [hs] at hx
    exact hx

/-- INTERNAL: **the step rule**, with what is known of the first statement. -/
theorem OverlooksAt.bind_of {f : σ → σ} {x : EStateM ε σ α} {g : α → EStateM ε σ β}
    {R : α → σ → Prop} (hx : OverlooksAt f x s)
    (hR : Computation.wp x R (fun _ _ => True) s)
    (hg : ∀ a s', R a s' → OverlooksAt f (g a) s') : OverlooksAt f (x >>= g) s := by
  unfold OverlooksAt at hx ⊢
  cases hs : x s with
  | ok a s' =>
    rw [bind_of_ok hs, bind_of_ok (hx.trans (by rw [hs]; rfl))]
    exact hg a s' (wp_of_ok hR hs)
  | error e s' =>
    rw [hs] at hx
    simp only [Bind.bind, EStateM.bind, hs, hx]
    rfl

namespace Overlooks

variable {f : σ → σ}

theorem pure (a : α) : Overlooks f (Pure.pure a : EStateM ε σ α) := fun _ => rfl

theorem throw (e : ε) : Overlooks f (MonadExcept.throw e : EStateM ε σ α) := fun _ => rfl

/-- INTERNAL: the state is read, and what follows overlooks the change in it. -/
theorem get_bind {g : σ → EStateM ε σ α} (h : ∀ s, g (f s) (f s) = onState f (g s s)) :
    Overlooks f (MonadState.get >>= g) := h

theorem bind {x : EStateM ε σ α} {g : α → EStateM ε σ β} (hx : Overlooks f x)
    (hg : ∀ a, Overlooks f (g a)) : Overlooks f (x >>= g) := by
  intro s
  refine (hx s).bind_of (R := fun _ _ => True) ?_ fun a s' _ => hg a s'
  unfold Computation.wp
  split <;> trivial

theorem ite {c : Prop} [Decidable c] {x y : EStateM ε σ α} (hx : Overlooks f x)
    (hy : Overlooks f y) : Overlooks f (if c then x else y) := by
  split
  · exact hx
  · exact hy

end Overlooks

end LinuseFs.Computation
