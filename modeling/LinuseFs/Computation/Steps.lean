import LinuseFs.Computation.Outcome
import LinuseFs.Computation.Run
import Mathlib.Data.Set.Insert

/-!
# Programs in atomic steps

A program of type `Steps ε R α` is a tree of atomic steps.  A step has a label `l`, and its
answer, of type `R l`, chooses the rest; what the steps do to the shared state is told by an
`exec`, and `Steps.run` is the program run alone.  In a `Run` of `Turn exec` several programs
take their steps in any order.  A step that stops is never taken: it ends the process.

The rules are for programs that meet in a critical section, from a step that `enter` holds of to
one that `leave` holds of.  They see a view of the state only.  Outside of its section a program
is `Quietly` looking at what `calm` says of the view; inside it changes the view as it likes, step
by step (`Stepwise`), as long as the view stays calm.  `exclusive_sections` puts the sections
together for the runs in which no program enters while another one is inside.
-/

set_option autoImplicit false

namespace LinuseFs.Computation

/-- A program in atomic steps: it has returned, it has stopped, or it takes a step. -/
inductive Steps (ε : Type) {L : Type} (R : L → Type) (α : Type) : Type
  | done (a : α)
  | stop (e : ε)
  | act (l : L) (k : R l → Steps ε R α)

namespace Steps

variable {ε σ L α β V ι : Type} {R : L → Type}

/-- The program followed by the one that its value chooses. -/
def bind : Steps ε R α → (α → Steps ε R β) → Steps ε R β
  | done a, f => f a
  | stop e, _ => stop e
  | act l k, f => act l fun b => (k b).bind f

instance : Monad (Steps ε R) where
  pure := done
  bind := bind

/-- The program of one step. -/
def atomic (l : L) : Steps ε R (R l) := act l done

/-- The program run alone. -/
def run (exec : ∀ l, EStateM ε σ (R l)) : Steps ε R α → EStateM ε σ α
  | done a => pure a
  | stop e => throw e
  | act l k => exec l >>= fun b => (k b).run exec

section Alone

variable (exec : ∀ l, EStateM ε σ (R l))

@[simp] theorem run_pure (a : α) : (pure a : Steps ε R α).run exec = pure a := rfl

@[simp] theorem run_stop (e : ε) : (stop e : Steps ε R α).run exec = throw e := rfl

@[simp] theorem run_atomic (l : L) : (atomic l : Steps ε R (R l)).run exec = exec l := by
  show (exec l >>= fun a => pure a) = exec l
  exact bind_pure (exec l)

@[simp] theorem run_bind (t : Steps ε R α) (f : α → Steps ε R β) :
    (t >>= f).run exec = t.run exec >>= fun a => (f a).run exec := by
  induction t with
  | done a => exact (pure_bind a fun a => (f a).run exec).symm
  | stop e => rfl
  | act l k ih =>
    calc (act l k >>= f).run exec = exec l >>= fun b => (k b >>= f).run exec := rfl
      _ = exec l >>= fun b => (k b).run exec >>= fun a => (f a).run exec := by simp only [ih]
      _ = (act l k).run exec >>= fun a => (f a).run exec := (bind_assoc (exec l) _ _).symm

end Alone

/-! ## Several programs -/

/-- The program `a.1` takes its next step, which is labelled `a.2`. -/
def Turn [DecidableEq ι] (exec : ∀ l, EStateM ε σ (R l)) (c : σ × (ι → Steps ε R α)) (a : ι × L)
    (c' : σ × (ι → Steps ε R α)) : Prop :=
  ∃ (k : R a.2 → Steps ε R α) (b : R a.2),
    c.2 a.1 = act a.2 k ∧ exec a.2 c.1 = .ok b c'.1 ∧ c'.2 = Function.update c.2 a.1 (k b)

/-- INTERNAL: a program that returns can take all its steps in one go. -/
theorem exists_run_alone [DecidableEq ι] {exec : ∀ l, EStateM ε σ (R l)} {x : Steps ε R α}
    {s s' : σ} {r : α} {t : ι → Steps ε R α} {i : ι} (hi : t i = x)
    (hrun : x.run exec s = .ok r s') :
    ∃ as, Run (Turn exec) (s, t) as (s', Function.update t i (done r)) ∧ ∀ a ∈ as, a.1 = i := by
  induction x generalizing s t with
  | done a =>
    obtain ⟨rfl, rfl⟩ := EStateM.Result.ok.inj hrun
    rw [← hi, Function.update_eq_self]
    exact ⟨[], Run.nil, fun a ha => (nomatch ha)⟩
  | stop e => cases hrun
  | act l k ih =>
    obtain ⟨b, u, hstep, hrest⟩ := exists_ok_of_bind hrun
    obtain ⟨as, has, hall⟩ :=
      ih b (t := Function.update t i (k b)) (Function.update_self ..) hrest
    rw [Function.update_idem] at has
    have hturn : Turn exec (s, t) (i, l) (u, Function.update t i (k b)) := ⟨k, b, hi, hstep, rfl⟩
    refine ⟨_, (Run.single hturn).append has, fun a ha => ?_⟩
    rcases List.mem_append.mp ha with ha | ha
    · rw [List.mem_singleton.mp ha]
    · exact hall a ha

end Steps

/-! ## One critical section -/

/-- Programs that meet in one critical section: what their steps do, the view they have of the
state, the steps that enter the section and those that leave it, and what the programs outside
rely on. -/
structure Meeting (ε σ V : Type) {L : Type} (R : L → Type) where
  exec : ∀ l, EStateM ε σ (R l)
  view : σ → V
  enter : L → Bool
  leave : L → Bool
  calm : V → Prop

namespace Meeting

variable {ε σ V L α β ι : Type} {R : L → Type} (M : Meeting ε σ V R)

/-- The answer to a step taken at the view `v`, and the view it leaves. -/
def after (l : L) (Q : R l → V → Prop) (v : V) : Prop :=
  ∀ s, M.view s = v → wp (M.exec l) (fun b s' => Q b (M.view s')) (fun _ _ => True) s

/-- The step neither enters nor leaves the section. -/
def within (l : L) : Prop := M.enter l = false ∧ M.leave l = false

/-- The program leaves every calm view as it is, and returns with `Q`. -/
def Quietly : Steps ε R α → (α → Prop) → Prop
  | .done a, Q => Q a
  | .stop _, _ => True
  | .act l k, Q => M.within l ∧ ∀ v, M.calm v → M.after l (fun b w => w = v ∧ Quietly (k b) Q) v

/-- The program, started at the view `v` and not disturbed, returns with `Q`; the view is calm
after each step. -/
def Stepwise : Steps ε R α → (α → V → Prop) → V → Prop
  | .done a, Q, v => Q a v
  | .stop _, _, _ => True
  | .act l k, Q, v => M.within l ∧ M.after l (fun b w => M.calm w ∧ Stepwise (k b) Q w) v

/-- The program is inside at the view `v`: it leaves with `Q`, and has returned then. -/
def Inside (Q : V → Prop) : Steps ε R α → V → Prop
  | .done _, _ => False
  | .stop _, _ => True
  | .act l k, v =>
    M.enter l = false ∧ M.after l (fun b w =>
      if M.leave l then Q w ∧ ∃ a, k b = .done a else M.calm w ∧ Inside Q (k b) w) v

/-- The program `i` is before its section, which takes the view from `P D` to
`P (insert i D)`. -/
def Client (P : Set ι → V → Prop) (i : ι) : Steps ε R α → Prop
  | .done _ => False
  | .stop _ => True
  | .act l k =>
    if M.enter l then ∀ D v, i ∉ D → P D v →
      M.after l (fun b w => w = v ∧ M.Inside (P (insert i D)) (k b) v) v
    else M.leave l = false ∧ ∀ v, M.calm v → M.after l (fun b w => w = v ∧ Client P i (k b)) v

/-- The program that has entered and not left yet, after the steps labelled `as`. -/
def insider (as : List (ι × L)) : Option ι :=
  as.foldl (fun o a => if M.enter a.2 then some a.1 else if M.leave a.2 then none else o) none

/-- No program enters while another one is inside. -/
def Exclusive (as : List (ι × L)) : Prop :=
  ∀ bs a, bs ++ [a] <+: as → M.enter a.2 = true → M.insider bs = none

variable {M} {v : V} {l : L} {t : Steps ε R α} {f : α → Steps ε R β}

theorem insider_concat (as : List (ι × L)) (i : ι) (l : L) : M.insider (as ++ [(i, l)]) =
    if M.enter l then some i else if M.leave l then none else M.insider as := by
  rw [insider, List.foldl_concat]
  rfl

/-! ### The rules -/

theorem after_mono {Q Q' : R l → V → Prop} (h : M.after l Q v) (hQ : ∀ b w, Q b w → Q' b w) :
    M.after l Q' v :=
  fun s hs => wp_mono (h s hs) (fun b s' => hQ b (M.view s')) fun _ _ he => he

/-- INTERNAL: what a step that was taken has left. -/
theorem after_of_ok {Q : R l → V → Prop} {s s' : σ} {b : R l} (h : M.after l Q (M.view s))
    (hs : M.exec l s = .ok b s') : Q b (M.view s') :=
  wp_of_ok (Q := fun b s' => Q b (M.view s')) (h s rfl) hs

theorem Quietly.bind {Q : α → Prop} {Q' : β → Prop} (h : M.Quietly t Q)
    (hf : ∀ a, Q a → M.Quietly (f a) Q') : M.Quietly (t >>= f) Q' := by
  induction t with
  | done a => exact hf a h
  | stop e => trivial
  | act l k ih =>
    exact ⟨h.1, fun v hv => after_mono (h.2 v hv) fun b w hb => ⟨hb.1, ih b hb.2⟩⟩

theorem Quietly.atomic {Q : R l → Prop} (hl : M.within l)
    (h : ∀ v, M.calm v → M.after l (fun b w => w = v ∧ Q b) v) :
    M.Quietly (Steps.atomic l) Q :=
  ⟨hl, h⟩

theorem Stepwise.bind {Q' : β → V → Prop}
    (h : M.Stepwise t (fun a w => M.Stepwise (f a) Q' w) v) : M.Stepwise (t >>= f) Q' v := by
  induction t generalizing v with
  | done a => exact h
  | stop e => trivial
  | act l k ih => exact ⟨h.1, after_mono h.2 fun b w hb => ⟨hb.1, ih b hb.2⟩⟩

theorem Stepwise.atomic {Q : R l → V → Prop} (hl : M.within l)
    (h : M.after l (fun b w => M.calm w ∧ Q b w) v) : M.Stepwise (Steps.atomic l) Q v :=
  ⟨hl, h⟩

/-- INTERNAL: a part of the section, followed by the rest of it. -/
theorem Stepwise.inside {Q : V → Prop} (h : M.Stepwise t (fun a w => M.Inside Q (f a) w) v) :
    M.Inside Q (t >>= f) v := by
  induction t generalizing v with
  | done a => exact h
  | stop e => trivial
  | act l k ih =>
    show M.Inside Q (.act l fun b => k b >>= f) v
    refine ⟨h.1.1, after_mono h.2 fun b w hb => ?_⟩
    rw [if_neg (by rw [h.1.2]; decide)]
    exact ⟨hb.1, ih b hb.2⟩

/-- INTERNAL: the step that leaves. -/
theorem inside_leave {Q : V → Prop} {g : R l → α} (hl : M.leave l = true)
    (hl' : M.enter l = false) (h : M.after l (fun _ w => Q w) v) :
    M.Inside Q (Steps.atomic l >>= fun b => pure (g b)) v := by
  show M.Inside Q (.act l fun b => .done (g b)) v
  refine ⟨hl', after_mono h fun b w hw => ?_⟩
  rw [if_pos hl]
  exact ⟨hw, g b, rfl⟩

/-- INTERNAL: what the program returns in the end does not matter. -/
theorem Inside.map {Q : V → Prop} (h : M.Inside Q t v) (g : α → β) :
    M.Inside Q (t >>= fun a => pure (g a)) v := by
  induction t generalizing v with
  | done a => exact h
  | stop e => trivial
  | act l k ih =>
    refine ⟨h.1, after_mono h.2 fun b w hb => ?_⟩
    by_cases hl : M.leave l = true
    · rw [if_pos hl] at hb ⊢
      obtain ⟨hQ, a, ha⟩ := hb
      exact ⟨hQ, g a, congrArg (fun t => Steps.bind t fun a => .done (g a)) ha⟩
    · rw [if_neg hl] at hb ⊢
      exact ⟨hb.1, ih b hb.2⟩

section Clients

variable {P : Set ι → V → Prop} {i : ι}

theorem Client.map (h : M.Client P i t) (g : α → β) :
    M.Client P i (t >>= fun a => pure (g a)) := by
  induction t with
  | done a => exact h
  | stop e => trivial
  | act l k ih =>
    show M.Client P i (.act l fun b => k b >>= fun a => pure (g a))
    rw [Client] at h ⊢
    by_cases hl : M.enter l = true
    · rw [if_pos hl] at h ⊢
      exact fun D v hi hP => after_mono (h D v hi hP) fun b w hb => ⟨hb.1, hb.2.map g⟩
    · rw [if_neg hl] at h ⊢
      exact ⟨h.1, fun v hv => after_mono (h.2 v hv) fun b w hb => ⟨hb.1, ih b hb.2⟩⟩

/-- INTERNAL: a quiet part, followed by the rest up to the section. -/
theorem Quietly.client {Q : α → Prop} (h : M.Quietly t Q) (hf : ∀ a, Q a → M.Client P i (f a)) :
    M.Client P i (t >>= f) := by
  induction t with
  | done a => exact hf a h
  | stop e => trivial
  | act l k ih =>
    show M.Client P i (.act l fun b => k b >>= f)
    rw [Client, if_neg (by rw [h.1.1]; decide)]
    exact ⟨h.1.2, fun v hv => after_mono (h.2 v hv) fun b w hb => ⟨hb.1, ih b hb.2⟩⟩

/-- INTERNAL: the step that enters. -/
theorem client_enter {f : R l → Steps ε R β} (hl : M.enter l = true)
    (h : ∀ D v, i ∉ D → P D v → M.after l (fun b w => w = v ∧ M.Inside (P (insert i D)) (f b) v) v) :
    M.Client P i (Steps.atomic l >>= f) := by
  show M.Client P i (.act l f)
  rw [Client, if_pos hl]
  exact h

end Clients

/-! ### The sections put together -/

section Sections

variable {P : Set ι → V → Prop} {c c' : σ × (ι → Steps ε R α)}

/-- The programs of `D` have been through their section, `o` is inside, the others are before
it. -/
structure Underway (M : Meeting ε σ V R) (P : Set ι → V → Prop) (o : Option ι) (D : Set ι)
    (c : σ × (ι → Steps ε R α)) : Prop where
  calm : M.calm (M.view c.1)
  through : ∀ i ∈ D, ∃ a, c.2 i = .done a
  before : ∀ i ∉ D, o ≠ some i → M.Client P i (c.2 i)
  free : o = none → P D (M.view c.1)
  busy : ∀ i, o = some i → i ∉ D ∧ M.Inside (P (insert i D)) (c.2 i) (M.view c.1)

theorem underway_start {s : σ} {ts : ι → Steps ε R α} (hcalm : ∀ D v, P D v → M.calm v)
    (hs : P ∅ (M.view s)) (hts : ∀ i, M.Client P i (ts i)) : Underway M P none ∅ (s, ts) :=
  ⟨hcalm _ _ hs, fun _ hi => hi.elim, fun i _ _ => hts i, fun _ => hs, fun _ hi => (nomatch hi)⟩

/-- INTERNAL: a step of a program before its section. -/
theorem Underway.step_before [DecidableEq ι] {o : Option ι} {D : Set ι} {i : ι}
    (h : Underway M P o D c) (hi : i ∉ D) (ho : o ≠ some i) (hturn : Steps.Turn M.exec c (i, l) c')
    (hfree : M.enter l = true → o = none) :
    Underway M P (if M.enter l then some i else if M.leave l then none else o) D c' := by
  obtain ⟨k, b, hact, hexec, hupdate⟩ := hturn
  have hclient := h.before i hi ho
  rw [hact, Client] at hclient
  have hother : ∀ j, j ≠ i → c'.2 j = c.2 j := by
    intro j hj
    rw [hupdate]
    exact Function.update_of_ne hj _ _
  have hself : c'.2 i = k b := by rw [hupdate]; exact Function.update_self ..
  have hthrough : ∀ j ∈ D, ∃ a, c'.2 j = .done a := by
    intro j hj
    rw [hother j fun e => hi (e ▸ hj)]
    exact h.through j hj
  by_cases hl : M.enter l = true
  · obtain rfl := hfree hl
    rw [if_pos hl] at hclient ⊢
    obtain ⟨hview, hinside⟩ := after_of_ok (hclient D _ hi (h.free rfl)) hexec
    refine ⟨by rw [hview]; exact h.calm, hthrough, fun j hj hji => ?_, fun hnone => (nomatch hnone),
      ?_⟩
    · have hne : j ≠ i := fun e => hji (by rw [e])
      rw [hother j hne]
      exact h.before j hj fun e => (nomatch e)
    · rintro j hj
      obtain rfl := Option.some.inj hj
      rw [hself, hview]
      exact ⟨hi, hinside⟩
  · rw [if_neg hl] at hclient ⊢
    rw [if_neg (by rw [hclient.1]; decide)]
    obtain ⟨hview, hrest⟩ := after_of_ok (hclient.2 _ h.calm) hexec
    refine ⟨by rw [hview]; exact h.calm, hthrough, fun j hj hjo => ?_, fun hnone => ?_,
      fun j hj => ?_⟩
    · by_cases hji : j = i
      · rw [hji, hself]
        exact hrest
      · rw [hother j hji]
        exact h.before j hj hjo
    · rw [hview]
      exact h.free hnone
    · rw [hview, hother j fun e => ho (e ▸ hj)]
      exact h.busy j hj

/-- INTERNAL: a step of the program that is inside. -/
theorem Underway.step_inside [DecidableEq ι] (hcalm : ∀ D v, P D v → M.calm v) {D : Set ι} {i : ι}
    (h : Underway M P (some i) D c) (hturn : Steps.Turn M.exec c (i, l) c') :
    M.enter l = false ∧ ∃ D', Underway M P (if M.leave l then none else some i) D' c' := by
  obtain ⟨k, b, hact, hexec, hupdate⟩ := hturn
  obtain ⟨hi, hinside⟩ := h.busy i rfl
  rw [hact, Inside] at hinside
  have hother : ∀ j, j ≠ i → c'.2 j = c.2 j := by
    intro j hj
    rw [hupdate]
    exact Function.update_of_ne hj _ _
  have hself : c'.2 i = k b := by rw [hupdate]; exact Function.update_self ..
  have hthrough : ∀ j ∈ D, ∃ a, c'.2 j = .done a := by
    intro j hj
    rw [hother j fun e => hi (e ▸ hj)]
    exact h.through j hj
  have hbefore : ∀ j ∉ D, j ≠ i → M.Client P j (c'.2 j) := by
    intro j hj hji
    rw [hother j hji]
    exact h.before j hj fun e => hji (Option.some.inj e).symm
  have hleft := after_of_ok hinside.2 hexec
  refine ⟨hinside.1, ?_⟩
  by_cases hl : M.leave l = true
  · rw [if_pos hl] at hleft ⊢
    obtain ⟨hP, a, ha⟩ := hleft
    refine ⟨insert i D, hcalm _ _ hP, fun j hj => ?_, fun j hj _ => ?_, fun _ => hP,
      fun j hj => (nomatch hj)⟩
    · rcases hj with rfl | hj
      · exact ⟨a, hself.trans ha⟩
      · exact hthrough j hj
    · rw [Set.mem_insert_iff, not_or] at hj
      exact hbefore j hj.2 hj.1
  · rw [if_neg hl] at hleft ⊢
    refine ⟨D, hleft.1, hthrough, fun j hj hji => ?_, fun hnone => (nomatch hnone), fun j hj => ?_⟩
    · exact hbefore j hj fun e => hji (by rw [e])
    · obtain rfl := Option.some.inj hj
      rw [hself]
      exact ⟨hi, hleft.2⟩

/-- INTERNAL: a step, if it does not enter while another program is inside. -/
theorem Underway.step [DecidableEq ι] (hcalm : ∀ D v, P D v → M.calm v) {o : Option ι} {D : Set ι}
    {i : ι} (h : Underway M P o D c) (hturn : Steps.Turn M.exec c (i, l) c')
    (hfree : M.enter l = true → o = none) :
    ∃ D', Underway M P (if M.enter l then some i else if M.leave l then none else o) D' c' := by
  by_cases hi : o = some i
  · subst hi
    obtain ⟨hl, hnext⟩ := h.step_inside hcalm hturn
    rwa [if_neg (by rw [hl]; decide)]
  · have hiD : i ∉ D := by
      intro hmem
      obtain ⟨k, b, hact, -⟩ := hturn
      obtain ⟨a, ha⟩ := h.through i hmem
      cases hact.symm.trans ha
    exact ⟨D, h.step_before hiD hi hturn hfree⟩

theorem exclusive_nil : M.Exclusive ([] : List (ι × L)) :=
  fun bs a hbs => absurd (List.prefix_nil.mp hbs) (List.append_ne_nil_of_right_ne_nil bs (by simp))

theorem exclusive_concat {as : List (ι × L)} {i : ι} :
    M.Exclusive (as ++ [(i, l)]) ↔
      M.Exclusive as ∧ (M.enter l = true → M.insider as = none) := by
  constructor
  · exact fun h => ⟨fun bs a hbs => h bs a (hbs.trans (List.prefix_append as _)),
      h as (i, l) List.prefix_rfl⟩
  · rintro ⟨has, hl⟩ bs a hbs
    rcases List.prefix_concat_iff.mp hbs with heq | hbs
    · obtain ⟨rfl, ha⟩ := List.append_inj' heq rfl
      obtain rfl := List.singleton_inj.mp ha
      exact hl
    · exact has bs a hbs

/-- INTERNAL: a program that takes its steps in one go meets nobody. -/
theorem Underway.alone [DecidableEq ι] (hcalm : ∀ D v, P D v → M.calm v) {as bs : List (ι × L)}
    {D : Set ι} {i : ι} {a : α} (h : Underway M P (M.insider as) D c) (has : M.Exclusive as)
    (ho : M.insider as = none) (hrun : Run (Steps.Turn M.exec) c bs c')
    (hbs : ∀ b ∈ bs, b.1 = i) (hdone : c'.2 i = .done a) :
    M.Exclusive (as ++ bs) ∧ M.insider (as ++ bs) = none ∧
      ∃ D', Underway M P (M.insider (as ++ bs)) D' c' := by
  have hall : (∀ b ∈ bs, b.1 = i) → M.Exclusive (as ++ bs) ∧
      (M.insider (as ++ bs) = none ∨ M.insider (as ++ bs) = some i) ∧
        ∃ D', Underway M P (M.insider (as ++ bs)) D' c' := by
    clear hbs hdone
    induction hrun with
    | nil =>
      rw [List.append_nil]
      exact fun _ => ⟨has, Or.inl ho, D, h⟩
    | snoc init last ih =>
      rename_i bs b c₁ c₂
      obtain ⟨j, l⟩ := b
      intro hbs
      obtain ⟨hex, hin, D', hD'⟩ := ih fun b hb => hbs b (List.mem_append_left _ hb)
      obtain rfl : j = i := hbs (j, l) (by simp)
      have hfree : M.enter l = true → M.insider (as ++ bs) = none := by
        intro hl
        apply hin.resolve_right
        intro hi
        rw [hi] at hD'
        rw [(hD'.step_inside hcalm last).1] at hl
        cases hl
      rw [← List.append_assoc]
      refine ⟨exclusive_concat.mpr ⟨hex, hfree⟩, ?_, ?_⟩
      · rw [insider_concat]
        split
        · exact Or.inr rfl
        · split
          · exact Or.inl rfl
          · exact hin
      · rw [insider_concat]
        exact hD'.step hcalm last hfree
  obtain ⟨hex, hin, D', hD'⟩ := hall hbs
  refine ⟨hex, hin.resolve_right fun hi => ?_, D', hD'⟩
  have hinside := (hD'.busy i hi).2
  rw [hdone] at hinside
  exact hinside

/-- INTERNAL: **each section does what it does alone**, in every run in which no program enters
while another one is inside: once all have returned, all have been through it. -/
theorem exclusive_sections [DecidableEq ι] {s : σ} {ts : ι → Steps ε R α} {as : List (ι × L)}
    (hcalm : ∀ D v, P D v → M.calm v) (hs : P ∅ (M.view s)) (hts : ∀ i, M.Client P i (ts i))
    (hrun : Run (Steps.Turn M.exec) (s, ts) as c) (has : M.Exclusive as)
    (hdone : ∀ i, ∃ a, c.2 i = .done a) : P Set.univ (M.view c.1) := by
  have hall : M.Exclusive as → ∃ D, Underway M P (M.insider as) D c := by
    apply hrun.induct (I := fun as c => M.Exclusive as → ∃ D, Underway M P (M.insider as) D c)
    · exact fun _ => ⟨∅, underway_start hcalm hs hts⟩
    · rintro as c ⟨i, l⟩ c' ih hturn has
      rw [exclusive_concat] at has
      obtain ⟨D, hD⟩ := ih has.1
      rw [insider_concat]
      exact hD.step hcalm hturn has.2
  obtain ⟨D, hD⟩ := hall has
  have hnot : ∀ i, M.insider as ≠ some i := by
    intro i hi
    obtain ⟨a, ha⟩ := hdone i
    have hinside := (hD.busy i hi).2
    rw [ha] at hinside
    exact hinside
  have huniv : D = Set.univ := by
    apply Set.eq_univ_of_forall
    intro i
    by_contra hi
    obtain ⟨a, ha⟩ := hdone i
    have hclient := hD.before i hi (hnot i)
    rw [ha] at hclient
    exact hclient
  rw [← huniv]
  apply hD.free
  cases ho : M.insider as with
  | none => rfl
  | some i => exact absurd ho (hnot i)

end Sections

end Meeting

end LinuseFs.Computation
