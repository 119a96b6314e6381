import Mathlib.Data.List.Basic

/-!
# Look-ups in what is there

A program that looks keys up and adds new ones, as the list of what it does.  The list is
`Followed` when each key is there as it is looked up: it was there at the beginning, or it has been
added.  What comes behind a stop does not happen.
-/

set_option autoImplicit false

namespace LinuseFs.Computation

/-- A key is looked up or added, or the program stops. -/
inductive KeyUse (κ : Type)
  | lookUp (k : κ)
  | add (k : κ)
  | stop

/-- Each key is there as it is looked up, when those with `has` are there at the beginning. -/
def Followed {κ : Type} : (κ → Prop) → List (KeyUse κ) → Prop
  | _, [] => True
  | has, .lookUp k :: uses => has k ∧ Followed has uses
  | has, .add k :: uses => Followed (fun l => has l ∨ l = k) uses
  | _, .stop :: _ => True

section Followed

variable {κ : Type} {has has' : κ → Prop} {uses : List (KeyUse κ)}

@[simp] theorem followed_nil : Followed has [] := trivial

@[simp] theorem followed_lookUp (k : κ) :
    Followed has (.lookUp k :: uses) ↔ has k ∧ Followed has uses := Iff.rfl

@[simp] theorem followed_add (k : κ) :
    Followed has (.add k :: uses) ↔ Followed (fun l => has l ∨ l = k) uses := Iff.rfl

@[simp] theorem followed_stop : Followed has (.stop :: uses) := trivial

/-- INTERNAL: only the keys that are looked up have to be there. -/
theorem Followed.mono (h : Followed has uses)
    (hmono : ∀ k, .lookUp k ∈ uses → has k → has' k) : Followed has' uses := by
  induction uses generalizing has has' with
  | nil => simp
  | cons use uses ih =>
    have hrest : ∀ k, .lookUp k ∈ uses → has k → has' k :=
      fun k hk => hmono k (List.mem_cons_of_mem _ hk)
    cases use with
    | lookUp k => exact ⟨hmono k List.mem_cons_self h.1, ih h.2 hrest⟩
    | add k =>
      apply @ih _ (fun l => has' l ∨ l = k) h
      intro l hl hhas
      exact hhas.imp_left (hrest l hl)
    | stop => simp

/-- INTERNAL: nothing has to be added when every key is there. -/
theorem followed_of_forall (h : ∀ k, .lookUp k ∈ uses → has k) : Followed has uses := by
  induction uses generalizing has with
  | nil => simp
  | cons use uses ih =>
    have hrest : ∀ k, .lookUp k ∈ uses → has k := fun k hk => h k (List.mem_cons_of_mem _ hk)
    cases use with
    | lookUp k => exact ⟨h k List.mem_cons_self, ih hrest⟩
    | add k => exact ih fun l hl => Or.inl (hrest l hl)
    | stop => simp

end Followed

end LinuseFs.Computation
