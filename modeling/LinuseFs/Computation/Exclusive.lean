import Mathlib.Logic.Basic

/-!
# Exclusive ownership

Owners hold resources under references: `held i r` says that owner `i` has the reference
`r`, `place i r` is the resource it refers to.  `Exclusive` says that every resource held
is acceptable (marked as taken, say) and that no resource is held twice.

`Exclusive.update` is the one rule for a change of the holdings: what was held before is
kept or dropped, and what is new refers to pairwise different resources that were not
acceptable before, so held by nobody.
-/

set_option autoImplicit false

namespace LinuseFs.Computation

variable {ω ρ β : Type}

/-- Every resource held is acceptable, and none is held twice. -/
structure Exclusive (held : ω → ρ → Prop) (place : ω → ρ → β) (ok : β → Prop) : Prop where
  ok : ∀ i r, held i r → ok (place i r)
  inj : ∀ i r j q, held i r → held j q → place i r = place j q → i = j ∧ r = q

variable {held held' : ω → ρ → Prop} {place place' : ω → ρ → β} {ok ok' : β → Prop}

/-- INTERNAL: **the update rule**.  References that are not fresh were held, at the same
place, which stays acceptable; fresh references go to places that were not acceptable
before and are now, pairwise different. -/
theorem Exclusive.update (h : Exclusive held place ok) (fresh : ω → ρ → Prop)
    (hold : ∀ i r, held' i r → ¬ fresh i r →
      held i r ∧ place' i r = place i r ∧ ok' (place i r))
    (hnew : ∀ i r, held' i r → fresh i r → ¬ ok (place' i r) ∧ ok' (place' i r))
    (hinj : ∀ i r j q, held' i r → fresh i r → held' j q → fresh j q →
      place' i r = place' j q → i = j ∧ r = q) :
    Exclusive held' place' ok' := by
  refine ⟨fun i r hr => ?_, fun i r j q hr hq e => ?_⟩
  · by_cases hf : fresh i r
    · exact (hnew i r hr hf).2
    · obtain ⟨-, he, hok⟩ := hold i r hr hf
      rw [he]
      exact hok
  · by_cases hf : fresh i r <;> by_cases hg : fresh j q
    · exact hinj i r j q hr hf hq hg e
    · obtain ⟨hq', he, -⟩ := hold j q hq hg
      exact absurd (e.trans he ▸ h.ok j q hq') (hnew i r hr hf).1
    · obtain ⟨hr', he, -⟩ := hold i r hr hf
      exact absurd (e.symm.trans he ▸ h.ok i r hr') (hnew j q hq hg).1
    · obtain ⟨hr', he, -⟩ := hold i r hr hf
      obtain ⟨hq', he', -⟩ := hold j q hq hg
      exact h.inj i r j q hr' hq' (he.symm.trans (e.trans he'))

end LinuseFs.Computation
