import Mathlib.Logic.Relation
import Mathlib.Data.List.Nodup
import Mathlib.Data.Finset.Card

/-!
# Namespaces

A namespace over a type of nodes and a type of names: which nodes are live, the named
entries each node lists, and the parent each node records.  `WellFormed root orphan`
says that the two records agree: every entry of a live node leads to a live node that
records it as its parent, no node is listed twice, and every live node but the root and
the orphan is listed by its parent.  The orphan, if there is one, is a live node that no
entry leads to: the state between the two halves of a creation, a removal or a move.

Four changes lead from one namespace to another: `Born` adds an orphan, `Linked` gives
the orphan an entry, `Unlinked` takes the entry of a node away and `Dead` removes an
orphan without entries.  Each preserves well-formedness; a creation and a removal
preserve also that names are distinct in each node (`DistinctNames`) and that every live
node is reachable from the root (`Rooted`), from which it follows that there is no cycle
(`not_below_self`).
-/

set_option autoImplicit false

namespace LinuseFs.Computation

/-- Live nodes, their named entries and the parents they record. -/
structure Namespace (ι ν : Type) where
  live : ι → Prop
  entries : ι → List (ν × ι)
  parent : ι → ι

namespace Namespace

variable {ι ν : Type}

/-- The node that the first entry of `d` with the name leads to. -/
def lookup [DecidableEq ν] (t : Namespace ι ν) (d : ι) (name : ν) : Option ι :=
  ((t.entries d).find? fun e => e.1 = name).map Prod.snd

/-- The node that a path leads to from `d`. -/
def walk [DecidableEq ν] (t : Namespace ι ν) : ι → List ν → Option ι
  | d, [] => some d
  | d, name :: names =>
    match t.lookup d name with
    | none => none
    | some n => t.walk n names

/-- The nodes that the entries of `d` lead to. -/
def targets (t : Namespace ι ν) (d : ι) : List ι := (t.entries d).map Prod.snd

/-- The entries and the recorded parents agree, but for an orphan. -/
structure WellFormed (t : Namespace ι ν) (root : ι) (orphan : Option ι) : Prop where
  root_live : t.live root
  target_live : ∀ d, t.live d → ∀ n ∈ t.targets d, t.live n
  target_ne_root : ∀ d, t.live d → ∀ n ∈ t.targets d, n ≠ root
  target_parent : ∀ d, t.live d → ∀ n ∈ t.targets d, t.parent n = d
  target_ne_orphan : ∀ d, t.live d → ∀ n ∈ t.targets d, some n ≠ orphan
  targets_nodup : ∀ d, t.live d → (t.targets d).Nodup
  listed : ∀ n, t.live n → n ≠ root → some n ≠ orphan →
    t.live (t.parent n) ∧ n ∈ t.targets (t.parent n)

/-- The names a live node lists are distinct. -/
def DistinctNames (t : Namespace ι ν) : Prop :=
  ∀ d, t.live d → ((t.entries d).map Prod.fst).Nodup

/-- The live node `d` lists `n`. -/
def Child (t : Namespace ι ν) (d n : ι) : Prop := t.live d ∧ n ∈ t.targets d

/-- Every live node is reached from the root along entries. -/
def Rooted (t : Namespace ι ν) (root : ι) : Prop :=
  ∀ n, t.live n → Relation.ReflTransGen t.Child root n

variable {t t' : Namespace ι ν} {root d n : ι} {orphan : Option ι}

/-! ## Paths -/

section Walk

variable [DecidableEq ν]

theorem lookup_eq_some {name : ν} (h : t.lookup d name = some n) : (name, n) ∈ t.entries d := by
  simp only [lookup, Option.map_eq_some_iff] at h
  obtain ⟨e, he, rfl⟩ := h
  have hname := List.find?_some he
  simp only [decide_eq_true_eq] at hname
  rw [← hname]
  exact List.mem_of_find?_eq_some he

theorem mem_targets_of_lookup {name : ν} (h : t.lookup d name = some n) : n ∈ t.targets d :=
  List.mem_map.mpr ⟨_, lookup_eq_some h, rfl⟩

theorem lookup_eq_none_iff {name : ν} :
    t.lookup d name = none ↔ ∀ e ∈ t.entries d, e.1 ≠ name := by
  simp [lookup, List.find?_eq_none]

@[simp] theorem walk_nil : t.walk d [] = some d := rfl

theorem walk_append (names names' : List ν) :
    t.walk d (names ++ names') = (t.walk d names).bind fun m => t.walk m names' := by
  induction names generalizing d with
  | nil => rfl
  | cons name names ih =>
    simp only [List.cons_append, walk]
    cases t.lookup d name with
    | none => rfl
    | some m => exact ih

theorem walk_singleton (name : ν) : t.walk d [name] = t.lookup d name := by
  simp only [walk]
  cases t.lookup d name <;> rfl

/-- INTERNAL: a walk from a live node ends in a live node. -/
theorem WellFormed.walk_live (h : t.WellFormed root orphan) (hd : t.live d) {names : List ν}
    (hw : t.walk d names = some n) : t.live n := by
  induction names generalizing d with
  | nil => cases hw; exact hd
  | cons name names ih =>
    simp only [walk] at hw
    cases hl : t.lookup d name with
    | none => rw [hl] at hw; cases hw
    | some m =>
      rw [hl] at hw
      exact ih (h.target_live d hd m (mem_targets_of_lookup hl)) hw

end Walk

/-! ## The four changes -/

/-- `t'` has the new orphan `n`, without entries. -/
structure Born (t t' : Namespace ι ν) (n : ι) : Prop where
  live : ∀ m, t'.live m ↔ t.live m ∨ m = n
  entries : ∀ m, m ≠ n → t'.entries m = t.entries m
  entries_new : t'.entries n = []
  parent : ∀ m, m ≠ n → t'.parent m = t.parent m

/-- `t'` lists `n` under a name at the end of `d`, and `n` records `d`. -/
structure Linked (t t' : Namespace ι ν) (d : ι) (name : ν) (n : ι) : Prop where
  live : ∀ m, t'.live m ↔ t.live m
  entries : ∀ m, m ≠ d → t'.entries m = t.entries m
  entries_dir : t'.entries d = t.entries d ++ [(name, n)]
  parent : ∀ m, m ≠ n → t'.parent m = t.parent m
  parent_new : t'.parent n = d

/-- `t'` has lost the entry of `d` that leads to `n`. -/
structure Unlinked (t t' : Namespace ι ν) (d : ι) (n : ι) : Prop where
  live : ∀ m, t'.live m ↔ t.live m
  entries : ∀ m, m ≠ d → t'.entries m = t.entries m
  entries_dir : ∃ name l₁ l₂, t.entries d = l₁ ++ (name, n) :: l₂ ∧ t'.entries d = l₁ ++ l₂
  parent : ∀ m, m ≠ n → t'.parent m = t.parent m

/-- `t'` has lost the node `n`. -/
structure Dead (t t' : Namespace ι ν) (n : ι) : Prop where
  live : ∀ m, t'.live m ↔ t.live m ∧ m ≠ n
  entries : ∀ m, m ≠ n → t'.entries m = t.entries m
  parent : ∀ m, m ≠ n → t'.parent m = t.parent m

theorem targets_congr (h : t'.entries d = t.entries d) : t'.targets d = t.targets d := by
  simp only [targets, h]

theorem Linked.targets_dir {name : ν} (h : Linked t t' d name n) :
    t'.targets d = t.targets d ++ [n] := by
  simp only [targets, h.entries_dir, List.map_append, List.map_cons, List.map_nil]

/-- INTERNAL: a new orphan keeps the namespace well formed. -/
theorem WellFormed.born (h : t.WellFormed root none) (hb : Born t t' n) (hn : ¬ t.live n) :
    t'.WellFormed root (some n) := by
  have hroot : root ≠ n := fun e => hn (e ▸ h.root_live)
  have htargets : ∀ d, t'.live d → ∀ m ∈ t'.targets d, t.live d ∧ m ∈ t.targets d := by
    intro d hd m hm
    by_cases hdn : d = n
    · subst hdn
      simp [targets, hb.entries_new] at hm
    · rw [targets_congr (hb.entries d hdn)] at hm
      exact ⟨((hb.live d).mp hd).resolve_right hdn, hm⟩
  have hne : ∀ d, t.live d → ∀ m ∈ t.targets d, m ≠ n :=
    fun d hd m hm e => hn (e ▸ h.target_live d hd m hm)
  refine ⟨(hb.live root).mpr (Or.inl h.root_live), ?_, ?_, ?_, ?_, ?_, ?_⟩
  · intro d hd m hm
    obtain ⟨hd, hm⟩ := htargets d hd m hm
    exact (hb.live m).mpr (Or.inl (h.target_live d hd m hm))
  · intro d hd m hm
    obtain ⟨hd, hm⟩ := htargets d hd m hm
    exact h.target_ne_root d hd m hm
  · intro d hd m hm
    obtain ⟨hd, hm⟩ := htargets d hd m hm
    rw [hb.parent m (hne d hd m hm)]
    exact h.target_parent d hd m hm
  · intro d hd m hm e
    obtain ⟨hd, hm⟩ := htargets d hd m hm
    exact hne d hd m hm (Option.some.inj e)
  · intro d hd
    by_cases hdn : d = n
    · subst hdn; simp [targets, hb.entries_new]
    · rw [targets_congr (hb.entries d hdn)]
      exact h.targets_nodup d (((hb.live d).mp hd).resolve_right hdn)
  · intro m hm hmroot hmn
    have hmn' : m ≠ n := fun e => hmn (e ▸ rfl)
    obtain ⟨hp, hlisted⟩ :=
      h.listed m (((hb.live m).mp hm).resolve_right hmn') hmroot (by simp)
    have hpn : t.parent m ≠ n := fun e => hn (e ▸ hp)
    rw [hb.parent m hmn']
    exact ⟨(hb.live _).mpr (Or.inl hp), by rw [targets_congr (hb.entries _ hpn)]; exact hlisted⟩

/-- INTERNAL: giving the orphan an entry completes the namespace. -/
theorem WellFormed.linked {name : ν} (h : t.WellFormed root (some n))
    (hl : Linked t t' d name n) (hd : t.live d) (hn : t.live n) (hroot : n ≠ root) :
    t'.WellFormed root none := by
  classical
  have htargets : ∀ c, t'.live c → ∀ m ∈ t'.targets c,
      t.live c ∧ (m ∈ t.targets c ∨ (c = d ∧ m = n)) := by
    intro c hc m hm
    refine ⟨(hl.live c).mp hc, ?_⟩
    by_cases hcd : c = d
    · subst hcd
      rw [hl.targets_dir, List.mem_append, List.mem_singleton] at hm
      exact hm.imp_right fun e => ⟨rfl, e⟩
    · rw [targets_congr (hl.entries c hcd)] at hm
      exact Or.inl hm
  have hne : ∀ c, t.live c → ∀ m ∈ t.targets c, m ≠ n :=
    fun c hc m hm e => h.target_ne_orphan c hc m hm (e ▸ rfl)
  refine ⟨(hl.live root).mpr h.root_live, ?_, ?_, ?_, by simp, ?_, ?_⟩
  · intro c hc m hm
    rw [hl.live]
    obtain ⟨hc, hm | ⟨-, rfl⟩⟩ := htargets c hc m hm
    · exact h.target_live c hc m hm
    · exact hn
  · intro c hc m hm
    obtain ⟨hc, hm | ⟨-, rfl⟩⟩ := htargets c hc m hm
    · exact h.target_ne_root c hc m hm
    · exact hroot
  · intro c hc m hm
    obtain ⟨hc, hm | ⟨rfl, rfl⟩⟩ := htargets c hc m hm
    · rw [hl.parent m (hne c hc m hm)]
      exact h.target_parent c hc m hm
    · exact hl.parent_new
  · intro c hc
    by_cases hcd : c = d
    · subst hcd
      rw [hl.targets_dir, List.nodup_append]
      refine ⟨h.targets_nodup c hd, List.nodup_singleton n, ?_⟩
      intro m hm k hk e
      rw [List.mem_singleton] at hk
      exact hne c hd m hm (e.trans hk)
    · rw [targets_congr (hl.entries c hcd)]
      exact h.targets_nodup c ((hl.live c).mp hc)
  · intro m hm hmroot _
    by_cases hmn : m = n
    · subst hmn
      rw [hl.parent_new, hl.targets_dir]
      exact ⟨(hl.live d).mpr hd, by simp⟩
    · obtain ⟨hp, hlisted⟩ := h.listed m ((hl.live m).mp hm) hmroot (by simpa using hmn)
      rw [hl.parent m hmn]
      refine ⟨(hl.live _).mpr hp, ?_⟩
      by_cases hpd : t.parent m = d
      · rw [hpd] at hlisted ⊢
        rw [hl.targets_dir]
        exact List.mem_append_left _ hlisted
      · rw [targets_congr (hl.entries _ hpd)]
        exact hlisted

/-- INTERNAL: the targets of a node that lost the entry to `n` are the others. -/
theorem Unlinked.mem_targets (hu : Unlinked t t' d n) (hnodup : (t.targets d).Nodup) (c m : ι) :
    m ∈ t'.targets c ↔ m ∈ t.targets c ∧ ¬ (c = d ∧ m = n) := by
  by_cases hcd : c = d
  · subst hcd
    obtain ⟨name, l₁, l₂, he, he'⟩ := hu.entries_dir
    have hT : t.targets c = l₁.map Prod.snd ++ n :: l₂.map Prod.snd := by
      simp [targets, he]
    have hT' : t'.targets c = l₁.map Prod.snd ++ l₂.map Prod.snd := by simp [targets, he']
    rw [hT] at hnodup
    have hnot : n ∉ l₁.map Prod.snd ++ l₂.map Prod.snd :=
      (List.nodup_cons.mp (List.nodup_middle.mp hnodup)).1
    rw [hT, hT']
    constructor
    · intro hm
      refine ⟨?_, fun h => hnot (h.2 ▸ hm)⟩
      rcases List.mem_append.mp hm with hm | hm
      · exact List.mem_append_left _ hm
      · exact List.mem_append_right _ (List.mem_cons_of_mem _ hm)
    · rintro ⟨hm, hne⟩
      have hmn : m ≠ n := fun e => hne ⟨rfl, e⟩
      rcases List.mem_append.mp hm with hm | hm
      · exact List.mem_append_left _ hm
      · exact List.mem_append_right _ ((List.mem_cons.mp hm).resolve_left hmn)
  · rw [targets_congr (hu.entries c hcd)]
    simp [hcd]

/-- INTERNAL: taking the entry of `n` away makes `n` the orphan. -/
theorem WellFormed.unlinked (h : t.WellFormed root none) (hu : Unlinked t t' d n)
    (hd : t.live d) : t'.WellFormed root (some n) := by
  have hmem := hu.mem_targets (h.targets_nodup d hd)
  obtain ⟨name, l₁, l₂, he, he'⟩ := hu.entries_dir
  have hn : n ∈ t.targets d := by simp [targets, he]
  have hne : ∀ c, t.live c → ∀ m ∈ t'.targets c, m ≠ n := by
    rintro c hc m hm rfl
    obtain ⟨hm, hnot⟩ := (hmem c m).mp hm
    exact hnot ⟨by rw [← h.target_parent c hc m hm, h.target_parent d hd m hn], rfl⟩
  refine ⟨(hu.live root).mpr h.root_live, ?_, ?_, ?_, ?_, ?_, ?_⟩
  · intro c hc m hm
    rw [hu.live] at hc ⊢
    exact h.target_live c hc m ((hmem c m).mp hm).1
  · intro c hc m hm
    exact h.target_ne_root c ((hu.live c).mp hc) m ((hmem c m).mp hm).1
  · intro c hc m hm
    rw [hu.live] at hc
    rw [hu.parent m (hne c hc m hm)]
    exact h.target_parent c hc m ((hmem c m).mp hm).1
  · intro c hc m hm e
    exact hne c ((hu.live c).mp hc) m hm (Option.some.inj e)
  · intro c hc
    rw [hu.live] at hc
    by_cases hcd : c = d
    · subst hcd
      have hnodup := h.targets_nodup c hc
      simp only [targets, he, List.map_append, List.map_cons] at hnodup
      simp only [targets, he', List.map_append]
      exact (List.nodup_cons.mp (List.nodup_middle.mp hnodup)).2
    · rw [targets_congr (hu.entries c hcd)]
      exact h.targets_nodup c hc
  · intro m hm hmroot hmn
    have hmn' : m ≠ n := fun e => hmn (e ▸ rfl)
    obtain ⟨hp, hlisted⟩ := h.listed m ((hu.live m).mp hm) hmroot (by simp)
    rw [hu.parent m hmn']
    exact ⟨(hu.live _).mpr hp, (hmem _ m).mpr ⟨hlisted, fun e => hmn' e.2⟩⟩

/-- INTERNAL: removing the orphan completes the namespace, if it lists nothing. -/
theorem WellFormed.dead (h : t.WellFormed root (some n)) (hk : Dead t t' n)
    (hroot : n ≠ root) (hempty : t.entries n = []) : t'.WellFormed root none := by
  have hne : ∀ c, t.live c → ∀ m ∈ t.targets c, m ≠ n :=
    fun c hc m hm e => h.target_ne_orphan c hc m hm (e ▸ rfl)
  have htargets : ∀ c, t'.live c → t.live c ∧ t'.targets c = t.targets c := by
    intro c hc
    obtain ⟨hc, hcn⟩ := (hk.live c).mp hc
    exact ⟨hc, targets_congr (hk.entries c hcn)⟩
  refine ⟨(hk.live root).mpr ⟨h.root_live, Ne.symm hroot⟩, ?_, ?_, ?_, by simp, ?_, ?_⟩
  · intro c hc m hm
    obtain ⟨hc, he⟩ := htargets c hc
    rw [he] at hm
    exact (hk.live m).mpr ⟨h.target_live c hc m hm, hne c hc m hm⟩
  · intro c hc m hm
    obtain ⟨hc, he⟩ := htargets c hc
    exact h.target_ne_root c hc m (he ▸ hm)
  · intro c hc m hm
    obtain ⟨hc, he⟩ := htargets c hc
    rw [he] at hm
    rw [hk.parent m (hne c hc m hm)]
    exact h.target_parent c hc m hm
  · intro c hc
    obtain ⟨hc, he⟩ := htargets c hc
    rw [he]
    exact h.targets_nodup c hc
  · intro m hm hmroot _
    obtain ⟨hm, hmn⟩ := (hk.live m).mp hm
    obtain ⟨hp, hlisted⟩ := h.listed m hm hmroot (by simpa using hmn)
    have hpn : t.parent m ≠ n := by
      intro e
      rw [e] at hlisted
      simp [targets, hempty] at hlisted
    rw [hk.parent m hmn]
    exact ⟨(hk.live _).mpr ⟨hp, hpn⟩, by rw [targets_congr (hk.entries _ hpn)]; exact hlisted⟩

/-! ## What creations and removals preserve besides -/

/-- INTERNAL: an entry with a new name keeps the names distinct. -/
theorem DistinctNames.linked {name : ν} (h : t.DistinctNames) (hl : Linked t t' d name n)
    (hd : t.live d) (hnew : ∀ e ∈ t.entries d, e.1 ≠ name) : t'.DistinctNames := by
  classical
  intro c hc
  rw [hl.live] at hc
  by_cases hcd : c = d
  · subst hcd
    rw [hl.entries_dir, List.map_append, List.nodup_append]
    refine ⟨h c hd, List.nodup_singleton _, ?_⟩
    intro a ha b hb e
    obtain ⟨x, hx, rfl⟩ := List.mem_map.mp ha
    simp only [List.map_cons, List.map_nil, List.mem_singleton] at hb
    exact hnew x hx (e.trans hb)
  · rw [hl.entries c hcd]
    exact h c hc

theorem DistinctNames.born (h : t.DistinctNames) (hb : Born t t' n) : t'.DistinctNames := by
  classical
  intro c hc
  by_cases hcn : c = n
  · subst hcn; simp [hb.entries_new]
  · rw [hb.entries c hcn]
    exact h c (((hb.live c).mp hc).resolve_right hcn)

theorem DistinctNames.unlinked (h : t.DistinctNames) (hu : Unlinked t t' d n) :
    t'.DistinctNames := by
  classical
  intro c hc
  rw [hu.live] at hc
  by_cases hcd : c = d
  · subst hcd
    obtain ⟨name, l₁, l₂, he, he'⟩ := hu.entries_dir
    have hnodup := h c hc
    simp only [he, List.map_append, List.map_cons] at hnodup
    rw [he', List.map_append]
    exact (List.nodup_cons.mp (List.nodup_middle.mp hnodup)).2
  · rw [hu.entries c hcd]
    exact h c hc

theorem DistinctNames.dead (h : t.DistinctNames) (hk : Dead t t' n) : t'.DistinctNames := by
  intro c hc
  obtain ⟨hc, hcn⟩ := (hk.live c).mp hc
  rw [hk.entries c hcn]
  exact h c hc

/-- INTERNAL: **a created node is reachable**, and so is everything that was.  The chain
from the root is kept entry by entry. -/
theorem Rooted.created {t₁ : Namespace ι ν} {name : ν} (h : t.Rooted root)
    (hb : Born t t₁ n) (hl : Linked t₁ t' d name n) (hd : t.live d) (hn : ¬ t.live n) :
    t'.Rooted root := by
  classical
  have hchild : ∀ c m, t.Child c m → t'.Child c m := by
    rintro c m ⟨hc, hm⟩
    have hcn : c ≠ n := fun e => hn (e ▸ hc)
    refine ⟨(hl.live c).mpr ((hb.live c).mpr (Or.inl hc)), ?_⟩
    rw [← targets_congr (hb.entries c hcn)] at hm
    by_cases hcd : c = d
    · subst hcd
      rw [hl.targets_dir]
      exact List.mem_append_left _ hm
    · rw [targets_congr (hl.entries c hcd)]
      exact hm
  have hold : ∀ m, t.live m → Relation.ReflTransGen t'.Child root m :=
    fun m hm => Relation.ReflTransGen.mono hchild _ _ (h m hm)
  intro m hm
  rcases (hb.live m).mp ((hl.live m).mp hm) with hm | rfl
  · exact hold m hm
  · refine (hold d hd).tail ⟨(hl.live d).mpr ((hb.live d).mpr (Or.inl hd)), ?_⟩
    rw [hl.targets_dir]
    simp

/-- INTERNAL: **the others stay reachable** when a node without entries is removed: no
chain from the root to another node passes through it. -/
theorem Rooted.removed {t₁ : Namespace ι ν} (h : t.Rooted root) (hwf : t.WellFormed root none)
    (hu : Unlinked t t₁ d n) (hk : Dead t₁ t' n) (hd : t.live d)
    (hempty : t.entries n = []) : t'.Rooted root := by
  have hmem := hu.mem_targets (hwf.targets_nodup d hd)
  have hreach : ∀ m, Relation.ReflTransGen t.Child root m → m ≠ n →
      Relation.ReflTransGen t'.Child root m := by
    intro m hm
    induction hm with
    | refl => exact fun _ => Relation.ReflTransGen.refl
    | tail _ hbc ih =>
      rename_i b c _
      intro hcn
      have hbn : b ≠ n := by
        rintro rfl
        have := hbc.2
        simp [targets, hempty] at this
      refine (ih hbn).tail ⟨(hk.live b).mpr ⟨(hu.live b).mpr hbc.1, hbn⟩, ?_⟩
      rw [targets_congr (hk.entries b hbn)]
      exact (hmem b c).mpr ⟨hbc.2, fun e => hcn e.2⟩
  intro m hm
  obtain ⟨hm, hmn⟩ := (hk.live m).mp hm
  exact hreach m (h m ((hu.live m).mp hm)) hmn

/-- INTERNAL: **no cycles**.  The last entry of a cycle through a node comes from its
parent, so a cycle through a reachable node gives one through its parent, and in the end
one through the root, which nothing lists. -/
theorem WellFormed.not_below_self (h : t.WellFormed root none) {m : ι}
    (hm : Relation.ReflTransGen t.Child root m) : ¬ Relation.TransGen t.Child m m := by
  induction hm with
  | refl =>
    intro hcycle
    obtain ⟨c, -, hc⟩ := Relation.TransGen.tail'_iff.mp hcycle
    exact h.target_ne_root c hc.1 root hc.2 rfl
  | tail _ hbc ih =>
    rename_i b c _
    intro hcycle
    obtain ⟨x, hcx, hxc⟩ := Relation.TransGen.tail'_iff.mp hcycle
    have hxb : x = b := by
      rw [← h.target_parent x hxc.1 c hxc.2, h.target_parent b hbc.1 c hbc.2]
    subst hxb
    exact ih (Relation.TransGen.head' hbc hcx)

variable [DecidableEq ν]

/-- INTERNAL: a walk goes from node to entry. -/
theorem WellFormed.walk_child (h : t.WellFormed root orphan) (hd : t.live d) {names : List ν}
    (hw : t.walk d names = some n) : Relation.ReflTransGen t.Child d n := by
  induction names generalizing d with
  | nil => cases hw; exact Relation.ReflTransGen.refl
  | cons name names ih =>
    simp only [walk] at hw
    cases hl : t.lookup d name with
    | none => rw [hl] at hw; cases hw
    | some m =>
      rw [hl] at hw
      have hchild : t.Child d m := ⟨hd, mem_targets_of_lookup hl⟩
      exact (ih (h.target_live d hd m hchild.2) hw).head hchild

/-- INTERNAL: the way on from a reachable node does not lead back to it. -/
theorem WellFormed.walk_ne_self (h : t.WellFormed root none)
    (hd : Relation.ReflTransGen t.Child root d) (hlive : t.live d) (name : ν) (names : List ν) :
    t.walk d (name :: names) ≠ some d := by
  intro hw
  simp only [walk] at hw
  cases hl : t.lookup d name with
  | none => rw [hl] at hw; cases hw
  | some m =>
    rw [hl] at hw
    have hchild : t.Child d m := ⟨hlive, mem_targets_of_lookup hl⟩
    have hback := h.walk_child (h.target_live d hlive m hchild.2) hw
    exact h.not_below_self hd (Relation.TransGen.head' hchild hback)

end Namespace

end LinuseFs.Computation
