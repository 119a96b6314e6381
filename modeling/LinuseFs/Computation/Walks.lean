import LinuseFs.Computation.Namespace

/-!
# Walks before and after a change

How each change of a namespace changes what a name leads to in a node, and from this what a
path from the root leads to.  Two paths to one node are equal, since the node records the one
that lists it and is listed there once; so a change to one entry is seen by the paths through
that entry only.
-/

set_option autoImplicit false

namespace LinuseFs.Computation

namespace Namespace

variable {ι ν : Type} [DecidableEq ν]
variable {t t' : Namespace ι ν} {root d m n : ι} {orphan : Option ι} {name x : ν}
  {front ps : List ν}

theorem walk_concat (names : List ν) (name : ν) :
    t.walk d (names ++ [name]) = (t.walk d names).bind fun m => t.lookup m name := by
  rw [walk_append]
  simp only [walk_singleton]

theorem lookup_congr (h : t'.entries m = t.entries m) : t'.lookup m x = t.lookup m x := by
  simp only [lookup, h]

/-- INTERNAL: a node is under one name, and in one node. -/
theorem WellFormed.lookup_unique (h : t.WellFormed root orphan) {d' : ι} {name' : ν}
    (hd : t.live d) (hd' : t.live d') (hl : t.lookup d name = some n)
    (hl' : t.lookup d' name' = some n) : d = d' ∧ name = name' := by
  have hmem := mem_targets_of_lookup hl
  have hmem' := mem_targets_of_lookup hl'
  have hdd : d = d' := by
    rw [← h.target_parent d hd n hmem, ← h.target_parent d' hd' n hmem']
  subst hdd
  have heq : (name, n) = (name', n) :=
    List.inj_on_of_nodup_map (h.targets_nodup d hd) (lookup_eq_some hl) (lookup_eq_some hl') rfl
  exact ⟨rfl, congrArg Prod.fst heq⟩

/-- INTERNAL: **two paths to one node are equal**, by induction on their ends. -/
theorem WellFormed.walk_unique (h : t.WellFormed root orphan) {qs : List ν}
    (hp : t.walk root ps = some n) (hq : t.walk root qs = some n) : ps = qs := by
  have hne : ∀ rs x, t.walk root (rs ++ [x]) ≠ some root := by
    intro rs x hw
    rw [walk_concat, Option.bind_eq_some_iff] at hw
    obtain ⟨c, hc, hl⟩ := hw
    exact h.target_ne_root c (h.walk_live h.root_live hc) _ (mem_targets_of_lookup hl) rfl
  induction ps using List.reverseRecOn generalizing qs n with
  | nil =>
    cases hp
    rcases List.eq_nil_or_concat' qs with rfl | ⟨rs, x, rfl⟩
    · rfl
    · exact absurd hq (hne rs x)
  | append_singleton ps y ih =>
    rcases List.eq_nil_or_concat' qs with rfl | ⟨rs, x, rfl⟩
    · cases hq
      exact absurd hp (hne ps y)
    · rw [walk_concat, Option.bind_eq_some_iff] at hp hq
      obtain ⟨c, hc, hl⟩ := hp
      obtain ⟨c', hc', hl'⟩ := hq
      obtain ⟨rfl, rfl⟩ := h.lookup_unique (h.walk_live h.root_live hc)
        (h.walk_live h.root_live hc') hl hl'
      rw [ih hc hc']

/-! ## What a name leads to -/

theorem Born.lookup (hb : Born t t' n) (hm : m ≠ n) : t'.lookup m x = t.lookup m x :=
  lookup_congr (hb.entries m hm)

theorem Born.lookup_new (hb : Born t t' n) : t'.lookup n x = none := by
  rw [lookup_eq_none_iff, hb.entries_new]
  simp

theorem Dead.lookup (hk : Dead t t' n) (hm : m ≠ n) : t'.lookup m x = t.lookup m x :=
  lookup_congr (hk.entries m hm)

variable [DecidableEq ι]

/-- INTERNAL: an entry at the end is found when no earlier one has the name. -/
theorem Linked.lookup (hl : Linked t t' d name n) (m : ι) (x : ν) :
    t'.lookup m x = if m = d ∧ x = name then (t.lookup d name).or (some n) else t.lookup m x := by
  by_cases hm : m = d
  · subst hm
    simp only [Namespace.lookup, hl.entries_dir, List.find?_append, true_and]
    by_cases hx : x = name
    · subst hx
      rw [if_pos rfl]
      cases (t.entries m).find? fun e => decide (e.1 = x) <;> simp
    · rw [if_neg hx]
      have hnot : [(name, n)].find? (fun e => decide (e.1 = x)) = none := by simp [Ne.symm hx]
      rw [hnot, Option.or_none]
  · rw [if_neg fun h => hm h.1]
    exact lookup_congr (hl.entries m hm)

/-- INTERNAL: the name of an entry that was taken away leads nowhere. -/
theorem Unlinked.lookup (hu : Unlinked t t' d n) (hwf : t.WellFormed root orphan)
    (hnames : t.DistinctNames) (hd : t.live d) (hl : t.lookup d name = some n) (m : ι) (x : ν) :
    t'.lookup m x = if m = d ∧ x = name then none else t.lookup m x := by
  by_cases hm : m = d
  · subst hm
    obtain ⟨name', l₁, l₂, he, he'⟩ := hu.entries_dir
    have heq : (name, n) = (name', n) := by
      have hmem : (name', n) ∈ t.entries m := by simp [he]
      exact List.inj_on_of_nodup_map (hwf.targets_nodup m hd) (lookup_eq_some hl) hmem rfl
    obtain rfl : name = name' := congrArg Prod.fst heq
    have hnot : ∀ e ∈ l₁ ++ l₂, e.1 ≠ name := by
      have hnodup := hnames m hd
      simp only [he, List.map_append, List.map_cons] at hnodup
      have hnotin := (List.nodup_cons.mp (List.nodup_middle.mp hnodup)).1
      rintro e hmem rfl
      rw [← List.map_append] at hnotin
      exact hnotin (List.mem_map_of_mem hmem)
    by_cases hx : x = name
    · subst hx
      rw [if_pos ⟨rfl, rfl⟩, lookup_eq_none_iff, he']
      exact hnot
    · rw [if_neg fun h => hx h.2]
      have hskip : (decide (name = x)) = false := decide_eq_false (Ne.symm hx)
      simp only [Namespace.lookup, he, he', List.find?_append, List.find?_cons, hskip]
  · rw [if_neg fun h => hm h.1]
    exact lookup_congr (hu.entries m hm)

omit [DecidableEq ι] in
/-- INTERNAL: **the frame rule for walks**: a path leads where it did when each of its names
does, looked up where the path arrives. -/
theorem walk_congr (h : ∀ qs m x, qs ++ [x] <+: ps → t.walk d qs = some m →
    t'.lookup m x = t.lookup m x) : t'.walk d ps = t.walk d ps := by
  induction ps using List.reverseRecOn with
  | nil => rfl
  | append_singleton qs x ih =>
    rw [walk_concat, walk_concat, ih fun rs m y hrs => h rs m y (hrs.trans (List.prefix_append _ _))]
    cases hw : t.walk d qs with
    | none => rfl
    | some m => exact h qs m x (List.prefix_refl _) hw

/-! ## What a path leads to -/

omit [DecidableEq ι] [DecidableEq ν] in
theorem not_concat_below (l : List ν) (x : ν) : ¬ l ++ [x] <+: l := by
  intro h
  have := h.length_le
  simp only [List.length_append, List.length_singleton] at this
  omega

section Created

variable {t₁ : Namespace ι ν}

/-- INTERNAL: **a creation is seen by its own path only.** -/
theorem walk_created (hwf : t.WellFormed root none) (hb : Born t t₁ n)
    (hl : Linked t₁ t' d name n) (hn : ¬ t.live n) (hd : t.live d)
    (hfront : t.walk root front = some d) (hnew : t.lookup d name = none) (ps : List ν) :
    t'.walk root ps = if ps = front ++ [name] then some n else t.walk root ps := by
  have hdn : d ≠ n := fun e => hn (e ▸ hd)
  have hlookup : ∀ m x, t.live m →
      t'.lookup m x = if m = d ∧ x = name then some n else t.lookup m x := by
    intro m x hm
    have hmn : m ≠ n := fun e => hn (e ▸ hm)
    rw [hl.lookup, hb.lookup hdn, hb.lookup hmn, hnew, Option.none_or]
  have hbelow : ∀ x, t'.lookup n x = none := by
    intro x
    rw [hl.lookup, if_neg fun h => hdn h.1.symm, hb.lookup_new]
  induction ps using List.reverseRecOn with
  | nil => simp
  | append_singleton qs x ih =>
    rw [walk_concat, ih]
    by_cases hqs : qs = front ++ [name]
    · rw [if_pos hqs, Option.bind_some, hbelow, if_neg (by simp [hqs]), walk_concat, hqs, walk_concat,
        hfront, Option.bind_some, hnew, Option.bind_none]
    · rw [if_neg hqs, walk_concat]
      cases hw : t.walk root qs with
      | none =>
        have hne : qs ++ [x] ≠ front ++ [name] := by
          intro e
          obtain ⟨rfl, -⟩ := List.append_inj' e rfl
          rw [hw] at hfront
          cases hfront
        rw [if_neg hne]
        rfl
      | some m =>
        rw [Option.bind_some, Option.bind_some, hlookup m x (hwf.walk_live hwf.root_live hw)]
        by_cases hx : m = d ∧ x = name
        · obtain ⟨rfl, rfl⟩ := hx
          rw [if_pos ⟨rfl, rfl⟩, if_pos (by rw [hwf.walk_unique hw hfront])]
        · rw [if_neg hx, if_neg]
          intro e
          obtain ⟨rfl, hname⟩ := List.append_inj' e rfl
          rw [hfront] at hw
          exact hx ⟨(Option.some.inj hw).symm, List.singleton_inj.mp hname⟩

end Created

section Removed

variable {t₁ : Namespace ι ν}

/-- INTERNAL: **a removal is seen by the paths through its own only.** -/
theorem walk_removed (hwf : t.WellFormed root none) (hnames : t.DistinctNames)
    (hu : Unlinked t t₁ d n) (hk : Dead t₁ t' n) (hd : t.live d)
    (hfront : t.walk root front = some d) (hl : t.lookup d name = some n) (ps : List ν) :
    t'.walk root ps = if front ++ [name] <+: ps then none else t.walk root ps := by
  have hpath : t.walk root (front ++ [name]) = some n := by
    rw [walk_concat, hfront, Option.bind_some, hl]
  have hframe : ∀ qs, ¬ front ++ [name] <+: qs → t'.walk root qs = t.walk root qs := by
    intro qs hqs
    apply walk_congr
    intro rs m x hrs hw
    have hmn : m ≠ n := by
      rintro rfl
      rw [hwf.walk_unique hw hpath] at hrs
      exact hqs ((List.prefix_append _ _).trans hrs)
    rw [hk.lookup hmn, hu.lookup hwf hnames hd hl, if_neg]
    rintro ⟨rfl, rfl⟩
    rw [hwf.walk_unique hw hfront] at hrs
    exact hqs hrs
  by_cases hps : front ++ [name] <+: ps
  · rw [if_pos hps]
    obtain ⟨rs, rfl⟩ := hps
    have hdn : d ≠ n := by
      rintro rfl
      have := hwf.walk_unique hpath hfront
      simp at this
    rw [walk_append, walk_concat, hframe front (not_concat_below front name), hfront, Option.bind_some,
      hk.lookup hdn, hu.lookup hwf hnames hd hl, if_pos ⟨rfl, rfl⟩, Option.bind_none]
  · rw [if_neg hps, hframe ps hps]

end Removed

section Moved

variable {t₁ : Namespace ι ν} {d' : ι} {name' : ν} {front' : List ν}

/-- INTERNAL: what a name leads to after a move. -/
theorem lookup_moved (hwf : t.WellFormed root none) (hnames : t.DistinctNames)
    (hu : Unlinked t t₁ d n) (hl : Linked t₁ t' d' name' n) (hd : t.live d)
    (hlookup : t.lookup d name = some n) (hne : ¬ (d' = d ∧ name' = name)) (m : ι) (x : ν) :
    t'.lookup m x =
      if m = d' ∧ x = name' then (t.lookup d' name').or (some n)
      else if m = d ∧ x = name then none else t.lookup m x := by
  rw [hl.lookup, hu.lookup hwf hnames hd hlookup, hu.lookup hwf hnames hd hlookup, if_neg hne]

/-- INTERNAL: **a move is seen by the paths through the old and the new place only.** -/
theorem walk_moved (hwf : t.WellFormed root none) (hnames : t.DistinctNames)
    (hu : Unlinked t t₁ d n) (hl : Linked t₁ t' d' name' n) (hd : t.live d)
    (hfront : t.walk root front = some d) (hfront' : t.walk root front' = some d')
    (hlookup : t.lookup d name = some n) (hne : ¬ (d' = d ∧ name' = name))
    (hold : ¬ front ++ [name] <+: ps) (hnew : ¬ front' ++ [name'] <+: ps) :
    t'.walk root ps = t.walk root ps := by
  apply walk_congr
  intro qs m x hqs hw
  rw [lookup_moved hwf hnames hu hl hd hlookup hne, if_neg, if_neg]
  · rintro ⟨rfl, rfl⟩
    rw [hwf.walk_unique hw hfront] at hqs
    exact hold hqs
  · rintro ⟨rfl, rfl⟩
    rw [hwf.walk_unique hw hfront'] at hqs
    exact hnew hqs

/-- INTERNAL: **the new place leads to the node, unless something was there**, when it is not
below the old one. -/
theorem walk_moved_new (hwf : t.WellFormed root none) (hnames : t.DistinctNames)
    (hu : Unlinked t t₁ d n) (hl : Linked t₁ t' d' name' n) (hd : t.live d)
    (hfront : t.walk root front = some d) (hfront' : t.walk root front' = some d')
    (hlookup : t.lookup d name = some n) (hbelow : ¬ front ++ [name] <+: front' ++ [name']) :
    t'.walk root (front' ++ [name']) = (t.lookup d' name').or (some n) := by
  have hne : ¬ (d' = d ∧ name' = name) := by
    rintro ⟨rfl, rfl⟩
    rw [hwf.walk_unique hfront hfront'] at hbelow
    exact hbelow (List.prefix_refl _)
  rw [walk_concat, walk_moved hwf hnames hu hl hd hfront hfront' hlookup hne
    (fun h => hbelow (h.trans (List.prefix_append _ _))) (not_concat_below front' name'),
    hfront', Option.bind_some, lookup_moved hwf hnames hu hl hd hlookup hne, if_pos ⟨rfl, rfl⟩]

/-- INTERNAL: **the old place leads nowhere**, when nothing was at the new one. -/
theorem walk_moved_old (hwf : t.WellFormed root none) (hnames : t.DistinctNames)
    (hu : Unlinked t t₁ d n) (hl : Linked t₁ t' d' name' n) (hd : t.live d)
    (hfront : t.walk root front = some d) (hfront' : t.walk root front' = some d')
    (hlookup : t.lookup d name = some n) (hbelow : ¬ front ++ [name] <+: front' ++ [name'])
    (hfree : t.lookup d' name' = none) : t'.walk root (front ++ [name]) = none := by
  have hne : ¬ (d' = d ∧ name' = name) := by
    rintro ⟨rfl, rfl⟩
    rw [hfree] at hlookup
    cases hlookup
  have hnew : ¬ front' ++ [name'] <+: front := by
    rintro ⟨rs, rfl⟩
    rw [walk_append, walk_concat, hfront', Option.bind_some, hfree] at hfront
    cases hfront
  rw [walk_concat, walk_moved hwf hnames hu hl hd hfront hfront' hlookup hne
    (not_concat_below front name) hnew, hfront, Option.bind_some,
    lookup_moved hwf hnames hu hl hd hlookup hne, if_neg fun h => hne ⟨h.1.symm, h.2.symm⟩,
    if_pos ⟨rfl, rfl⟩]

/-- INTERNAL: **below the new place is what was below the old one**, when nothing was at the new
one. -/
theorem walk_moved_below (hwf : t.WellFormed root none) (hnames : t.DistinctNames)
    (hu : Unlinked t t₁ d n) (hl : Linked t₁ t' d' name' n) (hd : t.live d)
    (hfront : t.walk root front = some d) (hfront' : t.walk root front' = some d')
    (hlookup : t.lookup d name = some n) (hbelow : ¬ front ++ [name] <+: front' ++ [name'])
    (hfree : t.lookup d' name' = none) (rs : List ν) :
    t'.walk root (front' ++ [name'] ++ rs) = t.walk root (front ++ [name] ++ rs) := by
  have hne : ¬ (d' = d ∧ name' = name) := by
    rintro ⟨rfl, rfl⟩
    rw [hfree] at hlookup
    cases hlookup
  have hpath : t.walk root (front ++ [name]) = some n := by
    rw [walk_concat, hfront, Option.bind_some, hlookup]
  rw [walk_append, walk_moved_new hwf hnames hu hl hd hfront hfront' hlookup hbelow, hfree,
    Option.none_or, Option.bind_some, walk_append, hpath, Option.bind_some]
  apply walk_congr
  intro qs m x _ hw
  have hwalk : t.walk root (front ++ [name] ++ qs) = some m := by
    rw [walk_append, hpath, Option.bind_some, hw]
  rw [lookup_moved hwf hnames hu hl hd hlookup hne, if_neg, if_neg]
  · rintro ⟨rfl, -⟩
    have heq := hwf.walk_unique hwalk hfront
    exact not_concat_below front name ⟨qs, heq⟩
  · rintro ⟨rfl, -⟩
    have heq := hwf.walk_unique hwalk hfront'
    exact hbelow ((List.prefix_append _ qs).trans (heq ▸ List.prefix_append _ _))

/-- INTERNAL: **what a move does to all paths**, when nothing was at the new place. -/
theorem walk_moved_all (hwf : t.WellFormed root none) (hnames : t.DistinctNames)
    (hu : Unlinked t t₁ d n) (hl : Linked t₁ t' d' name' n) (hd : t.live d)
    (hfront : t.walk root front = some d) (hfront' : t.walk root front' = some d')
    (hlookup : t.lookup d name = some n) (hbelow : ¬ front ++ [name] <+: front' ++ [name'])
    (hfree : t.lookup d' name' = none) (qs : List ν) :
    t'.walk root qs =
      if front' ++ [name'] <+: qs then
        t.walk root (front ++ [name] ++ qs.drop (front' ++ [name']).length)
      else if front ++ [name] <+: qs then none else t.walk root qs := by
  have hne : ¬ (d' = d ∧ name' = name) := by
    rintro ⟨rfl, rfl⟩
    rw [hfree] at hlookup
    cases hlookup
  by_cases hnew : front' ++ [name'] <+: qs
  · rw [if_pos hnew]
    obtain ⟨rs, rfl⟩ := hnew
    rw [List.drop_left,
      walk_moved_below hwf hnames hu hl hd hfront hfront' hlookup hbelow hfree]
  · rw [if_neg hnew]
    by_cases hold : front ++ [name] <+: qs
    · rw [if_pos hold]
      obtain ⟨rs, rfl⟩ := hold
      rw [walk_append, walk_moved_old hwf hnames hu hl hd hfront hfront' hlookup hbelow hfree,
        Option.bind_none]
    · rw [if_neg hold, walk_moved hwf hnames hu hl hd hfront hfront' hlookup hne hold hnew]

end Moved

end Namespace

end LinuseFs.Computation
