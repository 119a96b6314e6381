import LinuseFs.Computation.ByteFile
import Mathlib.Data.List.Infix
import Mathlib.Logic.Function.Basic

/-!
# File trees

What a file system is for: each path leads to a numbered object, a directory or a file with its
contents, or nowhere.  A `FileTree` carries the proofs that its root is a directory, that only
directories have something below them and that a number is found under one path.  Its changes
(`insert`, `overwrite`, `erase`, `move`) keep this, and `Step` says which calls make which of them
and how they are answered.

A file system is free in three ways (`Policy`): to which length it cuts a file that is to become
shorter, and with which values it fills a gap and the end of a file that becomes longer.
-/

set_option autoImplicit false

namespace LinuseFs.Computation

/-- A directory, or a file with its contents. -/
inductive Object (β : Type)
  | dir
  | file (contents : List β)

/-- The object with other contents, when it is a file. -/
def Object.withContents {β : Type} (c : List β) : Object β → Object β
  | .dir => .dir
  | .file _ => .file c

/-- What each path leads to. -/
@[ext]
structure FileTree (ι ν β : Type) where
  node : List ν → Option (ι × Object β)
  root : ∃ n, node [] = some (n, .dir)
  parent : ∀ ps x, node (ps ++ [x]) ≠ none → ∃ n, node ps = some (n, .dir)
  unique : ∀ ps qs n o o', node ps = some (n, o) → node qs = some (n, o') → ps = qs

namespace FileTree

variable {ι ν β : Type} {t : FileTree ι ν β} {ps qs rs front : List ν} {n : ι} {o : Object β}

/-- The path leads to a directory. -/
def IsDir (t : FileTree ι ν β) (ps : List ν) : Prop := ∃ n, t.node ps = some (n, .dir)

/-- The path leads to a file. -/
def IsFile (t : FileTree ι ν β) (ps : List ν) : Prop := ∃ n c, t.node ps = some (n, .file c)

/-- The path is that of the root or its last name would be one in a directory. -/
def HasParent (t : FileTree ι ν β) (ps : List ν) : Prop :=
  ∃ front x, ps = front ++ [x] ∧ t.IsDir front

/-- No path on the way leads to a file. -/
def PassesNoFile (t : FileTree ι ν β) (ps : List ν) : Prop :=
  ∀ qs, qs <+: ps → qs ≠ ps → ¬ t.IsFile qs

/-- The names in the directory, each once. -/
structure Lists (t : FileTree ι ν β) (ps l : List ν) : Prop where
  dir : t.IsDir ps
  nodup : l.Nodup
  mem_iff : ∀ x, x ∈ l ↔ t.node (ps ++ [x]) ≠ none

/-- The path can be given an object with the number. -/
structure Vacant (t : FileTree ι ν β) (ps : List ν) (n : ι) : Prop where
  free : t.node ps = none
  parent : t.HasParent ps
  unused : ∀ qs o, t.node qs ≠ some (n, o)

/-- What the first path leads to can be moved to the second one. -/
structure Movable (t : FileTree ι ν β) (ps qs : List ν) : Prop where
  found : t.node ps ≠ none
  free : t.node qs = none
  parent : t.HasParent qs
  apart : ¬ ps <+: qs

/-- The tree of a directory with nothing in it. -/
def empty [DecidableEq ν] (n : ι) : FileTree ι ν β where
  node ps := if ps = [] then some (n, .dir) else none
  root := ⟨n, if_pos rfl⟩
  parent := by
    intro ps x hne
    rw [if_neg (by simp)] at hne
    exact absurd rfl hne
  unique := by
    intro ps qs m o o' hps hqs
    split at hps
    next h₁ =>
      split at hqs
      next h₂ => rw [h₁, h₂]
      next => cases hqs
    next => cases hps

theorem ne_nil_of_free (h : t.node ps = none) : ps ≠ [] := by
  rintro rfl
  obtain ⟨n, hn⟩ := t.root
  rw [hn] at h
  cases h

/-- INTERNAL: what is below a path that leads nowhere leads nowhere. -/
theorem node_below (h : t.node ps = none) (hqs : ps <+: qs) : t.node qs = none := by
  obtain ⟨rs, rfl⟩ := hqs
  induction rs using List.reverseRecOn with
  | nil => rwa [List.append_nil]
  | append_singleton rs x ih =>
    by_contra hne
    rw [← List.append_assoc] at hne
    obtain ⟨n, hn⟩ := t.parent _ _ hne
    rw [ih] at hn
    cases hn

/-- INTERNAL: nothing is below a file. -/
theorem node_below_file {c : List β} (h : t.node ps = some (n, .file c)) (hqs : ps <+: qs)
    (hne : qs ≠ ps) : t.node qs = none := by
  obtain ⟨rs, rfl⟩ := hqs
  cases rs with
  | nil => exact absurd (List.append_nil ps) hne
  | cons x rs =>
    have hx : t.node (ps ++ [x]) = none := by
      by_contra hx
      obtain ⟨m, hm⟩ := t.parent _ _ hx
      rw [h] at hm
      cases hm
    exact node_below hx ⟨rs, by rw [List.append_assoc, List.singleton_append]⟩

/-- INTERNAL: where there is something below, a proper path passes directories only. -/
theorem passesNoFile_of_found (h : t.node ps ≠ none) : t.PassesNoFile ps := by
  rintro qs hqs hne ⟨n, c, hn⟩
  exact h (node_below_file hn hqs (Ne.symm hne))

theorem passesNoFile_of_parent (h : t.HasParent ps) : t.PassesNoFile ps := by
  obtain ⟨front, x, rfl, n, hn⟩ := h
  intro qs hqs hne
  rcases List.prefix_concat_iff.mp hqs with rfl | hqs
  · exact absurd rfl hne
  rintro ⟨m, c, hm⟩
  by_cases heq : front = qs
  · rw [heq, hm] at hn
    cases hn
  · rw [node_below_file hm hqs heq] at hn
    cases hn

/-! ## The changes -/

section Changes

variable [DecidableEq ν]

/-- The tree with a new object. -/
def insert (t : FileTree ι ν β) (ps : List ν) (n : ι) (o : Object β) (h : t.Vacant ps n) :
    FileTree ι ν β where
  node := Function.update t.node ps (some (n, o))
  root := by
    rw [Function.update_of_ne (ne_nil_of_free h.free).symm]
    exact t.root
  parent := by
    intro qs x hne
    obtain ⟨front, y, rfl, d, hd⟩ := h.parent
    have hkept : ∀ m, t.node qs = some (m, .dir) →
        ∃ n', Function.update t.node (front ++ [y]) (some (n, o)) qs = some (n', .dir) := by
      intro m hm
      refine ⟨m, ?_⟩
      rw [Function.update_of_ne, hm]
      rintro rfl
      rw [h.free] at hm
      cases hm
    by_cases hqs : qs ++ [x] = front ++ [y]
    · obtain ⟨rfl, -⟩ := List.append_inj' hqs rfl
      exact hkept d hd
    · rw [Function.update_of_ne hqs] at hne
      obtain ⟨m, hm⟩ := t.parent qs x hne
      exact hkept m hm
  unique := by
    intro qs rs m a b hqs hrs
    by_cases h₁ : qs = ps
    · by_cases h₂ : rs = ps
      · rw [h₁, h₂]
      · rw [h₁, Function.update_self] at hqs
        rw [Function.update_of_ne h₂] at hrs
        cases hqs
        exact absurd hrs (h.unused rs b)
    · rw [Function.update_of_ne h₁] at hqs
      by_cases h₂ : rs = ps
      · rw [h₂, Function.update_self] at hrs
        cases hrs
        exact absurd hqs (h.unused qs a)
      · rw [Function.update_of_ne h₂] at hrs
        exact t.unique qs rs m a b hqs hrs

/-- The tree with other contents in a file. -/
def overwrite (t : FileTree ι ν β) (ps : List ν) (c : List β) : FileTree ι ν β where
  node qs := if qs = ps then (t.node qs).map fun e => (e.1, e.2.withContents c) else t.node qs
  root := by
    obtain ⟨n, hn⟩ := t.root
    refine ⟨n, ?_⟩
    split
    · rw [hn]
      rfl
    · exact hn
  parent := by
    intro qs x hne
    have hold : t.node (qs ++ [x]) ≠ none := by
      intro hnone
      rw [hnone, Option.map_none, ite_self] at hne
      exact hne rfl
    obtain ⟨n, hn⟩ := t.parent qs x hold
    refine ⟨n, ?_⟩
    rw [hn]
    split <;> rfl
  unique := by
    have hold : ∀ qs n o, (if qs = ps then (t.node qs).map fun e => (e.1, e.2.withContents c)
        else t.node qs) = some (n, o) → ∃ o', t.node qs = some (n, o') := by
      intro qs n o h
      split at h
      · obtain ⟨e, he, heq⟩ := Option.map_eq_some_iff.mp h
        cases heq
        exact ⟨e.2, he⟩
      · exact ⟨o, h⟩
    intro qs rs n o o' hqs hrs
    obtain ⟨a, ha⟩ := hold qs n o hqs
    obtain ⟨b, hb⟩ := hold rs n o' hrs
    exact t.unique qs rs n a b ha hb

/-- The tree without what the path leads to. -/
def erase (t : FileTree ι ν β) (ps : List ν) (h : ps ≠ []) : FileTree ι ν β where
  node qs := if ps <+: qs then none else t.node qs
  root := by
    rw [if_neg fun hps => h (List.prefix_nil.mp hps)]
    exact t.root
  parent := by
    intro qs x hne
    have hps : ¬ ps <+: qs ++ [x] := fun hps => hne (if_pos hps)
    rw [if_neg hps] at hne
    rw [if_neg fun hqs => hps (hqs.trans (List.prefix_append _ _))]
    exact t.parent qs x hne
  unique := by
    intro qs rs n o o' hqs hrs
    split at hqs
    · cases hqs
    split at hrs
    · cases hrs
    exact t.unique qs rs n o o' hqs hrs

/-- The tree with what the first path leads to under the second one. -/
def move (t : FileTree ι ν β) (ps qs : List ν) (h : t.Movable ps qs) : FileTree ι ν β where
  node rs := if qs <+: rs then t.node (ps ++ rs.drop qs.length)
    else if ps <+: rs then none else t.node rs
  root := by
    have hps : ps ≠ [] := by
      rintro rfl
      exact h.apart List.nil_prefix
    rw [if_neg fun hqs => ne_nil_of_free h.free (List.prefix_nil.mp hqs),
      if_neg fun hqs => hps (List.prefix_nil.mp hqs)]
    exact t.root
  parent := by
    intro rs x hne
    obtain ⟨front, y, hfront, hdir⟩ := h.parent
    have hbelow : ¬ qs <+: rs → ps <+: rs ++ [x] → qs <+: rs ++ [x] := by
      intro hrs hps
      by_contra hqs
      rw [if_neg hqs, if_pos hps] at hne
      exact hne rfl
    by_cases hqs : qs <+: rs ++ [x]
    · rw [if_pos hqs] at hne
      rcases List.prefix_concat_iff.mp hqs with heq | hrs
      · -- the directory that has got the new name
        rw [heq] at hfront
        obtain ⟨rfl, -⟩ := List.append_inj' hfront rfl
        have hlonger : ¬ qs <+: rs := by
          intro hle
          have := hle.length_le
          rw [heq, List.length_append, List.length_singleton] at this
          omega
        rw [if_neg hlonger, if_neg fun hps => h.apart (hps.trans ⟨[x], heq.symm⟩)]
        exact hdir
      · rw [if_pos hrs]
        rw [List.drop_append_of_le_length hrs.length_le, ← List.append_assoc] at hne
        exact t.parent _ _ hne
    · have hrs : ¬ qs <+: rs := fun hrs => hqs (hrs.trans (List.prefix_append _ _))
      have hps : ¬ ps <+: rs ++ [x] := fun hps => hqs (hbelow hrs hps)
      rw [if_neg hqs, if_neg hps] at hne
      rw [if_neg hrs, if_neg fun hle => hps (hle.trans (List.prefix_append _ _))]
      exact t.parent rs x hne
  unique := by
    have hmoved : ∀ rs rs' n o o', qs <+: rs → ¬ qs <+: rs' →
        t.node (ps ++ rs.drop qs.length) = some (n, o) →
        (if ps <+: rs' then none else t.node rs') = some (n, o') → False := by
      intro rs rs' n o o' _ _ hrs hrs'
      split at hrs'
      · cases hrs'
      next hps => exact hps ⟨_, t.unique _ _ n o o' hrs hrs'⟩
    intro rs rs' n o o' hrs hrs'
    split at hrs
    next h₁ =>
      split at hrs'
      next h₂ =>
        have heq := List.append_cancel_left (t.unique _ _ n o o' hrs hrs')
        rw [← List.prefix_iff_eq_append.mp h₁, heq, List.prefix_iff_eq_append.mp h₂]
      next h₂ => exact (hmoved rs rs' n o o' h₁ h₂ hrs hrs').elim
    next h₁ =>
      split at hrs'
      next h₂ => exact (hmoved rs' rs n o' o h₂ h₁ hrs' hrs).elim
      next h₂ =>
        split at hrs
        · cases hrs
        split at hrs'
        · cases hrs'
        exact t.unique rs rs' n o o' hrs hrs'

@[simp] theorem node_insert (h : t.Vacant ps n) (rs : List ν) :
    (t.insert ps n o h).node rs = if rs = ps then some (n, o) else t.node rs :=
  Function.update_apply ..

@[simp] theorem node_overwrite (t : FileTree ι ν β) (ps rs : List ν) (c : List β) :
    (t.overwrite ps c).node rs =
      if rs = ps then (t.node rs).map fun e => (e.1, e.2.withContents c) else t.node rs := rfl

@[simp] theorem node_erase (h : ps ≠ []) (rs : List ν) :
    (t.erase ps h).node rs = if ps <+: rs then none else t.node rs := rfl

@[simp] theorem node_move (h : t.Movable ps qs) (rs : List ν) :
    (t.move ps qs h).node rs = if qs <+: rs then t.node (ps ++ rs.drop qs.length)
      else if ps <+: rs then none else t.node rs := rfl

end Changes

/-! ## The calls -/

/-- A call of a file system.  What is written and read is found by its number. -/
inductive Call (ι ν β : Type)
  | mkdir (path : List ν)
  | create (path : List ν)
  | rmdir (path : List ν)
  | remove (path : List ν)
  | rename (oldPath newPath : List ν)
  | write (n : ι) (offset : ℕ) (bytes : List β)
  | truncate (path : List ν) (length : ℕ)
  | read (n : ι) (count offset : ℕ)
  | stat (path : List ν)
  | list (path : List ν)

/-- An answer of a file system. -/
inductive Reply (ι ν β : Type)
  | done
  | refused
  | notEmpty
  | number (n : ι)
  | count (k : ℕ)
  | bytes (l : List β)
  | directory (n : ι) (entries : ℕ)
  | file (n : ι) (size : ℕ)
  | names (l : List ν)

/-- What a file system is free in: the length that a file of a size is left with when it is to get
another one, and the values behind the end of a file. -/
structure Policy (β : Type) where
  cut : ℕ → ℕ → ℕ
  gap : β
  pad : β

variable [DecidableEq ν]

/-- The tree `t` answers the call and becomes `t'`. -/
inductive Step (policy : Policy β) (t : FileTree ι ν β) :
    Call ι ν β → Reply ι ν β → FileTree ι ν β → Prop
  | mkdir {ps : List ν} {n : ι} (h : t.Vacant ps n) :
    Step policy t (.mkdir ps) .done (t.insert ps n .dir h)
  | mkdir_refused {ps : List ν} (h : t.node ps ≠ none ∨ ¬ t.HasParent ps) :
    Step policy t (.mkdir ps) .refused t
  | create {ps : List ν} {n : ι} (h : t.Vacant ps n) :
    Step policy t (.create ps) (.number n) (t.insert ps n (.file []) h)
  | create_found {ps : List ν} {n : ι} {o : Object β} (h : t.node ps = some (n, o)) :
    Step policy t (.create ps) (.number n) t
  | create_refused {ps : List ν} (h : t.node ps = none) (hparent : ¬ t.HasParent ps) :
    Step policy t (.create ps) .refused t
  | rmdir {ps : List ν} (hne : ps ≠ []) (h : t.IsDir ps) (hempty : ∀ x, t.node (ps ++ [x]) = none) :
    Step policy t (.rmdir ps) .done (t.erase ps hne)
  | rmdir_full {ps : List ν} {x : ν} (h : t.node (ps ++ [x]) ≠ none) :
    Step policy t (.rmdir ps) .notEmpty t
  | rmdir_refused {ps : List ν} (h : ¬ t.IsDir ps) : Step policy t (.rmdir ps) .refused t
  | remove {ps : List ν} (hne : ps ≠ []) (h : t.IsFile ps) :
    Step policy t (.remove ps) .done (t.erase ps hne)
  | remove_refused {ps : List ν} (h : ¬ t.IsFile ps) : Step policy t (.remove ps) .refused t
  | rename {ps qs : List ν} (h : t.Movable ps qs) :
    Step policy t (.rename ps qs) .done (t.move ps qs h)
  | rename_refused {ps qs : List ν} (h : ¬ t.HasParent ps ∨ ¬ t.HasParent qs) :
    Step policy t (.rename ps qs) .refused t
  | write {ps : List ν} {n : ι} {c : List β} {offset : ℕ} {bytes : List β}
    (h : t.node ps = some (n, .file c)) :
    Step policy t (.write n offset bytes) (.count bytes.length)
      (t.overwrite ps (pwriteFill policy.gap c offset bytes))
  | truncate {ps : List ν} {n : ι} {c : List β} {length : ℕ}
    (h : t.node ps = some (n, .file c)) :
    Step policy t (.truncate ps length) .done
      (t.overwrite ps (resize policy.pad c (policy.cut length c.length)))
  | truncate_refused {ps : List ν} {length : ℕ} (h : ¬ t.IsFile ps) :
    Step policy t (.truncate ps length) .refused t
  | read {ps : List ν} {n : ι} {c : List β} {count offset : ℕ}
    (h : t.node ps = some (n, .file c)) :
    Step policy t (.read n count offset) (.bytes ((c.drop offset).take count)) t
  | stat_dir {ps : List ν} {n : ι} {l : List ν} (h : t.node ps = some (n, .dir))
    (hl : t.Lists ps l) : Step policy t (.stat ps) (.directory n l.length) t
  | stat_file {ps : List ν} {n : ι} {c : List β} (h : t.node ps = some (n, .file c)) :
    Step policy t (.stat ps) (.file n c.length) t
  | stat_refused {ps : List ν} (h : t.node ps = none) : Step policy t (.stat ps) .refused t
  | list {ps : List ν} {l : List ν} (h : t.Lists ps l) : Step policy t (.list ps) (.names l) t
  | list_refused {ps : List ν} (h : ¬ t.IsDir ps) : Step policy t (.list ps) .refused t

/-! ## What a call leaves alone -/

/-- The call is one to the object with the number: it writes to it, cuts it or removes it. -/
def Changes (t : FileTree ι ν β) (n : ι) : Call ι ν β → Prop
  | .write m _ _ => m = n
  | .truncate ps _ => ∃ o, t.node ps = some (n, o)
  | .remove ps => ∃ o, t.node ps = some (n, o)
  | _ => False

/-- INTERNAL: a call leaves the files it does not change, but a move may take them along. -/
theorem Step.leaves {policy : Policy β} {call : Call ι ν β} {reply : Reply ι ν β}
    {t' : FileTree ι ν β} {c : List β} (hstep : Step policy t call reply t')
    (hnot : ¬ Changes t n call) (h : t.node ps = some (n, .file c)) :
    ∃ qs, t'.node qs = some (n, .file c) := by
  have herase : ∀ qs (hne : qs ≠ []), ¬ qs <+: ps → ∃ rs, (t.erase qs hne).node rs =
      some (n, .file c) := by
    intro qs hne hqs
    exact ⟨ps, by rw [node_erase, if_neg hqs, h]⟩
  have hover : ∀ qs c' m c₀, t.node qs = some (m, .file c₀) → m ≠ n →
      ∃ rs, (t.overwrite qs c').node rs = some (n, .file c) := by
    intro qs c' m c₀ hqs hm
    refine ⟨ps, ?_⟩
    rw [node_overwrite, if_neg, h]
    rintro rfl
    rw [h] at hqs
    cases hqs
    exact hm rfl
  cases hstep with
  | @mkdir qs m hv | @create qs m hv =>
    have hne : ps ≠ qs := by
      rintro rfl
      rw [hv.free] at h
      cases h
    exact ⟨ps, by rw [node_insert, if_neg hne, h]⟩
  | @rmdir qs hne hdir hempty =>
    apply herase qs hne
    -- a directory without entries is not above a file
    rintro ⟨rs, rfl⟩
    obtain ⟨m, hm⟩ := hdir
    cases rs with
    | nil =>
      rw [List.append_nil, hm] at h
      cases h
    | cons x rs =>
      rw [node_below (hempty x) ⟨rs, by rw [List.append_assoc, List.singleton_append]⟩] at h
      cases h
  | @remove qs hne hfile =>
    apply herase qs hne
    intro hqs
    obtain ⟨m, c', hm⟩ := hfile
    by_cases heq : ps = qs
    · rw [heq] at h
      exact hnot ⟨_, h⟩
    · rw [node_below_file hm hqs heq] at h
      cases h
  | @rename qs rs hm =>
    by_cases hqs : qs <+: ps
    · obtain ⟨us, rfl⟩ := hqs
      exact ⟨rs ++ us, by rw [node_move, if_pos (List.prefix_append _ _), List.drop_left, h]⟩
    · refine ⟨ps, ?_⟩
      rw [node_move, if_neg, if_neg hqs, h]
      intro hrs
      rw [node_below hm.free hrs] at h
      cases h
  | @write qs m c' offset bytes hqs => exact hover qs _ m c' hqs hnot
  | @truncate qs m c' length hqs => exact hover qs _ m c' hqs fun hm => hnot ⟨_, hm ▸ hqs⟩
  | _ => exact ⟨ps, h⟩

/-! ## What the writes make of a file -/

section Contents

variable [DecidableEq ι]

/-- The call cuts the object with the number or removes it. -/
def Resizes (t : FileTree ι ν β) (n : ι) : Call ι ν β → Prop
  | .truncate ps _ => ∃ o, t.node ps = some (n, o)
  | .remove ps => ∃ o, t.node ps = some (n, o)
  | _ => False

/-- What the call writes to the object with the number. -/
def writesOf (n : ι) : Call ι ν β → List (ℕ × List β)
  | .write m offset bytes => if m = n then [(offset, bytes)] else []
  | _ => []

/-- INTERNAL: **a file that is not cut or removed holds what the calls write to it.** -/
theorem Step.contents {policy : Policy β} {call : Call ι ν β} {reply : Reply ι ν β}
    {t' : FileTree ι ν β} {c : List β} (hstep : Step policy t call reply t')
    (hnot : ¬ Resizes t n call) (h : t.node ps = some (n, .file c)) :
    ∃ qs, t'.node qs = some (n, .file (writeAll policy.gap c (writesOf n call))) := by
  by_cases hchanges : Changes t n call
  · cases hstep with
    | @write qs m c' offset bytes hqs =>
      obtain rfl : m = n := hchanges
      obtain rfl := t.unique qs ps m _ _ hqs h
      rw [h] at hqs
      cases hqs
      refine ⟨qs, ?_⟩
      rw [node_overwrite, if_pos rfl, h, writesOf, if_pos rfl]
      rfl
    | truncate hps => exact absurd hchanges hnot
    | truncate_refused hps => exact absurd hchanges hnot
    | remove hne hps => exact absurd hchanges hnot
    | remove_refused hps => exact absurd hchanges hnot
    | _ => exact hchanges.elim
  · have hnone : writesOf n call = [] := by
      cases call with
      | write m offset bytes => exact if_neg hchanges
      | _ => rfl
    rw [hnone]
    exact hstep.leaves hchanges h

end Contents

end FileTree

end LinuseFs.Computation
