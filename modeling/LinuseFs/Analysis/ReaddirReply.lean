import LinuseFs.Model.Client
import LinuseFs.Analysis.RequestCodec
import LinuseFs.Model.Server
import Mathlib.Algebra.GroupWithZero.Nat

/-!
# The reply to readdir

`_sac_readdir` rebuilds the data of the package for each name: what it had, and the name behind it
as a string on the wire.  `do_readdir` walks over these strings; its index moves on in two places,
by the width of the length and by the length, so that each round ends where the next string begins.
-/

set_option autoImplicit false

namespace LinuseFs.Analysis

open LinuseFs.Computation LinuseFs.Model

/-- The names on the wire, one behind the other. -/
def encNames (names : List CString) : List UInt8 := names.flatMap encString

theorem encNames_cons (name : CString) (names : List CString) :
    encNames (name :: names) = encString name ++ encNames names := List.flatMap_cons

theorem length_encNames (names : List CString) :
    (encNames names).length = (names.map fun name => name.val.length + 3).sum := by
  induction names with
  | nil => rfl
  | cons name names ih =>
    rw [encNames_cons, List.length_append, ih, length_encString, List.map_cons, List.sum_cons]

theorem length_le_encNames (names : List CString) : names.length ≤ (encNames names).length := by
  induction names with
  | nil => exact Nat.zero_le _
  | cons name names ih =>
    rw [encNames_cons, List.length_append, length_encString, List.length_cons]
    omega

/-- INTERNAL: a C string is what is read back from its bytes. -/
theorem cString_val (s : CString) : cString s.val = s := by
  apply Subtype.ext
  rw [cString, List.takeWhile_eq_self_iff]
  intro b hb
  rw [decide_eq_true_eq]
  rintro rfl
  exact s.property hb

/-- INTERNAL: **what `_sac_readdir` has accumulated** grows by the names on the wire; the induction
is on the names that are left. SRCLINE: fs_sac.c:86-102 -/
theorem agregarEntradas_eq (fresh : Bytes) (names : List CString) (d : List UInt8) (m : ℤ)
    (hlen : ∀ name ∈ names, name.val.length ≤ 65532)
    (htotal : (d ++ encNames names).length < 2 ^ 32) :
    FsSac.agregarEntradas fresh (names.map Subtype.val) ⟨m, d.length, d⟩ =
      some ⟨m, (d ++ encNames names).length, d ++ encNames names⟩ := by
  induction names generalizing d with
  | nil => simp only [List.map_nil, FsSac.agregarEntradas, encNames, List.flatMap_nil,
      List.append_nil]
  | cons name names ih =>
    have hname := hlen name List.mem_cons_self
    rw [encNames_cons, ← List.append_assoc] at htotal ⊢
    have hsize : (d.length + (name.val.length + 3)) % 2 ^ 32 = d.length + (name.val.length + 3) := by
      apply Nat.mod_eq_of_lt
      simp only [List.length_append, length_encString] at htotal
      omega
    have hpeek : peek d 0 d.length = some d := by
      have := peek_append (a := []) (b := d) (c := []) (p := 0) (n := d.length) rfl rfl
      simpa using this
    have hpoke : poke (mallocBlock fresh (d.length + (name.val.length + 3))) 0 d =
        some (d ++ (mallocBlock fresh (d.length + (name.val.length + 3))).drop d.length) := by
      have := poke_append (d := []) (r := mallocBlock fresh (d.length + (name.val.length + 3)))
        (s := d) (p := 0) rfl (by rw [length_mallocBlock]; omega)
      simpa only [List.nil_append] using this
    have hfill := serializeString_fill (d := d) (p := d.length)
      (r := (mallocBlock fresh (d.length + (name.val.length + 3))).drop d.length) hname rfl
      (by rw [List.length_drop, length_mallocBlock]; omega)
    have hnext : d.length + (name.val.length + 3) = (d ++ encString name).length := by
      rw [List.length_append, length_encString]
    rw [List.map_cons, FsSac.agregarEntradas]
    simp only [cString_val, stringSerializedSize_eq hname, hsize, hpeek, hpoke, hfill,
      Option.bind_eq_bind, Option.bind_some]
    rw [hnext]
    exact ih (d ++ encString name) (fun q hq => hlen q (List.mem_cons_of_mem _ hq)) htotal

/-- INTERNAL: **the walk over the reply** from behind the bytes `d` finds the names that follow;
the induction is on the names that are left. SRCLINE: fuse.c:200-207 -/
theorem leerEntradas_eq (names : List CString) (d : List UInt8) (m : ℤ) (rounds : ℕ)
    (hlen : ∀ name ∈ names, name.val.length ≤ 65532)
    (htotal : (d ++ encNames names).length < 2 ^ 31) (hrounds : names.length < rounds) :
    leerEntradas ⟨m, (d ++ encNames names).length, d ++ encNames names⟩ rounds d.length =
      some (names.map fun name => name.val ++ [0]) := by
  induction names generalizing d rounds with
  | nil =>
    obtain ⟨rounds, rfl⟩ : ∃ k, rounds = k + 1 := ⟨rounds - 1, by simp at hrounds; omega⟩
    rw [leerEntradas, if_neg (by simp [encNames])]
    rfl
  | cons name names ih =>
    obtain ⟨rounds, rfl⟩ : ∃ k, rounds = k + 1 := ⟨rounds - 1, by simp at hrounds; omega⟩
    have hname := hlen name List.mem_cons_self
    have hle : (le 2 (name.val.length + 1)).length = 2 := length_le _ _
    have hlength : fromLe (le 2 (name.val.length + 1)) = name.val.length + 1 :=
      fromLe_le_of_lt (by omega)
    rw [encNames_cons, ← List.append_assoc] at htotal ⊢
    have hroom : (d ++ encString name ++ encNames names).length =
        d.length + 2 + (name.val.length + 1) + (encNames names).length := by
      simp only [List.length_append, length_encString]
      omega
    have hpeek : peek (d ++ encString name ++ encNames names) d.length 2 =
        some (le 2 (name.val.length + 1)) := by
      have := peek_append (a := d) (b := le 2 (name.val.length + 1))
        (c := name.val ++ [0] ++ encNames names) rfl hle.symm
      simpa only [encString, List.append_assoc] using this
    have hentry : peek (d ++ encString name ++ encNames names) (d.length + 2)
        (name.val.length + 1) = some (name.val ++ [0]) := by
      have := peek_append (a := d ++ le 2 (name.val.length + 1)) (b := name.val ++ [0])
        (c := encNames names) (p := d.length + 2) (n := name.val.length + 1)
        (by rw [List.length_append, hle]) (by simp)
      simpa only [encString, List.append_assoc] using this
    have hnext : d.length + 2 + (name.val.length + 1) = (d ++ encString name).length := by
      rw [List.length_append, length_encString]
      omega
    have hrest := ih (d ++ encString name) rounds (fun q hq => hlen q (List.mem_cons_of_mem _ hq))
      htotal (by simpa using hrounds)
    rw [leerEntradas]
    simp only [sizeStringLen]
    rw [if_pos (by omega)]
    simp only [hpeek, hlength, hentry, Option.bind_eq_bind, Option.bind_some]
    rw [if_neg (by omega), hnext, hrest]
    rfl

/-- **The reply to readdir is decoded to the names that were listed**, each with its NUL, in the
same order and behind the two entries of the client; the walk stays inside the reply and ends.
SRCLINE: fs_sac.c:76-105, fuse.c:185-214 -/
theorem readdir_reply_decodes (fresh : Bytes) (names : List CString)
    (hlen : ∀ name ∈ names, name.val.length ≤ 65532)
    (htotal : (names.map fun name => name.val.length + 3).sum < 2 ^ 31) :
    ∃ package, FsSac.agregarEntradas fresh (names.map Subtype.val) (createDefaultPackage 0) =
        some package ∧
      package.data.length = package.size ∧
      doReaddir package =
        some (0, [[46, 0], [46, 46, 0]] ++ names.map fun name => name.val ++ [0]) := by
  rw [← length_encNames] at htotal
  have hencode := agregarEntradas_eq fresh names [] 0 hlen (by rw [List.nil_append]; omega)
  have hrounds := length_le_encNames names
  have hdecode := leerEntradas_eq names [] 0 ((encNames names).length + 1) hlen htotal (by omega)
  rw [List.nil_append] at hencode hdecode
  refine ⟨_, hencode, rfl, ?_⟩
  rw [List.length_nil] at hdecode
  simp only [doReaddir, lt_irrefl, if_false, hdecode, Option.bind_eq_bind, Option.bind_some]
  rfl

/-- The statement for a directory with the entries `a` and `bc`. -/
theorem readdir_reply_decodes_two : ∃ package,
    FsSac.agregarEntradas (fun _ => 7) [[97], [98, 99]] (createDefaultPackage 0) = some package ∧
    package.data.length = package.size ∧
    doReaddir package = some (0, [[46, 0], [46, 46, 0], [97, 0], [98, 99, 0]]) :=
  readdir_reply_decodes (fun _ => 7) [⟨[97], by decide⟩, ⟨[98, 99], by decide⟩] (by decide)
    (by decide)

end LinuseFs.Analysis
