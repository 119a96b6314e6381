import LinuseFs.Model.Server

/-!
# What the server does with a request

The decoders take every length from the package, and nothing compares it with the size that
was received.  A request is executed exactly when each string, each field behind a string and
each buffer lies inside the data (`Complete`); every other package makes the server read
outside, or dereference the pointer that `deserialize` leaves NULL for an unknown message.
-/

set_option autoImplicit false

namespace LinuseFs.Analysis

open LinuseFs.Computation LinuseFs.Model

/-! ## Complete packages -/

/-- The `n` bytes at offset `pos` of the data. -/
def piece (data : List UInt8) (pos n : ℕ) : List UInt8 := (data.drop pos).take n

/-- The length in front of the string at offset `pos`. -/
def lengthAt (data : List UInt8) (pos : ℕ) : ℕ := fromLe (piece data pos 2)

/-- A string lies at offset `pos` of the data, with its NUL. -/
def StringAt (data : List UInt8) (pos : ℕ) : Prop :=
  pos + 2 + lengthAt data pos ≤ data.length ∧
    (0 : UInt8) ∈ piece data (pos + 2) (lengthAt data pos)

/-- The data of a request has all its arguments. -/
def HasArguments (offT : OffT) (data : List UInt8) : Identifier → Prop
  | .sac => False
  | .open | .mkdir | .stat => StringAt data 0 ∧ 2 + lengthAt data 0 + 2 ≤ data.length
  | .truncate => StringAt data 0 ∧ 2 + lengthAt data 0 + offT.size ≤ data.length
  | .remove | .rmdir | .readdir => StringAt data 0
  | .close => 2 ≤ data.length
  | .read => 10 ≤ data.length
  | .write => 10 + fromLe (piece data 2 4) ≤ data.length
  | .rename => StringAt data 0 ∧ StringAt data (2 + lengthAt data 0)

/-- The package is a request with all its arguments. -/
def Complete (offT : OffT) (package : Package) : Prop :=
  ∃ i : Identifier, package.messageId = i.code ∧ HasArguments offT package.data i

/-! ## What should happen -/

/-- The paths of a request. -/
def paths : Request → List CString
  | .open path _ | .remove path | .mkdir path _ | .rmdir path | .stat path | .readdir path
  | .truncate path _ => [path]
  | .rename oldPath newPath => [oldPath, newPath]
  | .close _ | .write _ _ _ | .read _ _ _ => []

/-- The package is answered by executing the function, whose arguments are copies of bytes of
the package, each path with its NUL in its own block. -/
structure Executed (abi : Abi) (package : Package) (function : Function) (request : Request) :
    Prop where
  decoded : deserialize abi.offT package = some (some function)
  inside : ∀ block ∈ function.args, block <:+: package.data
  strings : ∀ path ∈ paths request, ∃ block ∈ function.args, path.val ++ [0] <+: block
  logged : logFunctionCall function = some ()
  requested : requestOf abi function = some (some request)
  answer : attendConnection abi package = perform abi request

/-- The package is executed, or answered with an error. -/
def Answered (abi : Abi) (package : Package) : Prop :=
  (∃ function request, Executed abi package function request) ∨
    ∃ response : Package, response.messageId < 0 ∧ attendConnection abi package = pure response

section Requests

variable {abi : Abi} {package : Package} {function : Function} {i : Identifier}

theorem peek_eq_some_iff {mem l : List UInt8} {pos len : ℕ} :
    peek mem pos len = some l ↔ pos + len ≤ mem.length ∧ piece mem pos len = l := by
  unfold peek piece
  split
  next h => simp [h]
  next h => simp [h]

theorem piece_isInfix (data : List UInt8) (pos n : ℕ) : piece data pos n <:+: data :=
  (List.take_prefix _ _).isInfix.trans (List.drop_suffix _ _).isInfix

theorem length_piece {data : List UInt8} {pos n : ℕ} (h : pos + n ≤ data.length) :
    (piece data pos n).length = n := by
  rw [piece, List.length_take, List.length_drop]
  omega

/-- INTERNAL: a string that was read ends in its block. -/
theorem string_eq_some {j : ℕ} {path : CString} (h : function.string j = some path) :
    ∃ block ∈ function.args, path.val ++ [0] <+: block := by
  simp only [Function.string, Option.bind_eq_bind, Option.bind_eq_some_iff] at h
  obtain ⟨block, hblock, h⟩ := h
  split at h
  next hnul =>
    cases h
    refine ⟨block, List.mem_of_getElem? hblock, ?_⟩
    have hsplit := List.takeWhile_append_dropWhile (p := fun b : UInt8 => b ≠ 0) (l := block)
    have hne : block.dropWhile (fun b => decide (b ≠ 0)) ≠ [] := by
      rw [Ne, List.dropWhile_eq_nil_iff]
      intro hall
      simpa using hall 0 hnul
    obtain ⟨b, rest, hrest⟩ := List.exists_cons_of_ne_nil hne
    have hb : b = 0 := by
      have := List.head_dropWhile_not (fun b : UInt8 => decide (b ≠ 0)) hne
      simp only [hrest, List.head_cons] at this
      simpa using this
    rw [hrest, hb] at hsplit
    exact ⟨rest, by simpa [cString] using hsplit⟩
  next => cases h

/-- INTERNAL: the paths of the call that `execute` makes were read. SRCLINE:
server.c:102-161 -/
theorem requestOf_strings {request : Request} (h : requestOf abi function = some (some request)) :
    ∀ path ∈ paths request, ∃ block ∈ function.args, path.val ++ [0] <+: block := by
  unfold requestOf at h
  split at h
  all_goals
    simp only [Option.bind_eq_bind, Option.bind_eq_some_iff, Option.pure_def, Option.some.injEq,
      reduceCtorEq] at h
  case h_2 =>
    obtain ⟨-, -, rfl⟩ := h
    exact fun _ hpath => absurd hpath List.not_mem_nil
  case h_3 =>
    obtain ⟨-, -, -, -, -, -, -, -, rfl⟩ := h
    exact fun _ hpath => absurd hpath List.not_mem_nil
  case h_4 =>
    obtain ⟨-, -, -, -, -, -, rfl⟩ := h
    exact fun _ hpath => absurd hpath List.not_mem_nil
  case h_10 =>
    obtain ⟨oldPath, hold, newPath, hnew, rfl⟩ := h
    intro path hpath
    rcases List.mem_pair.mp hpath with rfl | rfl
    · exact string_eq_some hold
    · exact string_eq_some hnew
  all_goals
    obtain ⟨path, hstring, h⟩ := h
    have hpaths : paths request = [path] := by
      first
      | (rw [← h]; rfl)
      | (obtain ⟨_, _, h⟩ := h; rw [← h]; rfl)
    rw [hpaths]
    intro path' hpath
    rw [List.mem_singleton.mp hpath]
    exact string_eq_some hstring

/-! ## The decoders -/

/-- The decoder of a kind of request. SRCLINE: serialization.c:138-165 -/
def decoder (offT : OffT) : Identifier → Package → Option Function
  | .sac => fun _ => none
  | .open => deserializeOpen
  | .close => deserializeClose
  | .write => deserializeWrite
  | .read => deserializeRead
  | .remove => deserializeRemove
  | .mkdir => deserializeMkdir
  | .rmdir => deserializeRmdir
  | .stat => deserializeStat
  | .readdir => deserializeReaddir
  | .rename => deserializeRename
  | .truncate => deserializeTruncate offT

theorem deserialize_code (offT : OffT) (hid : package.messageId = i.code) (hi : i ≠ .sac) :
    deserialize offT package = (decoder offT i package).map some := by
  cases i with
  | sac => exact absurd rfl hi
  | _ => simp [deserialize, hid, Identifier.code, decoder]

/-- INTERNAL: **an unknown message** leaves the pointer NULL. SRCLINE: serialization.c:162-163 -/
theorem deserialize_unknown (offT : OffT)
    (hid : ∀ i : Identifier, i ≠ .sac → package.messageId ≠ i.code) :
    deserialize offT package = some none := by
  unfold deserialize
  simp only [hid _ (show Identifier.open ≠ .sac by decide),
    hid _ (show Identifier.close ≠ .sac by decide), hid _ (show Identifier.write ≠ .sac by decide),
    hid _ (show Identifier.read ≠ .sac by decide), hid _ (show Identifier.remove ≠ .sac by decide),
    hid _ (show Identifier.mkdir ≠ .sac by decide), hid _ (show Identifier.rmdir ≠ .sac by decide),
    hid _ (show Identifier.stat ≠ .sac by decide), hid _ (show Identifier.readdir ≠ .sac by decide),
    hid _ (show Identifier.rename ≠ .sac by decide),
    hid _ (show Identifier.truncate ≠ .sac by decide), if_false]

/-- INTERNAL: the byte that keeps the message holds every kind of request. -/
theorem ofCode_functionId (hid : package.messageId = i.code) :
    Identifier.ofCode (functionIdOf package) = some i := by
  unfold functionIdOf
  rw [hid]
  cases i <;> rfl

theorem deserializePathAnd_eq_some {width : ℕ} :
    deserializePathAnd width package = some function ↔
      2 + lengthAt package.data 0 + width ≤ package.data.length ∧
        function = ⟨functionIdOf package, [piece package.data 2 (lengthAt package.data 0),
          piece package.data (2 + lengthAt package.data 0) width], 2⟩ := by
  simp only [deserializePathAnd, sizeStringLen, Option.bind_eq_bind, Option.bind_eq_some_iff,
    peek_eq_some_iff, Option.pure_def, Option.some.injEq, lengthAt]
  constructor
  · rintro ⟨_, ⟨-, rfl⟩, _, ⟨-, rfl⟩, _, ⟨hlen, rfl⟩, rfl⟩
    exact ⟨hlen, rfl⟩
  · rintro ⟨hlen, rfl⟩
    exact ⟨_, ⟨by omega, rfl⟩, _, ⟨by omega, rfl⟩, _, ⟨hlen, rfl⟩, rfl⟩

theorem deserializeRemove_eq_some :
    deserializeRemove package = some function ↔
      2 + lengthAt package.data 0 ≤ package.data.length ∧
        function =
          ⟨functionIdOf package, [piece package.data 2 (lengthAt package.data 0)], 1⟩ := by
  simp only [deserializeRemove, sizeStringLen, Option.bind_eq_bind, Option.bind_eq_some_iff,
    peek_eq_some_iff, Option.pure_def, Option.some.injEq, lengthAt]
  constructor
  · rintro ⟨_, ⟨-, rfl⟩, _, ⟨hlen, rfl⟩, rfl⟩
    exact ⟨hlen, rfl⟩
  · rintro ⟨hlen, rfl⟩
    exact ⟨_, ⟨by omega, rfl⟩, _, ⟨hlen, rfl⟩, rfl⟩

theorem deserializeRename_eq_some :
    deserializeRename package = some function ↔
      2 + lengthAt package.data 0 + 2 + lengthAt package.data (2 + lengthAt package.data 0) ≤
        package.data.length ∧
        function = ⟨functionIdOf package, [piece package.data 2 (lengthAt package.data 0),
          piece package.data (2 + lengthAt package.data 0 + 2)
            (lengthAt package.data (2 + lengthAt package.data 0))], 2⟩ := by
  simp only [deserializeRename, sizeStringLen, Option.bind_eq_bind, Option.bind_eq_some_iff,
    peek_eq_some_iff, Option.pure_def, Option.some.injEq, lengthAt]
  constructor
  · rintro ⟨_, ⟨-, rfl⟩, _, ⟨-, rfl⟩, _, ⟨-, rfl⟩, _, ⟨hlen, rfl⟩, rfl⟩
    exact ⟨hlen, rfl⟩
  · rintro ⟨hlen, rfl⟩
    exact ⟨_, ⟨by omega, rfl⟩, _, ⟨by omega, rfl⟩, _, ⟨by omega, rfl⟩, _, ⟨hlen, rfl⟩, rfl⟩

theorem deserializeClose_eq_some :
    deserializeClose package = some function ↔
      package.size ≤ package.data.length ∧
        function = ⟨functionIdOf package, [piece package.data 0 package.size], 1⟩ := by
  simp only [deserializeClose, Option.bind_eq_bind, Option.bind_eq_some_iff, peek_eq_some_iff,
    Option.pure_def, Option.some.injEq]
  constructor
  · rintro ⟨_, ⟨hlen, rfl⟩, rfl⟩
    exact ⟨by omega, rfl⟩
  · rintro ⟨hlen, rfl⟩
    exact ⟨_, ⟨by omega, rfl⟩, rfl⟩

theorem deserializeRead_eq_some :
    deserializeRead package = some function ↔ 10 ≤ package.data.length ∧
      function = ⟨functionIdOf package, [piece package.data 0 2, piece package.data 2 4,
        piece package.data 6 4], 3⟩ := by
  simp only [deserializeRead, sizeFd, sizeBuffer, sizeOffset, Option.bind_eq_bind,
    Option.bind_eq_some_iff, peek_eq_some_iff, Option.pure_def, Option.some.injEq]
  constructor
  · rintro ⟨_, ⟨-, rfl⟩, _, ⟨-, rfl⟩, _, ⟨hlen, rfl⟩, rfl⟩
    exact ⟨by omega, rfl⟩
  · rintro ⟨hlen, rfl⟩
    exact ⟨_, ⟨by omega, rfl⟩, _, ⟨by omega, rfl⟩, _, ⟨by omega, rfl⟩, rfl⟩

theorem deserializeWrite_eq_some :
    deserializeWrite package = some function ↔
      10 + fromLe (piece package.data 2 4) ≤ package.data.length ∧
        function = ⟨functionIdOf package, [piece package.data 0 2,
          piece package.data 6 (fromLe (piece package.data 2 4)), piece package.data 2 4,
          piece package.data (6 + fromLe (piece package.data 2 4)) 4], 4⟩ := by
  simp only [deserializeWrite, sizeFd, sizeBuffer, sizeOffset, Option.bind_eq_bind,
    Option.bind_eq_some_iff, peek_eq_some_iff, Option.pure_def, Option.some.injEq]
  constructor
  · rintro ⟨_, ⟨-, rfl⟩, _, ⟨-, rfl⟩, _, ⟨-, rfl⟩, _, ⟨hlen, rfl⟩, rfl⟩
    exact ⟨by omega, rfl⟩
  · rintro ⟨hlen, rfl⟩
    exact ⟨_, ⟨by omega, rfl⟩, _, ⟨by omega, rfl⟩, _, ⟨by omega, rfl⟩, _, ⟨by omega, rfl⟩, rfl⟩

/-! ## Logging and executing a decoded function -/

/-- Logging and executing the function read inside its arguments. -/
def Readable (abi : Abi) (function : Function) : Prop :=
  (logFunctionCall function).isSome ∧ (requestOf abi function).isSome

variable (function) in
theorem string_isSome (j : ℕ) {block : List UInt8} (h : function.args[j]? = some block) :
    (function.string j).isSome ↔ (0 : UInt8) ∈ block := by
  simp only [Function.string, h, Option.bind_eq_bind, Option.bind_some]
  split <;> simp_all

variable (function) in
theorem field_isSome (width j : ℕ) {block : List UInt8} (h : function.args[j]? = some block) :
    (function.field width j).isSome ↔ width ≤ block.length := by
  simp only [Function.field, h, Option.bind_eq_bind, Option.bind_some, peek]
  split <;> simp_all

/-- INTERNAL: a function of one path. -/
theorem readable_path {fid : ℕ} {block : List UInt8}
    (hi : i = .remove ∨ i = .rmdir ∨ i = .readdir) (hcode : Identifier.ofCode fid = some i) :
    Readable abi ⟨fid, [block], 1⟩ ↔ (0 : UInt8) ∈ block := by
  rw [← string_isSome ⟨fid, [block], 1⟩ 0 rfl]
  cases hs : (⟨fid, [block], 1⟩ : Function).string 0 <;>
    rcases hi with rfl | rfl | rfl <;> simp [Readable, logFunctionCall, requestOf, hcode, hs]

/-- INTERNAL: a function of a path and a number, which is not read for every kind. -/
theorem readable_pathAnd {fid : ℕ} {block number : List UInt8}
    (hi : i = .open ∧ number.length = 2 ∨ i = .mkdir ∨ i = .stat ∨
      i = .truncate ∧ number.length = abi.offT.size)
    (hcode : Identifier.ofCode fid = some i) :
    Readable abi ⟨fid, [block, number], 2⟩ ↔ (0 : UInt8) ∈ block := by
  rw [← string_isSome ⟨fid, [block, number], 2⟩ 0 rfl]
  have hfield := fun width =>
    (field_isSome ⟨fid, [block, number], 2⟩ width 1 rfl).mpr
  rcases hi with ⟨rfl, hlen⟩ | rfl | rfl | ⟨rfl, hlen⟩
  · obtain ⟨mode, hmode⟩ := Option.isSome_iff_exists.mp (hfield 2 hlen.ge)
    cases hs : (⟨fid, [block, number], 2⟩ : Function).string 0 <;>
      simp [Readable, logFunctionCall, requestOf, hcode, hs, hmode]
  · cases hs : (⟨fid, [block, number], 2⟩ : Function).string 0 <;>
      simp [Readable, logFunctionCall, requestOf, hcode, hs]
  · cases hs : (⟨fid, [block, number], 2⟩ : Function).string 0 <;>
      simp [Readable, logFunctionCall, requestOf, hcode, hs]
  · -- the log reads four bytes of the length, execute all of them
    have hfour : 4 ≤ number.length := by
      rw [hlen]
      cases abi <;> decide
    obtain ⟨logged, hlogged⟩ := Option.isSome_iff_exists.mp (hfield 4 hfour)
    obtain ⟨size, hsize⟩ := Option.isSome_iff_exists.mp (hfield _ hlen.ge)
    cases hs : (⟨fid, [block, number], 2⟩ : Function).string 0 <;>
      simp [Readable, logFunctionCall, requestOf, hcode, hs, hlogged, hsize]

/-- INTERNAL: a function of two paths. -/
theorem readable_rename {fid : ℕ} {oldPath newPath : List UInt8}
    (hcode : Identifier.ofCode fid = some .rename) :
    Readable abi ⟨fid, [oldPath, newPath], 2⟩ ↔ (0 : UInt8) ∈ oldPath ∧ (0 : UInt8) ∈ newPath := by
  rw [← string_isSome ⟨fid, [oldPath, newPath], 2⟩ 0 rfl,
    ← string_isSome ⟨fid, [oldPath, newPath], 2⟩ 1 rfl]
  cases hold : (⟨fid, [oldPath, newPath], 2⟩ : Function).string 0 <;>
    cases hnew : (⟨fid, [oldPath, newPath], 2⟩ : Function).string 1 <;>
    simp [Readable, logFunctionCall, requestOf, hcode, hold, hnew]

/-- INTERNAL: a descriptor is read from the first two bytes of the block. -/
theorem readable_close {fid : ℕ} {fd : List UInt8}
    (hcode : Identifier.ofCode fid = some .close) :
    Readable abi ⟨fid, [fd], 1⟩ ↔ 2 ≤ fd.length := by
  rw [← field_isSome ⟨fid, [fd], 1⟩ 2 0 rfl]
  cases hs : (⟨fid, [fd], 1⟩ : Function).field 2 0 <;>
    simp [Readable, logFunctionCall, requestOf, hcode, hs]

/-- INTERNAL: the fields of a READ are read from blocks of their widths. -/
theorem readable_read {fid : ℕ} {fd count offset : List UInt8}
    (hcode : Identifier.ofCode fid = some .read) (hfd : fd.length = 2) (hcount : count.length = 4)
    (hoffset : offset.length = 4) : Readable abi ⟨fid, [fd, count, offset], 3⟩ := by
  have hfield := fun width j block (h : [fd, count, offset][j]? = some block) =>
    (field_isSome ⟨fid, [fd, count, offset], 3⟩ width j h).mpr
  obtain ⟨a, ha⟩ := Option.isSome_iff_exists.mp (hfield 2 0 fd rfl hfd.ge)
  obtain ⟨b, hb⟩ := Option.isSome_iff_exists.mp (hfield 4 1 count rfl hcount.ge)
  obtain ⟨c, hc⟩ := Option.isSome_iff_exists.mp (hfield 4 2 offset rfl hoffset.ge)
  simp [Readable, logFunctionCall, requestOf, hcode, ha, hb, hc]

/-- INTERNAL: the buffer of a WRITE has the length that the count says. -/
theorem readable_write {fid : ℕ} {fd buffer count offset : List UInt8}
    (hcode : Identifier.ofCode fid = some .write) (hfd : fd.length = 2)
    (hcount : count.length = 4) (hbuffer : buffer.length = fromLe count)
    (hoffset : offset.length = 4) :
    Readable abi ⟨fid, [fd, buffer, count, offset], 4⟩ := by
  have hfield := fun width j block (h : [fd, buffer, count, offset][j]? = some block) =>
    (field_isSome ⟨fid, [fd, buffer, count, offset], 4⟩ width j h).mpr
  obtain ⟨a, ha⟩ := Option.isSome_iff_exists.mp (hfield 2 0 fd rfl hfd.ge)
  obtain ⟨d, hd⟩ := Option.isSome_iff_exists.mp (hfield 4 3 offset rfl hoffset.ge)
  obtain ⟨c, hc⟩ := Option.isSome_iff_exists.mp
    (hfield (fromLe count) 1 buffer rfl hbuffer.ge)
  have hb : (⟨fid, [fd, buffer, count, offset], 4⟩ : Function).field 4 2 = some count := by
    simp [Function.field, peek, hcount]
  simp [Readable, logFunctionCall, requestOf, hcode, ha, hb, hc, hd]

/-! ## The whole way of a package -/

/-- The call that the server makes for a package, from the package to `execute`. -/
def served (abi : Abi) (package : Package) : Option (Option Request) := do
  let funcion ← deserialize abi.offT package
  let funcion ← funcion
  logFunctionCall funcion
  requestOf abi funcion

/-- INTERNAL: a package of a known kind is served when its decoder stays inside the data and
the function it builds is read inside its arguments. SRCLINE: server.c:81-92 -/
theorem served_code (hid : package.messageId = i.code) (hi : i ≠ .sac) :
    (served abi package).isSome ↔
      ∃ function, decoder abi.offT i package = some function ∧ Readable abi function := by
  rw [served, deserialize_code _ hid hi]
  cases decoder abi.offT i package with
  | none => simp
  | some function =>
    simp only [Option.map_some, Option.bind_eq_bind, Option.bind_some, Readable, Option.some.injEq,
      exists_eq_left']
    cases hlog : logFunctionCall function <;> simp

theorem served_pathAnd {width : ℕ} (hcode : Identifier.ofCode (functionIdOf package) = some i)
    (hi : i = .open ∧ width = 2 ∨ i = .mkdir ∨ i = .stat ∨
      i = .truncate ∧ width = abi.offT.size) :
    (∃ function, deserializePathAnd width package = some function ∧ Readable abi function) ↔
      StringAt package.data 0 ∧ 2 + lengthAt package.data 0 + width ≤ package.data.length := by
  have hnumber : ∀ h : 2 + lengthAt package.data 0 + width ≤ package.data.length,
      (piece package.data (2 + lengthAt package.data 0) width).length = width := length_piece
  simp only [deserializePathAnd_eq_some, StringAt]
  constructor
  · rintro ⟨_, ⟨hlen, rfl⟩, hread⟩
    rw [readable_pathAnd (i := i) (by rw [hnumber hlen]; exact hi) hcode] at hread
    exact ⟨⟨by omega, hread⟩, hlen⟩
  · rintro ⟨⟨-, hnul⟩, hlen⟩
    refine ⟨_, ⟨hlen, rfl⟩, ?_⟩
    rw [readable_pathAnd (i := i) (by rw [hnumber hlen]; exact hi) hcode]
    exact hnul

theorem served_path (hcode : Identifier.ofCode (functionIdOf package) = some i)
    (hi : i = .remove ∨ i = .rmdir ∨ i = .readdir) :
    (∃ function, deserializeRemove package = some function ∧ Readable abi function) ↔
      StringAt package.data 0 := by
  simp only [deserializeRemove_eq_some, StringAt]
  constructor
  · rintro ⟨_, ⟨hlen, rfl⟩, hread⟩
    rw [readable_path hi hcode] at hread
    exact ⟨by omega, hread⟩
  · rintro ⟨hlen, hnul⟩
    refine ⟨_, ⟨by omega, rfl⟩, ?_⟩
    rw [readable_path hi hcode]
    exact hnul

theorem served_rename (hcode : Identifier.ofCode (functionIdOf package) = some .rename) :
    (∃ function, deserializeRename package = some function ∧ Readable abi function) ↔
      StringAt package.data 0 ∧ StringAt package.data (2 + lengthAt package.data 0) := by
  simp only [deserializeRename_eq_some, StringAt]
  constructor
  · rintro ⟨_, ⟨hlen, rfl⟩, hread⟩
    rw [readable_rename hcode] at hread
    exact ⟨⟨by omega, hread.1⟩, by omega, hread.2⟩
  · rintro ⟨⟨-, hold⟩, hlen, hnew⟩
    refine ⟨_, ⟨by omega, rfl⟩, ?_⟩
    rw [readable_rename hcode]
    exact ⟨hold, hnew⟩

theorem served_close (hcode : Identifier.ofCode (functionIdOf package) = some .close)
    (hsize : package.data.length = package.size) :
    (∃ function, deserializeClose package = some function ∧ Readable abi function) ↔
      2 ≤ package.data.length := by
  have hfd : (piece package.data 0 package.size).length = package.size := length_piece (by omega)
  simp only [deserializeClose_eq_some]
  constructor
  · rintro ⟨_, ⟨-, rfl⟩, hread⟩
    rw [readable_close hcode, hfd] at hread
    omega
  · intro hlen
    refine ⟨_, ⟨by omega, rfl⟩, ?_⟩
    rw [readable_close hcode, hfd]
    omega

theorem served_read (hcode : Identifier.ofCode (functionIdOf package) = some .read) :
    (∃ function, deserializeRead package = some function ∧ Readable abi function) ↔
      10 ≤ package.data.length := by
  simp only [deserializeRead_eq_some]
  constructor
  · rintro ⟨_, ⟨hlen, rfl⟩, -⟩
    exact hlen
  · intro hlen
    exact ⟨_, ⟨hlen, rfl⟩, readable_read hcode (length_piece (by omega))
      (length_piece (by omega)) (length_piece (by omega))⟩

theorem served_write (hcode : Identifier.ofCode (functionIdOf package) = some .write) :
    (∃ function, deserializeWrite package = some function ∧ Readable abi function) ↔
      10 + fromLe (piece package.data 2 4) ≤ package.data.length := by
  simp only [deserializeWrite_eq_some]
  constructor
  · rintro ⟨_, ⟨hlen, rfl⟩, -⟩
    exact hlen
  · intro hlen
    exact ⟨_, ⟨hlen, rfl⟩, readable_write hcode (length_piece (by omega))
      (length_piece (by omega)) (length_piece (by omega)) (length_piece (by omega))⟩

/-- INTERNAL: **which packages are served**, by their kind. SRCLINE: serialization.c:138-286 -/
theorem served_isSome (hsize : package.data.length = package.size) :
    (served abi package).isSome ↔ Complete abi.offT package := by
  by_cases hknown : ∃ i : Identifier, i ≠ .sac ∧ package.messageId = i.code
  · obtain ⟨i, hi, hid⟩ := hknown
    have hcode := ofCode_functionId hid
    have hcomplete : Complete abi.offT package ↔ HasArguments abi.offT package.data i := by
      constructor
      · rintro ⟨j, hj, h⟩
        have hij : Identifier.ofCode (functionIdOf package) = some j := ofCode_functionId hj
        rw [hcode, Option.some.injEq] at hij
        rw [hij]
        exact h
      · exact fun h => ⟨i, hid, h⟩
    rw [served_code hid hi, hcomplete]
    cases i with
    | sac => exact absurd rfl hi
    | «open» => exact served_pathAnd hcode (by simp)
    | close => exact served_close hcode hsize
    | write => exact served_write hcode
    | read => exact served_read hcode
    | remove => exact served_path hcode (by simp)
    | mkdir => exact served_pathAnd hcode (by simp)
    | rmdir => exact served_path hcode (by simp)
    | stat => exact served_pathAnd hcode (by simp)
    | readdir => exact served_path hcode (by simp)
    | rename => exact served_rename hcode
    | truncate => exact served_pathAnd hcode (by simp)
  · have hunknown : ∀ i : Identifier, i ≠ .sac → package.messageId ≠ i.code :=
      fun i hi hid => hknown ⟨i, hi, hid⟩
    rw [served, deserialize_unknown _ hunknown]
    constructor
    · intro h
      cases h
    · rintro ⟨i, hid, h⟩
      cases i with
      | sac => exact h.elim
      | _ => exact absurd hid (hunknown _ (by decide))

/-- INTERNAL: the arguments of a decoded function are copies of bytes of the package. SRCLINE:
serialization.c:167-286 -/
theorem decoder_inside (offT : OffT) (h : decoder offT i package = some function) :
    ∀ block ∈ function.args, block <:+: package.data := by
  have hpiece := piece_isInfix package.data
  cases i with
  | sac => cases h
  | «open» | mkdir | stat | truncate =>
    obtain ⟨-, rfl⟩ := deserializePathAnd_eq_some.mp h
    intro block hblock
    rcases List.mem_pair.mp hblock with rfl | rfl <;> exact hpiece _ _
  | close =>
    obtain ⟨-, rfl⟩ := deserializeClose_eq_some.mp h
    intro block hblock
    rw [List.mem_singleton.mp hblock]
    exact hpiece _ _
  | write =>
    obtain ⟨-, rfl⟩ := deserializeWrite_eq_some.mp h
    intro block hblock
    simp only [List.mem_cons, List.not_mem_nil, or_false] at hblock
    rcases hblock with rfl | rfl | rfl | rfl <;> exact hpiece _ _
  | read =>
    obtain ⟨-, rfl⟩ := deserializeRead_eq_some.mp h
    intro block hblock
    simp only [List.mem_cons, List.not_mem_nil, or_false] at hblock
    rcases hblock with rfl | rfl | rfl <;> exact hpiece _ _
  | remove | rmdir | readdir =>
    obtain ⟨-, rfl⟩ := deserializeRemove_eq_some.mp h
    intro block hblock
    rw [List.mem_singleton.mp hblock]
    exact hpiece _ _
  | rename =>
    obtain ⟨-, rfl⟩ := deserializeRename_eq_some.mp h
    intro block hblock
    rcases List.mem_pair.mp hblock with rfl | rfl <;> exact hpiece _ _

/-- INTERNAL: the answer to a package, by the call it makes. SRCLINE: server.c:81-92 -/
theorem attendConnection_eq (abi : Abi) (package : Package) :
    attendConnection abi package =
      match served abi package with
      | none => throw .memory
      | some none => pure (createDefaultPackage (-1))
      | some (some request) => perform abi request := by
  unfold attendConnection served execute
  cases deserialize abi.offT package with
  | none => rfl
  | some funcion =>
    cases funcion with
    | none => rfl
    | some funcion =>
      simp only [checked, pure_bind, Option.bind_eq_bind, Option.bind_some]
      cases logFunctionCall funcion with
      | none => rfl
      | some _ =>
        simp only [pure_bind, Option.bind_some]
        cases requestOf abi funcion with
        | none => rfl
        | some request => cases request <;> rfl

/-- INTERNAL: a package that is served is executed. -/
theorem executed_of_served {request : Request} (h : served abi package = some (some request)) :
    ∃ function, Executed abi package function request := by
  have hanswer := attendConnection_eq abi package
  rw [h] at hanswer
  simp only [served, Option.bind_eq_bind, Option.bind_eq_some_iff] at h
  obtain ⟨_, hdecoded, function, rfl, _, hlogged, hrequested⟩ := h
  refine ⟨function, hdecoded, ?_, requestOf_strings hrequested, hlogged, hrequested, hanswer⟩
  by_cases hknown : ∃ i : Identifier, i ≠ .sac ∧ package.messageId = i.code
  · obtain ⟨i, hi, hid⟩ := hknown
    rw [deserialize_code _ hid hi, Option.map_eq_some_iff] at hdecoded
    obtain ⟨_, hdecoder, e⟩ := hdecoded
    cases e
    exact decoder_inside _ hdecoder
  · rw [deserialize_unknown _ fun i hi hid => hknown ⟨i, hi, hid⟩] at hdecoded
    cases hdecoded

/-- **A package is answered exactly when it is complete**: it is a request of one of the eleven
kinds, and all its strings, with their NUL, and fields lie inside its data. SRCLINE:
server.c:74-162, serialization.c:138-286, log.c:42-83 -/
theorem attend_connection_answers_iff (abi : Abi) (package : Package)
    (hsize : package.data.length = package.size) :
    Answered abi package ↔ Complete abi.offT package := by
  rw [← served_isSome hsize]
  constructor
  · rintro (⟨function, request, h⟩ | ⟨response, -, h⟩)
    · have hserved : served abi package = some (some request) := by
        simp only [served, h.decoded, h.logged, h.requested, Option.bind_eq_bind, Option.bind_some]
      rw [hserved]
      rfl
    · by_contra hnone
      rw [Option.not_isSome_iff_eq_none] at hnone
      rw [attendConnection_eq, hnone] at h
      have := congrFun h ⟨fun _ _ => 0, fun _ => 0, ⟨fun _ _ => 0, fun _ => 0, 0⟩⟩
      cases this
  · intro h
    obtain ⟨answer, hserved⟩ := Option.isSome_iff_exists.mp h
    cases answer with
    | none =>
      refine Or.inr ⟨createDefaultPackage (-1), by decide, ?_⟩
      rw [attendConnection_eq, hserved]
    | some request =>
      obtain ⟨function, hexecuted⟩ := executed_of_served hserved
      exact Or.inl ⟨function, request, hexecuted⟩

/-- The statement at a REMOVE of `/a`. -/
theorem attend_connection_answers_remove : Answered .ilp32 ⟨5, 5, [3, 0, 47, 97, 0]⟩ := by
  apply (attend_connection_answers_iff .ilp32 ⟨5, 5, [3, 0, 47, 97, 0]⟩ rfl).mpr
  exact ⟨.remove, rfl, by decide, by decide⟩

/-- A package without data under an unknown message makes the server dereference NULL. SRCLINE:
serialization.c:162-163, server.c:83-85 -/
theorem unknown_message_not_answered : ¬ Answered .lp64 ⟨12, 0, []⟩ := by
  have hserved : served .lp64 ⟨12, 0, []⟩ = none := rfl
  have hattend := attendConnection_eq .lp64 ⟨12, 0, []⟩
  rw [hserved] at hattend
  rintro (⟨function, request, h⟩ | ⟨response, -, h⟩)
  · cases h.decoded
  · rw [hattend] at h
    have := congrFun h ⟨fun _ _ => 0, fun _ => 0, ⟨fun _ _ => 0, fun _ => 0, 0⟩⟩
    cases this

end Requests

end LinuseFs.Analysis
