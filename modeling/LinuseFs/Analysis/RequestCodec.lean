import LinuseFs.Model.Serialization

/-!
# The round trip of a request

Each encoder fills its package exactly (`serializePath_eq` and its companions), each
package that is exactly filled is received as it was sent (`receivePackage_send`), and
each decoder takes the arguments back out.  Two pairs do not match: the package of a STAT
is read by the decoder of OPEN, which looks for a mode behind the path, and the encoder of
WRITE places the buffer and the offset behind `sizeof(size_t)` bytes of count, where the
package has room for four and the decoder expects them behind four.
-/

set_option autoImplicit false

namespace LinuseFs.Analysis

open LinuseFs.Computation LinuseFs.Model

/-! ## What is carried -/

/-- An argument of a request, as a value. -/
inductive Arg
  | string (s : CString)
  | bytes (l : List UInt8)
  | unsigned (width : ℕ) (n : ℤ)
  | signed (width : ℕ) (n : ℤ)

/-- The block stands for the value. -/
def Arg.IsImage : Arg → List UInt8 → Prop
  | .string s, block => block = s.val ++ [0]
  | .bytes l, block => block = l
  | .unsigned width n, block => block.length = width ∧ (fromLe block : ℤ) = n
  | .signed width n, block => block.length = width ∧ fromLeInt block = n

/-- The value is one its wire type can hold. -/
def Arg.Fits : Arg → Prop
  | .string s => s.val.length ≤ 65532
  | .bytes l => l.length + 10 < 2 ^ 32
  | .unsigned width n => 0 ≤ n ∧ n < 256 ^ width
  | .signed width n => -(256 ^ width) ≤ n * 2 ∧ n * 2 < 256 ^ width

/-- The arguments of a request in the order of `t_function`, at their wire types. -/
def args (offT : OffT) : Request → List Arg
  | .open path mode => [.string path, .signed sizeMode mode]
  | .close fd => [.unsigned sizeFd fd]
  | .write fd buffer offset =>
    [.unsigned sizeFd fd, .bytes buffer, .unsigned sizeBuffer buffer.length,
      .unsigned sizeOffset offset]
  | .read fd count offset =>
    [.unsigned sizeFd fd, .unsigned sizeBuffer count, .unsigned sizeOffset offset]
  | .remove path => [.string path]
  | .mkdir path mode => [.string path, .signed sizeMode mode]
  | .rmdir path => [.string path]
  | .stat path => [.string path]
  | .readdir path => [.string path]
  | .rename oldPath newPath => [.string oldPath, .string newPath]
  | .truncate path size => [.string path, .signed offT.size size]

/-- The function is the call of the request. -/
structure Carries (offT : OffT) (request : Request) (function : Function) : Prop where
  functionId : (function.functionId : ℤ) = request.identifier.code
  count : function.count = (args offT request).length
  args : List.Forall₂ Arg.IsImage (args offT request) function.args

/-- INTERNAL: an image of a number that fits stands for it. -/
theorem isImage_unsigned {width : ℕ} {n : ℤ} (h : (Arg.unsigned width n).Fits) :
    (Arg.unsigned width n).IsImage (leInt width n) :=
  ⟨length_leInt _ _, fromLe_leInt h.1 h.2⟩

theorem isImage_signed {width : ℕ} {n : ℤ} (h : (Arg.signed width n).Fits) :
    (Arg.signed width n).IsImage (leInt width n) :=
  ⟨length_leInt _ _, fromLeInt_leInt h.1 h.2⟩

/-! ## Packages on the wire -/

/-- The package fills its data exactly and its fields fit. -/
structure Filled (package : Package) : Prop where
  messageId : -(256 ^ 8) ≤ package.messageId * 2 ∧ package.messageId * 2 < 256 ^ 8
  size : package.size < 2 ^ 32
  data : package.data.length = package.size

/-- INTERNAL: a package under the code of a request is filled when its data has its
size. -/
theorem filled_of_length (i : Identifier) {n : ℕ} {data : List UInt8} (hn : n < 2 ^ 32)
    (hdata : data.length = n) : Filled ⟨i.code, n, data⟩ := by
  have hcode : -(256 ^ 8) ≤ i.code * 2 ∧ i.code * 2 < 256 ^ 8 := by cases i <;> decide
  exact ⟨hcode, hn, hdata⟩

/-- INTERNAL: **a package is received as it was sent**, and what follows it stays in the
socket. SRCLINE: serialization.c:12-29 -/
theorem receivePackage_send {package : Package} (h : Filled package) (rest : List UInt8) :
    ∃ bytes, sendPackage package = some bytes ∧
      receivePackage (bytes ++ rest) = some (package, rest) := by
  obtain ⟨hid, hsize, hdata⟩ := h
  refine ⟨leInt 8 package.messageId ++ le 4 package.size ++ package.data, ?_, ?_⟩
  · unfold sendPackage
    split
    next hpos =>
      have hpeek : peek package.data 0 package.size = some package.data := by
        have := peek_append (a := []) (c := []) (b := package.data) (p := 0) rfl hdata.symm
        simpa using this
      simp only [hpeek, Option.bind_eq_bind, Option.bind_some, pure]
    next hzero =>
      have hnil : package.data = [] := List.eq_nil_of_length_eq_zero (by omega)
      rw [hnil, List.append_nil]
      rfl
  · have hlen8 : (leInt 8 package.messageId).length = 8 := length_leInt _ _
    have hlen4 : (le 4 package.size).length = 4 := length_le _ _
    have hsize' : fromLe (le 4 package.size) = package.size := fromLe_le_of_lt hsize
    have h1 : peek (leInt 8 package.messageId ++ le 4 package.size ++ package.data ++ rest) 0 8 =
        some (leInt 8 package.messageId) := by
      have := peek_append (a := []) (b := leInt 8 package.messageId)
        (c := le 4 package.size ++ package.data ++ rest) (p := 0) rfl hlen8.symm
      simpa only [List.nil_append, List.append_assoc] using this
    have h2 : peek (leInt 8 package.messageId ++ le 4 package.size ++ package.data ++ rest) 8 4 =
        some (le 4 package.size) := by
      have := peek_append (a := leInt 8 package.messageId) (b := le 4 package.size)
        (c := package.data ++ rest) hlen8.symm hlen4.symm
      simpa only [List.append_assoc] using this
    have hlen12 : (leInt 8 package.messageId ++ le 4 package.size).length = 12 := by
      rw [List.length_append, hlen8, hlen4]
    have h3 : peek (leInt 8 package.messageId ++ le 4 package.size ++ package.data ++ rest) 12
        package.size = some package.data :=
      peek_append hlen12.symm hdata.symm
    have hdrop : (leInt 8 package.messageId ++ le 4 package.size ++ package.data ++ rest).drop
        (12 + package.size) = rest := by
      rw [← hlen12, ← hdata, ← List.length_append, List.drop_left]
    simp only [receivePackage, h1, h2, Option.bind_eq_bind, Option.bind_some, hsize', h3, hdrop,
      fromLeInt_leInt hid.1 hid.2, pure]

/-! ## The encoders -/

/-- A string on the wire: its length with the NUL, and its bytes with the NUL. -/
def encString (s : CString) : List UInt8 := le 2 (s.val.length + 1) ++ (s.val ++ [0])

@[simp] theorem length_encString (s : CString) : (encString s).length = s.val.length + 3 := by
  simp only [encString, List.length_append, length_le, List.length_singleton]
  omega

theorem stringSerializedSize_eq {s : CString} (hs : s.val.length ≤ 65532) :
    stringSerializedSize s = s.val.length + 3 := by
  unfold stringSerializedSize sizeStringLen
  omega

@[simp] theorem length_mallocBlock (fresh : ℕ → UInt8) (n : ℕ) :
    (mallocBlock fresh n).length = n := by simp [mallocBlock]

/-- INTERNAL: `_serialize_string` fills the block with the string on the wire.
SRCLINE: serialization.c:292-296 -/
theorem serializeString_append {s : CString} (hs : s.val.length ≤ 65532)
    {d r : List UInt8} {p : ℕ} (hpos : p = d.length) (hr : s.val.length + 3 ≤ r.length) :
    serializeString s (d ++ r) p = some (d ++ encString s ++ r.drop (s.val.length + 3)) := by
  have hlen : (s.val.length + 1) % 2 ^ 16 = s.val.length + 1 := by omega
  have hle : (le 2 (s.val.length + 1)).length = 2 := length_le _ _
  have hbytes : peek (s.val ++ [0]) 0 (s.val.length + 1) = some (s.val ++ [0]) := by
    have := peek_append (a := []) (b := s.val ++ [0]) (c := []) (p := 0)
      (n := s.val.length + 1) rfl (by simp)
    simpa using this
  have h1 : poke (d ++ r) p (le 2 (s.val.length + 1)) =
      some (d ++ le 2 (s.val.length + 1) ++ r.drop 2) := by
    rw [poke_append hpos (by rw [hle]; omega), hle]
  have h2 : poke (d ++ le 2 (s.val.length + 1) ++ r.drop 2) (p + 2) (s.val ++ [0]) =
      some (d ++ le 2 (s.val.length + 1) ++ (s.val ++ [0]) ++ r.drop (s.val.length + 3)) := by
    rw [poke_append (by rw [List.length_append, hle, hpos]) (by simp; omega), List.drop_drop,
      List.length_append, List.length_singleton,
      show 2 + (s.val.length + 1) = s.val.length + 3 by omega]
  simp only [serializeString, sizeStringLen, hlen, h1, h2, hbytes, Option.bind_eq_bind,
    Option.bind_some]
  rw [encString, List.append_assoc d]

/-- INTERNAL: the last string fills the block. -/
theorem serializeString_fill {s : CString} (hs : s.val.length ≤ 65532)
    {d r : List UInt8} {p : ℕ} (hpos : p = d.length) (hr : s.val.length + 3 = r.length) :
    serializeString s (d ++ r) p = some (d ++ encString s) := by
  rw [serializeString_append hs hpos hr.le, hr, List.drop_length, List.append_nil]

variable {fresh : ℕ → UInt8} {abi : Abi} {offT : OffT}

/-- INTERNAL: a path fills its package. SRCLINE: serialization.c:298-305 -/
theorem serializePath_eq {messageId : Identifier} {path : CString}
    (hs : path.val.length ≤ 65532) :
    serializePath fresh messageId path =
      some { messageId := messageId.code, size := path.val.length + 3
             data := encString path } := by
  have h := serializeString_fill hs (d := [])
    (r := mallocBlock fresh (path.val.length + 3)) (p := 0) rfl (by simp)
  rw [List.nil_append, List.nil_append] at h
  simp only [serializePath, stringSerializedSize_eq hs, h, Option.bind_eq_bind, Option.bind_some,
    pure]

/-- INTERNAL: a path and a number fill their package.
SRCLINE: serialization.c:40-49, serialization.c:95-104, serialization.c:128-136 -/
theorem serializePathAnd_eq {messageId : Identifier} {path : CString} {width : ℕ} {n : ℤ}
    (hs : path.val.length ≤ 65532) :
    serializePathAnd fresh messageId path width n =
      some { messageId := messageId.code, size := path.val.length + 3 + width
             data := encString path ++ leInt width n } := by
  have h1 := serializeString_append hs (d := [])
    (r := mallocBlock fresh (path.val.length + 3 + width)) (p := 0) rfl (by simp)
  rw [List.nil_append, List.nil_append] at h1
  have h2 := poke_fill (d := encString path)
    (r := (mallocBlock fresh (path.val.length + 3 + width)).drop (path.val.length + 3))
    (s := leInt width n) (p := path.val.length + 3) (by simp) (by simp)
  simp only [serializePathAnd, stringSerializedSize_eq hs, h1, h2, Option.bind_eq_bind,
    Option.bind_some, pure]

/-- INTERNAL: two paths fill their package. SRCLINE: serialization.c:118-126 -/
theorem serializeRename_eq {oldPath newPath : CString} (hold : oldPath.val.length ≤ 65532)
    (hnew : newPath.val.length ≤ 65532) :
    serializeRename fresh oldPath newPath =
      some { messageId := Identifier.rename.code
             size := oldPath.val.length + 3 + (newPath.val.length + 3)
             data := encString oldPath ++ encString newPath } := by
  have h1 := serializeString_append hold (d := [])
    (r := mallocBlock fresh (oldPath.val.length + 3 + (newPath.val.length + 3))) (p := 0)
    rfl (by simp)
  rw [List.nil_append, List.nil_append] at h1
  have h2 := serializeString_fill hnew (d := encString oldPath)
    (r := (mallocBlock fresh (oldPath.val.length + 3 + (newPath.val.length + 3))).drop
      (oldPath.val.length + 3)) (p := oldPath.val.length + 3) (by simp) (by simp)
  simp only [serializeRename, stringSerializedSize_eq hold, stringSerializedSize_eq hnew, h1, h2,
    Option.bind_eq_bind, Option.bind_some, pure]

/-- INTERNAL: a descriptor fills its package. SRCLINE: serialization.c:51-59 -/
theorem serializeClose_eq (fd : ℤ) :
    serializeClose fresh fd =
      some { messageId := Identifier.close.code, size := 2, data := leInt 2 fd } := by
  have h := poke_fill (d := []) (r := mallocBlock fresh 2) (s := leInt 2 fd)
    (p := 0) rfl (by simp)
  rw [List.nil_append, List.nil_append] at h
  simp only [serializeClose, sizeFd, h, Option.bind_eq_bind, Option.bind_some, pure]

/-- INTERNAL: the three numbers of a READ fill its package.
SRCLINE: serialization.c:76-89 -/
theorem serializeRead_eq (fd count offset : ℤ) :
    serializeRead fresh fd count offset =
      some { messageId := Identifier.read.code, size := 10
             data := leInt 2 fd ++ leInt 4 count ++ leInt 4 offset } := by
  have h1 := poke_append (d := []) (r := mallocBlock fresh 10) (s := leInt 2 fd)
    (p := 0) rfl (by simp)
  rw [List.nil_append, List.nil_append, length_leInt] at h1
  have h2 := poke_append (d := leInt 2 fd) (r := (mallocBlock fresh 10).drop 2)
    (s := leInt 4 count) (p := 2) (by simp) (by simp)
  rw [length_leInt, List.drop_drop] at h2
  have h3 := poke_fill (d := leInt 2 fd ++ leInt 4 count)
    (r := (mallocBlock fresh 10).drop (2 + 4))
    (s := leInt 4 offset) (p := 6) (by simp) (by simp)
  simp only [serializeRead, sizeFd, sizeBuffer, sizeOffset, Nat.reduceAdd, h1, h2, h3,
    Option.bind_eq_bind, Option.bind_some, pure]

/-! ## The decoders -/

section Decode

variable {messageId : ℤ} {size : ℕ}

/-- INTERNAL: the length of a string on the wire. -/
theorem peek_encString_length (s : CString) (tail : List UInt8) :
    peek (encString s ++ tail) 0 2 = some (le 2 (s.val.length + 1)) := by
  have := peek_append (a := []) (b := le 2 (s.val.length + 1)) (c := s.val ++ [0] ++ tail)
    (p := 0) (n := 2) rfl (by simp)
  simpa only [List.nil_append, encString, List.append_assoc] using this

/-- INTERNAL: the bytes of a string on the wire. -/
theorem peek_encString_bytes (s : CString) (tail : List UInt8) :
    peek (encString s ++ tail) 2 (s.val.length + 1) = some (s.val ++ [0]) :=
  peek_append (a := le 2 (s.val.length + 1)) (by simp) (by simp)

theorem fromLe_length {s : CString} (hs : s.val.length ≤ 65532) :
    fromLe (le 2 (s.val.length + 1)) = s.val.length + 1 :=
  fromLe_le_of_lt (by omega)

/-- INTERNAL: the path of a package is taken out. SRCLINE: serialization.c:227-237 -/
theorem deserializeRemove_eq {path : CString} (hs : path.val.length ≤ 65532) :
    deserializeRemove ⟨messageId, size, encString path⟩ =
      some ⟨(messageId % 2 ^ 8).toNat, [path.val ++ [0]], 1⟩ := by
  have h1 := peek_encString_length path []
  have h2 := peek_encString_bytes path []
  rw [List.append_nil] at h1 h2
  simp only [deserializeRemove, sizeStringLen, h1, h2, Option.bind_eq_bind, Option.bind_some,
    fromLe_length hs, functionIdOf, pure]

/-- INTERNAL: a path and the number behind it are taken out.
SRCLINE: serialization.c:167-183, serialization.c:270-286 -/
theorem deserializePathAnd_eq {path : CString} (hs : path.val.length ≤ 65532) (width : ℕ)
    (n : ℤ) :
    deserializePathAnd width ⟨messageId, size, encString path ++ leInt width n⟩ =
      some ⟨(messageId % 2 ^ 8).toNat, [path.val ++ [0], leInt width n], 2⟩ := by
  have h3 : peek (encString path ++ leInt width n) (2 + (path.val.length + 1)) width =
      some (leInt width n) := by
    have := peek_append (a := encString path) (b := leInt width n) (c := [])
      (p := 2 + (path.val.length + 1)) (n := width) (by simp; omega) (by simp)
    rwa [List.append_nil] at this
  simp only [deserializePathAnd, sizeStringLen, peek_encString_length, peek_encString_bytes, h3,
    Option.bind_eq_bind, Option.bind_some, fromLe_length hs, functionIdOf, pure]

/-- INTERNAL: **a number looked for behind the data** is read outside the package.
SRCLINE: serialization.c:181, serialization.c:247-249 -/
theorem deserializePathAnd_eq_none {path : CString} (hs : path.val.length ≤ 65532) {width : ℕ}
    (hwidth : 0 < width) :
    deserializePathAnd width ⟨messageId, size, encString path⟩ = none := by
  have h1 := peek_encString_length path []
  have h2 := peek_encString_bytes path []
  rw [List.append_nil] at h1 h2
  have h3 : peek (encString path) (2 + (path.val.length + 1)) width = none :=
    peek_eq_none (by simp; omega)
  simp only [deserializePathAnd, sizeStringLen, h1, h2, h3, Option.bind_eq_bind,
    Option.bind_some, fromLe_length hs, Option.bind_none]

/-- INTERNAL: two paths are taken out. SRCLINE: serialization.c:255-268 -/
theorem deserializeRename_eq {oldPath newPath : CString} (hold : oldPath.val.length ≤ 65532)
    (hnew : newPath.val.length ≤ 65532) :
    deserializeRename ⟨messageId, size, encString oldPath ++ encString newPath⟩ =
      some ⟨(messageId % 2 ^ 8).toNat, [oldPath.val ++ [0], newPath.val ++ [0]], 2⟩ := by
  have h3 : peek (encString oldPath ++ encString newPath) (2 + (oldPath.val.length + 1)) 2 =
      some (le 2 (newPath.val.length + 1)) := by
    have := peek_append (a := encString oldPath) (b := le 2 (newPath.val.length + 1))
      (c := newPath.val ++ [0]) (p := 2 + (oldPath.val.length + 1)) (n := 2)
      (by simp; omega) (by simp)
    rwa [List.append_assoc] at this
  have h4 : peek (encString oldPath ++ encString newPath) (2 + (oldPath.val.length + 1) + 2)
      (newPath.val.length + 1) = some (newPath.val ++ [0]) := by
    have := peek_append (a := encString oldPath ++ le 2 (newPath.val.length + 1))
      (b := newPath.val ++ [0]) (c := []) (p := 2 + (oldPath.val.length + 1) + 2)
      (n := newPath.val.length + 1) (by simp; omega) (by simp)
    rwa [List.append_nil, List.append_assoc] at this
  simp only [deserializeRename, sizeStringLen, peek_encString_length, peek_encString_bytes, h3,
    h4, Option.bind_eq_bind, Option.bind_some, fromLe_length hold, fromLe_length hnew,
    functionIdOf, pure]

/-- INTERNAL: a descriptor is taken out. SRCLINE: serialization.c:185-193 -/
theorem deserializeClose_eq (fd : ℤ) :
    deserializeClose ⟨messageId, 2, leInt 2 fd⟩ =
      some ⟨(messageId % 2 ^ 8).toNat, [leInt 2 fd], 1⟩ := by
  have h : peek (leInt 2 fd) 0 2 = some (leInt 2 fd) := by
    have := peek_append (a := []) (b := leInt 2 fd) (c := []) (p := 0) (n := 2) rfl (by simp)
    simpa using this
  simp only [deserializeClose, h, Option.bind_eq_bind, Option.bind_some, functionIdOf, pure]

/-- INTERNAL: the three numbers of a READ are taken out.
SRCLINE: serialization.c:212-225 -/
theorem deserializeRead_eq (fd count offset : ℤ) :
    deserializeRead ⟨messageId, size, leInt 2 fd ++ leInt 4 count ++ leInt 4 offset⟩ =
      some ⟨(messageId % 2 ^ 8).toNat, [leInt 2 fd, leInt 4 count, leInt 4 offset], 3⟩ := by
  have h1 : peek (leInt 2 fd ++ leInt 4 count ++ leInt 4 offset) 0 2 = some (leInt 2 fd) := by
    have := peek_append (a := []) (b := leInt 2 fd) (c := leInt 4 count ++ leInt 4 offset)
      (p := 0) (n := 2) rfl (by simp)
    simpa using this
  have h2 : peek (leInt 2 fd ++ leInt 4 count ++ leInt 4 offset) 2 4 = some (leInt 4 count) :=
    peek_append (by simp) (by simp)
  have h3 : peek (leInt 2 fd ++ leInt 4 count ++ leInt 4 offset) (2 + 4) 4 =
      some (leInt 4 offset) := by
    have := peek_append (a := leInt 2 fd ++ leInt 4 count) (b := leInt 4 offset) (c := [])
      (p := 2 + 4) (n := 4) (by simp) (by simp)
    rwa [List.append_nil] at this
  simp only [deserializeRead, sizeFd, sizeBuffer, sizeOffset, h1, h2, h3, Option.bind_eq_bind,
    Option.bind_some, functionIdOf, pure]

end Decode

/-! ## The round trip -/

/-- The bytes that the client sends for the request are split by two calls of
`receive_package` into the handshake and the package of the request, with nothing left,
and `deserialize` takes the call out of the package, reading inside its data only. -/
def RoundTrip (fresh : ℕ → UInt8) (abi : Abi) (offT : OffT) (request : Request) : Prop :=
  ∃ stream package rest function,
    sendFunction fresh abi offT request = some stream ∧
    serialize fresh abi offT request = some package ∧
    receivePackage stream = some (handshake, rest) ∧
    receivePackage rest = some (package, []) ∧
    deserialize offT package = some (some function) ∧
    Carries offT request function

/-- INTERNAL: a package that is exactly filled survives the transport, so the round trip
is the decoding of the package. -/
theorem roundTrip_iff {request : Request} {package : Package}
    (hserialize : serialize fresh abi offT request = some package) (hfilled : Filled package) :
    RoundTrip fresh abi offT request ↔
      ∃ function, deserialize offT package = some (some function) ∧
        Carries offT request function := by
  constructor
  · rintro ⟨stream, package', rest, function, -, hserialize', -, -, hdecode, hcarries⟩
    rw [hserialize, Option.some.injEq] at hserialize'
    exact ⟨function, hserialize' ▸ hdecode, hcarries⟩
  · rintro ⟨function, hdecode, hcarries⟩
    obtain ⟨bytes, hsend, hreceive⟩ := receivePackage_send hfilled []
    have hfilled' : Filled handshake := filled_of_length .sac (by decide) rfl
    obtain ⟨hello, hsend', hreceive'⟩ := receivePackage_send hfilled' bytes
    rw [List.append_nil] at hreceive
    refine ⟨hello ++ bytes, package, bytes, function, ?_, hserialize, hreceive', hreceive,
      hdecode, hcarries⟩
    simp only [sendFunction, hserialize, hsend, hsend', Option.bind_eq_bind, Option.bind_some,
      pure]

/-- INTERNAL: a filled package of a request whose decoding carries the request. -/
theorem RoundTrip.of_decode {request : Request} {package : Package} {function : Function}
    (hserialize : serialize fresh abi offT request = some package) (hfilled : Filled package)
    (hdecode : deserialize offT package = some (some function))
    (hcarries : Carries offT request function) : RoundTrip fresh abi offT request :=
  (roundTrip_iff hserialize hfilled).mpr ⟨function, hdecode, hcarries⟩

/-- INTERNAL: a request of one path that is decoded by `deserialize_remove`. -/
theorem roundTrip_path {request : Request} {path : CString} (hs : path.val.length ≤ 65532)
    (hargs : args offT request = [.string path])
    (hserialize : serialize fresh abi offT request =
      serializePath fresh request.identifier path)
    (hdecode : ∀ size data, deserialize offT ⟨request.identifier.code, size, data⟩ =
      (deserializeRemove ⟨request.identifier.code, size, data⟩).map some) :
    RoundTrip fresh abi offT request := by
  rw [serializePath_eq hs] at hserialize
  refine RoundTrip.of_decode hserialize (filled_of_length _ (by omega) (by simp))
    (by rw [hdecode, deserializeRemove_eq hs]; rfl) ⟨?_, by rw [hargs]; rfl, ?_⟩
  · cases request <;> rfl
  · rw [hargs]
    exact .cons rfl .nil

/-- INTERNAL: a request of a path and a number that is decoded by `deserialize_open` or
`deserialize_truncate`. -/
theorem roundTrip_pathAnd {request : Request} {path : CString} {width : ℕ} {n : ℤ}
    (hwidth : width ≤ 8) (hs : path.val.length ≤ 65532) (hn : (Arg.signed width n).Fits)
    (hargs : args offT request = [.string path, .signed width n])
    (hserialize : serialize fresh abi offT request =
      serializePathAnd fresh request.identifier path width n)
    (hdecode : ∀ size data, deserialize offT ⟨request.identifier.code, size, data⟩ =
      (deserializePathAnd width ⟨request.identifier.code, size, data⟩).map some) :
    RoundTrip fresh abi offT request := by
  rw [serializePathAnd_eq hs] at hserialize
  refine RoundTrip.of_decode hserialize (filled_of_length _ (by omega) (by simp))
    (by rw [hdecode, deserializePathAnd_eq hs]; rfl) ⟨?_, by rw [hargs]; rfl, ?_⟩
  · cases request <;> rfl
  · rw [hargs]
    exact .cons rfl (.cons (isImage_signed hn) .nil)

/-- INTERNAL: the package of a STAT is read outside its data.
SRCLINE: serialization.c:110-112, serialization.c:247-249 -/
theorem not_roundTrip_stat {path : CString} (hs : path.val.length ≤ 65532) :
    ¬ RoundTrip fresh abi offT (.stat path) := by
  have hserialize : serialize fresh abi offT (.stat path) = _ := serializePath_eq hs
  rw [roundTrip_iff hserialize (filled_of_length .stat (by omega) (by simp))]
  rintro ⟨function, hdecode, -⟩
  have hnone : deserialize offT ⟨Identifier.stat.code, path.val.length + 3, encString path⟩ =
      none := congrArg (Option.map some) (deserializePathAnd_eq_none hs (by decide))
  rw [hnone] at hdecode
  cases hdecode

/-- **The round trip of a request** other than WRITE succeeds for every kind of request
but STAT. SRCLINE: serialization.c:12-305, client.c:21-76 -/
theorem request_round_trip_iff (fresh : ℕ → UInt8) (abi : Abi) (offT : OffT)
    (request : Request) (hkind : request.identifier ≠ .write)
    (hfits : ∀ a ∈ args offT request, a.Fits) :
    RoundTrip fresh abi offT request ↔ request.identifier ≠ .stat := by
  have hoff : offT.size ≤ 8 := by cases offT <;> decide
  cases request with
  | «open» path mode =>
    exact iff_of_true (roundTrip_pathAnd (by decide) (hfits (.string path) (by simp [args]))
      (hfits _ (by simp [args])) rfl rfl fun _ _ => rfl) nofun
  | close fd =>
    have hfd := hfits (.unsigned sizeFd fd) (by simp [args])
    exact iff_of_true (RoundTrip.of_decode (serializeClose_eq fd)
      (filled_of_length _ (by decide) (by simp)) (congrArg (Option.map some) (deserializeClose_eq fd))
      ⟨rfl, rfl, .cons (isImage_unsigned hfd) .nil⟩) nofun
  | write => exact absurd rfl hkind
  | read fd count offset =>
    have hfd := hfits (.unsigned sizeFd fd) (by simp [args])
    have hcount := hfits (.unsigned sizeBuffer count) (by simp [args])
    have hoffset := hfits (.unsigned sizeOffset offset) (by simp [args])
    exact iff_of_true (RoundTrip.of_decode (serializeRead_eq fd count offset)
      (filled_of_length _ (by decide) (by simp))
      (congrArg (Option.map some) (deserializeRead_eq fd count offset))
      ⟨rfl, rfl, .cons (isImage_unsigned hfd) (.cons (isImage_unsigned hcount)
        (.cons (isImage_unsigned hoffset) .nil))⟩) nofun
  | remove path =>
    exact iff_of_true (roundTrip_path (hfits (.string path) (by simp [args])) rfl rfl
      fun _ _ => rfl) nofun
  | mkdir path mode =>
    exact iff_of_true (roundTrip_pathAnd (by decide) (hfits (.string path) (by simp [args]))
      (hfits _ (by simp [args])) rfl rfl fun _ _ => rfl) nofun
  | rmdir path =>
    exact iff_of_true (roundTrip_path (hfits (.string path) (by simp [args])) rfl rfl
      fun _ _ => rfl) nofun
  | stat path =>
    exact iff_of_false (not_roundTrip_stat (hfits (.string path) (by simp [args])))
      fun h => h rfl
  | readdir path =>
    exact iff_of_true (roundTrip_path (hfits (.string path) (by simp [args])) rfl rfl
      fun _ _ => rfl) nofun
  | rename oldPath newPath =>
    have hold : oldPath.val.length ≤ 65532 := hfits (.string oldPath) (by simp [args])
    have hnew : newPath.val.length ≤ 65532 := hfits (.string newPath) (by simp [args])
    exact iff_of_true (RoundTrip.of_decode (serializeRename_eq hold hnew)
      (filled_of_length _ (by omega) (by simp))
      (congrArg (Option.map some) (deserializeRename_eq hold hnew))
      ⟨rfl, rfl, .cons rfl (.cons rfl .nil)⟩) nofun
  | truncate path size =>
    exact iff_of_true (roundTrip_pathAnd hoff (hfits (.string path) (by simp [args]))
      (hfits _ (by simp [args])) rfl rfl fun _ _ => rfl) nofun

/-- The path `/a`. -/
def pathA : CString := ⟨[slash, 97], by decide⟩

/-- The path `/b`. -/
def pathB : CString := ⟨[slash, 98], by decide⟩

/-- The statement at the request to rename `/a` to `/b`. -/
theorem request_round_trip_rename :
    RoundTrip (fun _ => 0) .lp64 .bits64 (.rename pathA pathB) ↔
      (Request.rename pathA pathB).identifier ≠ .stat :=
  request_round_trip_iff _ _ _ _ (by decide) (by
    intro a ha
    simp only [args, List.mem_cons, List.not_mem_nil, or_false] at ha
    rcases ha with rfl | rfl
    · exact (by decide : pathA.val.length ≤ 65532)
    · exact (by decide : pathB.val.length ≤ 65532))

/-- The request to stat `/a` is not taken out of its package.
SRCLINE: serialization.c:247-249 -/
theorem stat_request_not_round_trip :
    ¬ ∀ (fresh : ℕ → UInt8) (abi : Abi) (offT : OffT) (request : Request),
      request.identifier ≠ .write → (∀ a ∈ args offT request, a.Fits) →
      RoundTrip fresh abi offT request := by
  intro h
  have hlen : pathA.val.length ≤ 65532 := by decide
  refine not_roundTrip_stat hlen (h (fun _ => 0) .lp64 .bits64 (.stat pathA) (by decide) ?_)
  intro a ha
  rw [List.mem_singleton.mp ha]
  exact hlen

/-! ## The round trip of a WRITE -/

/-- `serialize_write` writes inside the package it allocated, and `deserialize_write` of
the package reads inside it and gives the arguments back. -/
def WriteRoundTrip (fresh : ℕ → UInt8) (abi : Abi) (fd : ℤ) (buffer : List UInt8)
    (offset : ℤ) : Prop :=
  ∃ package function,
    serializeWrite fresh abi fd buffer offset = some package ∧
    deserializeWrite package = some function ∧
    List.Forall₂ Arg.IsImage
      [.unsigned sizeFd fd, .bytes buffer, .unsigned sizeBuffer buffer.length,
        .unsigned sizeOffset offset] function.args

section Write

variable {fd offset : ℤ} {buffer : List UInt8}

/-- INTERNAL: with a four-byte `size_t` the package is filled.
SRCLINE: serialization.c:61-74 -/
theorem serializeWrite_ilp32 (hcount : buffer.length + 10 < 2 ^ 32) :
    serializeWrite fresh .ilp32 fd buffer offset =
      some { messageId := Identifier.write.code, size := buffer.length + 10
             data := leInt 2 fd ++ le 4 buffer.length ++ buffer ++ leInt 4 offset } := by
  have hscount : buffer.length % 2 ^ 32 = buffer.length := by omega
  have hsize : (2 + 4 + buffer.length + 4) % 2 ^ 32 = buffer.length + 10 := by omega
  have hbytes : peek buffer 0 buffer.length = some buffer := by
    have := peek_append (a := []) (b := buffer) (c := []) (p := 0) rfl rfl
    simpa using this
  have h1 : poke (mallocBlock fresh (buffer.length + 10)) 0 (leInt 2 fd) =
      some (leInt 2 fd ++ (mallocBlock fresh (buffer.length + 10)).drop 2) := by
    have := poke_append (d := []) (r := mallocBlock fresh (buffer.length + 10))
      (s := leInt 2 fd) (p := 0) rfl (by simp)
    simpa using this
  have h2 : poke (leInt 2 fd ++ (mallocBlock fresh (buffer.length + 10)).drop 2) 2
      (le 4 buffer.length) = some (leInt 2 fd ++ le 4 buffer.length ++
        (mallocBlock fresh (buffer.length + 10)).drop 6) := by
    rw [poke_append (by simp) (by simp), length_le, List.drop_drop]
  have h3 : poke (leInt 2 fd ++ le 4 buffer.length ++
      (mallocBlock fresh (buffer.length + 10)).drop 6) (2 + 4) buffer =
      some (leInt 2 fd ++ le 4 buffer.length ++ buffer ++
        (mallocBlock fresh (buffer.length + 10)).drop (6 + buffer.length)) := by
    rw [poke_append (by simp) (by simp), List.drop_drop]
  have h4 : poke (leInt 2 fd ++ le 4 buffer.length ++ buffer ++
      (mallocBlock fresh (buffer.length + 10)).drop (6 + buffer.length))
      (2 + 4 + buffer.length) (leInt 4 offset) =
      some (leInt 2 fd ++ le 4 buffer.length ++ buffer ++ leInt 4 offset) :=
    poke_fill (by simp; omega) (by simp; omega)
  simp only [serializeWrite, sizeFd, sizeBuffer, sizeOffset, Abi.sizeofSizeT, hscount, hsize, h1,
    h2, hbytes, h3, h4, Option.bind_eq_bind, Option.bind_some, pure]

/-- INTERNAL: **with an eight-byte `size_t`** the offset is written behind the package.
SRCLINE: serialization.c:71-72 -/
theorem serializeWrite_lp64 (hcount : buffer.length + 10 < 2 ^ 32) :
    serializeWrite fresh .lp64 fd buffer offset = none := by
  have hscount : buffer.length % 2 ^ 32 = buffer.length := by omega
  have hsize : (2 + 4 + buffer.length + 4) % 2 ^ 32 = buffer.length + 10 := by omega
  have hpoke : ∀ (mem src : List UInt8) (pos : ℕ) mem', poke mem pos src = some mem' →
      mem'.length = mem.length := by
    intro mem src pos mem' h
    obtain ⟨hle, he⟩ := Option.ite_none_right_eq_some.mp h
    rw [← Option.some.inj he, pwrite_length (by omega) src]
    omega
  simp only [serializeWrite, sizeFd, sizeBuffer, sizeOffset, Abi.sizeofSizeT, hscount, hsize,
    Option.bind_eq_bind, Option.bind_eq_none_iff]
  intro data1 h1 data2 h2 bytes _ data3 h3
  have hlen : data3.length = buffer.length + 10 := by
    rw [hpoke _ _ _ _ h3, hpoke _ _ _ _ h2, hpoke _ _ _ _ h1, length_mallocBlock]
  rw [poke_eq_none (by rw [hlen, length_leInt]; omega)]
  simp

/-- INTERNAL: the arguments of a WRITE are taken out. SRCLINE: serialization.c:195-210 -/
theorem deserializeWrite_eq {messageId : ℤ} {size : ℕ}
    (hcount : buffer.length < 2 ^ 32) :
    deserializeWrite ⟨messageId, size,
        leInt 2 fd ++ le 4 buffer.length ++ buffer ++ leInt 4 offset⟩ =
      some ⟨(messageId % 2 ^ 8).toNat,
        [leInt 2 fd, buffer, le 4 buffer.length, leInt 4 offset], 4⟩ := by
  have h1 : peek (leInt 2 fd ++ le 4 buffer.length ++ buffer ++ leInt 4 offset) 0 2 =
      some (leInt 2 fd) := by
    have := peek_append (a := []) (b := leInt 2 fd)
      (c := le 4 buffer.length ++ buffer ++ leInt 4 offset) (p := 0) (n := 2) rfl (by simp)
    simpa only [List.nil_append, List.append_assoc] using this
  have h2 : peek (leInt 2 fd ++ le 4 buffer.length ++ buffer ++ leInt 4 offset) 2 4 =
      some (le 4 buffer.length) := by
    have := peek_append (a := leInt 2 fd) (b := le 4 buffer.length)
      (c := buffer ++ leInt 4 offset) (p := 2) (n := 4) (by simp) (by simp)
    simpa only [List.append_assoc] using this
  have h3 : peek (leInt 2 fd ++ le 4 buffer.length ++ buffer ++ leInt 4 offset) (2 + 4)
      buffer.length = some buffer :=
    peek_append (by simp) rfl
  have h4 : peek (leInt 2 fd ++ le 4 buffer.length ++ buffer ++ leInt 4 offset)
      (2 + 4 + buffer.length) 4 = some (leInt 4 offset) := by
    have := peek_append (a := leInt 2 fd ++ le 4 buffer.length ++ buffer) (b := leInt 4 offset)
      (c := []) (p := 2 + 4 + buffer.length) (n := 4) (by simp; omega) (by simp)
    rwa [List.append_nil] at this
  have hfrom : fromLe (le 4 buffer.length) = buffer.length := fromLe_le_of_lt hcount
  simp only [deserializeWrite, sizeFd, sizeBuffer, sizeOffset, h1, h2, hfrom, h3, h4,
    Option.bind_eq_bind, Option.bind_some, functionIdOf, pure]

/-- **The round trip of a WRITE** succeeds exactly on the builds whose `size_t` has the
four bytes of its wire type; on the others `serialize_write` writes past its package for
every descriptor, buffer and offset.
SRCLINE: serialization.c:61-74, serialization.c:195-210 -/
theorem write_round_trip_iff (fresh : ℕ → UInt8) (abi : Abi)
    (hfd : 0 ≤ fd ∧ fd < 2 ^ 16) (hoffset : 0 ≤ offset ∧ offset < 2 ^ 32)
    (hcount : buffer.length + 10 < 2 ^ 32) :
    WriteRoundTrip fresh abi fd buffer offset ↔ abi.sizeofSizeT = 4 := by
  cases abi with
  | ilp32 =>
    refine iff_of_true ⟨_, _, serializeWrite_ilp32 hcount, deserializeWrite_eq (by omega), ?_⟩ rfl
    have hlen : (Arg.unsigned sizeBuffer buffer.length).IsImage (le 4 buffer.length) :=
      ⟨length_le _ _, congrArg Int.ofNat (fromLe_le_of_lt (by omega))⟩
    exact .cons (isImage_unsigned ⟨hfd.1, hfd.2⟩) (.cons rfl (.cons hlen
      (.cons (isImage_unsigned ⟨hoffset.1, hoffset.2⟩) .nil)))
  | lp64 =>
    refine iff_of_false ?_ (by decide)
    rintro ⟨package, function, hserialize, -⟩
    rw [serializeWrite_lp64 hcount] at hserialize
    cases hserialize

end Write

/-- The statement at a WRITE of one byte. -/
theorem write_round_trip_one_byte :
    WriteRoundTrip (fun _ => 0) .ilp32 3 [65] 0 ↔ Abi.ilp32.sizeofSizeT = 4 :=
  write_round_trip_iff _ _ (by decide) (by decide) (by decide)

/-- With an eight-byte `size_t` the package of a WRITE of no byte is overrun.
SRCLINE: serialization.c:72 -/
theorem write_request_overruns :
    ¬ ∀ (fresh : ℕ → UInt8) (abi : Abi) (fd : ℤ) (buffer : List UInt8) (offset : ℤ),
      0 ≤ fd ∧ fd < 2 ^ 16 → 0 ≤ offset ∧ offset < 2 ^ 32 → buffer.length + 10 < 2 ^ 32 →
      WriteRoundTrip fresh abi fd buffer offset := by
  intro h
  obtain ⟨package, function, hserialize, -⟩ :=
    h (fun _ => 0) .lp64 3 [] 0 (by decide) (by decide) (by decide)
  rw [serializeWrite_lp64 (by decide)] at hserialize
  cases hserialize

end LinuseFs.Analysis
