import LinuseFs.Model.Fuse
import LinuseFs.Analysis.ReaddirReply
import LinuseFs.Analysis.ReadReply
import LinuseFs.Analysis.RequestHandling

/-!
# A call over a connection

`send_function` calls the file system of the server as if it were its own: the request that the
server decodes does what the request of the client does, and the answer arrives with the bytes
that its size counts.  The modes of OPEN and MKDIR are lost on the way, but nobody reads them; of
the length of a TRUNCATE only four bytes arrive.
-/

set_option autoImplicit false

namespace LinuseFs.Analysis

open LinuseFs.Computation LinuseFs.Model

/-- The descriptor is a `size_fd`. -/
def IsDescriptor (fd : ℤ) : Prop := 0 ≤ fd ∧ fd < 2 ^ 16

/-- The arguments are those that a request has room for. -/
def OnWire : Request → Prop
  | .open path _ => path.val.length ≤ 65532
  | .close fd => IsDescriptor fd
  | .write fd buffer offset =>
    IsDescriptor fd ∧ buffer.length + 10 < 2 ^ 32 ∧ 0 ≤ offset ∧ offset < 2 ^ 31
  | .read fd count offset =>
    IsDescriptor fd ∧ (0 ≤ count ∧ count < 2 ^ 32) ∧ 0 ≤ offset ∧ offset < 2 ^ 31
  | .remove path => path.val.length ≤ 65532
  | .mkdir path _ => path.val.length ≤ 65532
  | .rmdir path => path.val.length ≤ 65532
  | .stat path => path.val.length ≤ 65532
  | .readdir path => path.val.length ≤ 65532
  | .rename oldPath newPath => oldPath.val.length ≤ 65532 ∧ newPath.val.length ≤ 65532
  | .truncate path size => path.val.length ≤ 65532 ∧ -2 ^ 31 ≤ size ∧ size < 2 ^ 31

/-! ## The request -/

section Request

variable {fresh : ℕ → UInt8} {abi : Abi} {function : Function} {package : Package}
  {request : Request} {i : Identifier} {path : CString} {block : List UInt8} {j width : ℕ}

theorem cString_concat (path : CString) : cString (path.val ++ [0]) = path := by
  apply Subtype.ext
  have hall : ∀ b ∈ path.val, decide (b ≠ 0) = true := by
    intro b hb
    rw [decide_eq_true_eq]
    rintro rfl
    exact path.property hb
  change (path.val ++ [0]).takeWhile (fun b => decide (b ≠ 0)) = path.val
  rw [List.takeWhile_append_of_pos hall]
  simp

theorem string_of_block (h : function.args[j]? = some (path.val ++ [0])) :
    function.string j = some path := by
  simp [Function.string, h, cString_concat]

theorem field_of_block (h : function.args[j]? = some block) (hlen : block.length = width) :
    function.field width j = some block := by
  simp [Function.field, h, peek, ← hlen]

/-- INTERNAL: how a package is served. SRCLINE: server.c:81-92 -/
theorem served_of_function (hid : package.messageId = i.code) (hi : i ≠ .sac)
    (hdecode : decoder abi.offT i package = some function)
    (hlog : logFunctionCall function = some ())
    (hrequest : requestOf abi function = some (some request)) :
    served abi package = some (some request) := by
  simp only [served, deserialize_code _ hid hi, hdecode, Option.map_some, Option.bind_eq_bind,
    Option.bind_some, hlog, hrequest]

/-- The request is served as one that does the same. -/
def Arrives (fresh : ℕ → UInt8) (request : Request) : Prop :=
  ∃ package request', serialize fresh .ilp32 .bits64 request = some package ∧ Filled package ∧
    served .ilp32 package = some (some request') ∧ perform .ilp32 request' = perform .ilp32 request

/-- INTERNAL: a request with a path. SRCLINE: serialization.c:227-253 -/
theorem arrives_path (hs : path.val.length ≤ 65532) (hi : i = .remove ∨ i = .rmdir ∨ i = .readdir)
    (hserialize : serialize fresh .ilp32 .bits64 request = serializePath fresh i path)
    (hrequest : ∀ function : Function, function.string 0 = some path →
      Identifier.ofCode function.functionId = some i →
      requestOf .ilp32 function = some (some request)) : Arrives fresh request := by
  have hcode : Identifier.ofCode ((i.code % 2 ^ 8).toNat : ℤ) = some i := by
    rcases hi with rfl | rfl | rfl <;> rfl
  have hdecode : decoder Abi.ilp32.offT i ⟨i.code, path.val.length + 3, encString path⟩ =
      some ⟨(i.code % 2 ^ 8).toNat, [path.val ++ [0]], 1⟩ := by
    rcases hi with rfl | rfl | rfl <;> exact deserializeRemove_eq hs
  generalize hf : (⟨(i.code % 2 ^ 8).toNat, [path.val ++ [0]], 1⟩ : Function) = function at hdecode
  have hid : Identifier.ofCode function.functionId = some i := by
    rw [← hf]
    exact hcode
  have hstring : function.string 0 = some path := string_of_block (by rw [← hf]; rfl)
  have hlog : logFunctionCall function = some () := by
    rcases hi with rfl | rfl | rfl <;> simp [logFunctionCall, hid, hstring]
  refine ⟨_, request, hserialize.trans (serializePath_eq hs), ?_, ?_, rfl⟩
  · exact filled_of_length i (by omega) (length_encString path)
  · refine served_of_function rfl ?_ hdecode hlog (hrequest _ hstring hid)
    rcases hi with rfl | rfl | rfl <;> decide

/-- INTERNAL: a path and a number, of which the first bytes are decoded.
SRCLINE: serialization.c:167-183, serialization.c:270-286 -/
theorem deserializePathAnd_prefix (hs : path.val.length ≤ 65532) (messageId : ℤ) (size : ℕ)
    {number : List UInt8} (hwidth : width ≤ number.length) :
    deserializePathAnd width ⟨messageId, size, encString path ++ number⟩ =
      some ⟨(messageId % 2 ^ 8).toNat, [path.val ++ [0], number.take width], 2⟩ := by
  have hnumber : peek (encString path ++ number) (2 + (path.val.length + 1)) width =
      some (number.take width) := by
    have hsplit : encString path ++ number =
        encString path ++ number.take width ++ number.drop width := by
      rw [List.append_assoc, List.take_append_drop]
    rw [hsplit]
    exact peek_append (by rw [length_encString]; omega) (by rw [List.length_take]; omega)
  simp only [deserializePathAnd, sizeStringLen, peek_encString_length, Option.bind_eq_bind,
    Option.bind_some, fromLe_length hs, peek_encString_bytes, hnumber]
  rfl

/-- INTERNAL: a request with a path and a number. SRCLINE: serialization.c:167-183,
serialization.c:270-286 -/
theorem arrives_pathAnd (request' : Request) {n : ℤ} (hs : path.val.length ≤ 65532)
    {w : ℕ} (hw : width ≤ w) (hw' : w ≤ 8)
    (hi : i = .open ∧ width = 2 ∨ i = .mkdir ∧ width = 2 ∨ i = .truncate ∧ width = 4)
    (hserialize : serialize fresh .ilp32 .bits64 request = serializePathAnd fresh i path w n)
    (hrequest : ∀ function : Function, function.string 0 = some path →
      function.field width 1 = some ((leInt w n).take width) →
      Identifier.ofCode function.functionId = some i →
      requestOf .ilp32 function = some (some request'))
    (hsame : perform .ilp32 request' = perform .ilp32 request) : Arrives fresh request := by
  have hcode : Identifier.ofCode ((i.code % 2 ^ 8).toNat : ℤ) = some i := by
    rcases hi with ⟨rfl, -⟩ | ⟨rfl, -⟩ | ⟨rfl, -⟩ <;> rfl
  have hlen : width ≤ (leInt w n).length := by
    rw [length_leInt]
    exact hw
  have hdecode : decoder Abi.ilp32.offT i
      ⟨i.code, path.val.length + 3 + w, encString path ++ leInt w n⟩ =
      some ⟨(i.code % 2 ^ 8).toNat, [path.val ++ [0], (leInt w n).take width], 2⟩ := by
    rcases hi with ⟨rfl, rfl⟩ | ⟨rfl, rfl⟩ | ⟨rfl, rfl⟩ <;>
      exact deserializePathAnd_prefix hs _ _ hlen
  generalize hf : (⟨(i.code % 2 ^ 8).toNat, [path.val ++ [0], (leInt w n).take width], 2⟩ :
    Function) = function at hdecode
  have hid : Identifier.ofCode function.functionId = some i := by
    rw [← hf]
    exact hcode
  have hstring : function.string 0 = some path := string_of_block (by rw [← hf]; rfl)
  have hfield : function.field width 1 = some ((leInt w n).take width) :=
    field_of_block (by rw [← hf]; rfl) (by rw [List.length_take]; omega)
  have hlog : logFunctionCall function = some () := by
    rcases hi with ⟨rfl, rfl⟩ | ⟨rfl, rfl⟩ | ⟨rfl, rfl⟩ <;>
      simp [logFunctionCall, hid, hstring, sizeMode, sizeBuffer, hfield]
  refine ⟨_, request', hserialize.trans (serializePathAnd_eq hs), ?_, ?_, hsame⟩
  · apply filled_of_length i (by omega)
    rw [List.length_append, length_encString, length_leInt]
  · refine served_of_function rfl ?_ hdecode hlog (hrequest _ hstring hfield hid)
    rcases hi with ⟨rfl, -⟩ | ⟨rfl, -⟩ | ⟨rfl, -⟩ <;> decide

/-- INTERNAL: the first bytes of a number that fits them. -/
theorem fromLeInt_take_leInt {w w' : ℕ} {n : ℤ} (hw : w ≤ w') (h : -(256 ^ w) ≤ n * 2)
    (h' : n * 2 < 256 ^ w) : fromLeInt ((leInt w' n).take w) = n := by
  have htake : (leInt w' n).take w = le w (n % 256 ^ w').toNat := by
    rw [leInt, le, ← List.map_take, List.take_range, Nat.min_eq_left hw]
    rfl
  have hcast : ((256 ^ w : ℕ) : ℤ) = 256 ^ w := Int.natCast_pow 256 w
  have hpos : (0 : ℤ) < 256 ^ w' := Int.pow_pos (by decide)
  have hlow : (((n % 256 ^ w').toNat % 256 ^ w : ℕ) : ℤ) = n % ((256 ^ w : ℕ) : ℤ) := by
    rw [Int.natCast_emod, Int.toNat_of_nonneg (Int.emod_nonneg n hpos.ne'), hcast]
    exact Int.emod_emod_of_dvd n (pow_dvd_pow 256 hw)
  rw [htake, fromLeInt, length_le, fromLe_le, hlow, Int.emod_bmod]
  apply Int.bmod_eq_of_le_mul_two <;> rwa [hcast]

/-- INTERNAL: nobody reads the mode of an OPEN. SRCLINE: fs_sac.c:8-11 -/
theorem perform_open (abi : Abi) (path : CString) (mode mode' : ℤ) :
    perform abi (.open path mode) = perform abi (.open path mode') := rfl

theorem arrives_open (hs : path.val.length ≤ 65532) (mode : ℤ) :
    Arrives fresh (.open path mode) := by
  refine arrives_pathAnd (i := .open) (w := 2) (n := mode)
    (.open path (fromLeInt ((leInt 2 mode).take 2))) hs le_rfl (by decide) (Or.inl ⟨rfl, rfl⟩) rfl
    (fun function hstring hfield hid => ?_) (perform_open _ _ _ _)
  simp only [requestOf, hid, hstring, sizeMode, hfield, Option.bind_eq_bind, Option.bind_some]
  rfl

theorem arrives_mkdir (hs : path.val.length ≤ 65532) (mode : ℤ) :
    Arrives fresh (.mkdir path mode) := by
  refine arrives_pathAnd (i := .mkdir) (w := 2) (n := mode) (.mkdir path 0) hs le_rfl (by decide)
    (Or.inr (Or.inl ⟨rfl, rfl⟩)) rfl (fun function hstring _ hid => ?_) rfl
  simp only [requestOf, hid, hstring, Option.bind_eq_bind, Option.bind_some]
  rfl

theorem arrives_truncate (hs : path.val.length ≤ 65532) {size : ℤ} (h : -2 ^ 31 ≤ size)
    (h' : size < 2 ^ 31) : Arrives fresh (.truncate path size) := by
  refine arrives_pathAnd (i := .truncate) (w := 8) (n := size)
    (.truncate path (fromLeInt ((leInt 8 size).take 4))) hs (by decide) (by decide)
    (Or.inr (Or.inr ⟨rfl, rfl⟩)) rfl (fun function hstring hfield hid => ?_)
    (congrArg (fun n => perform .ilp32 (.truncate path n)) (fromLeInt_take_leInt (by decide)
      (by omega) (by omega)))
  simp only [requestOf, hid, hstring, Abi.offT, OffT.size, hfield, Option.bind_eq_bind,
    Option.bind_some]
  rfl

theorem arrives_close {fd : ℤ} (h : IsDescriptor fd) : Arrives fresh (.close fd) := by
  have hfd : (fromLe (leInt 2 fd) : ℤ) = fd := fromLe_leInt h.1 (by have := h.2; omega)
  have hdecode : decoder Abi.ilp32.offT .close ⟨Identifier.close.code, 2, leInt 2 fd⟩ =
      some ⟨2, [leInt 2 fd], 1⟩ := by
    rw [decoder, deserializeClose_eq_some]
    refine ⟨(length_leInt 2 fd).ge, ?_⟩
    rw [piece, List.drop_zero, List.take_of_length_le (length_leInt 2 fd).le]
    rfl
  have hfield : (⟨2, [leInt 2 fd], 1⟩ : Function).field 2 0 = some (leInt 2 fd) :=
    field_of_block rfl (length_leInt 2 fd)
  refine ⟨_, .close fd, serializeClose_eq fd, filled_of_length .close (by decide)
    (length_leInt 2 fd), served_of_function rfl (by decide) hdecode ?_ ?_, rfl⟩
  · simp [logFunctionCall, Identifier.ofCode, sizeFd, hfield]
  · simp [requestOf, Identifier.ofCode, sizeFd, hfield, hfd]

theorem arrives_write {fd offset : ℤ} {buffer : List UInt8} (h : IsDescriptor fd)
    (hcount : buffer.length + 10 < 2 ^ 32) (hoffset : 0 ≤ offset) (hoffset' : offset < 2 ^ 31) :
    Arrives fresh (.write fd buffer offset) := by
  have hfd : (fromLe (leInt 2 fd) : ℤ) = fd := fromLe_leInt h.1 (by have := h.2; omega)
  have hstart : (fromLe (leInt 4 offset) : ℤ) = offset := fromLe_leInt hoffset (by omega)
  have hsize : fromLe (le 4 buffer.length) = buffer.length := fromLe_le_of_lt (by omega)
  have hlong : Abi.ilp32.long offset = offset := by
    obtain ⟨n, rfl⟩ := Int.eq_ofNat_of_zero_le hoffset
    exact long_of_lt (by omega)
  have hdecode : decoder Abi.ilp32.offT .write ⟨Identifier.write.code, buffer.length + 10,
      leInt 2 fd ++ le 4 buffer.length ++ buffer ++ leInt 4 offset⟩ =
      some ⟨3, [leInt 2 fd, buffer, le 4 buffer.length, leInt 4 offset], 4⟩ :=
    deserializeWrite_eq (by omega)
  generalize hf : (⟨3, [leInt 2 fd, buffer, le 4 buffer.length, leInt 4 offset], 4⟩ : Function) =
    function at hdecode
  have hid : Identifier.ofCode function.functionId = some .write := by
    rw [← hf]
    rfl
  have hfield : function.field 2 0 = some (leInt 2 fd) :=
    field_of_block (by rw [← hf]; rfl) (length_leInt 2 fd)
  have hfield1 : function.field buffer.length 1 = some buffer :=
    field_of_block (by rw [← hf]; rfl) rfl
  have hfield2 : function.field 4 2 = some (le 4 buffer.length) :=
    field_of_block (by rw [← hf]; rfl) (length_le 4 _)
  have hfield3 : function.field 4 3 = some (leInt 4 offset) :=
    field_of_block (by rw [← hf]; rfl) (length_leInt 4 offset)
  refine ⟨_, .write fd buffer offset, serializeWrite_ilp32 hcount,
    filled_of_length .write hcount ?_, served_of_function rfl (by decide) hdecode ?_ ?_, rfl⟩
  · simp only [List.length_append, length_leInt, length_le]
    omega
  · simp [logFunctionCall, hid, sizeFd, sizeBuffer, sizeOffset, hfield, hfield2, hfield3]
  · simp [requestOf, hid, sizeFd, sizeBuffer, sizeOffset, hfield, hfield1, hfield2, hfield3, hfd,
      hstart, hsize, hlong]

theorem arrives_read {fd count offset : ℤ} (h : IsDescriptor fd) (hcount : 0 ≤ count)
    (hcount' : count < 2 ^ 32) (hoffset : 0 ≤ offset) (hoffset' : offset < 2 ^ 31) :
    Arrives fresh (.read fd count offset) := by
  have hfd : (fromLe (leInt 2 fd) : ℤ) = fd := fromLe_leInt h.1 (by have := h.2; omega)
  have hstart : (fromLe (leInt 4 offset) : ℤ) = offset := fromLe_leInt hoffset (by omega)
  have hsize : (fromLe (leInt 4 count) : ℤ) = count := fromLe_leInt hcount (by omega)
  have hlong : Abi.ilp32.long offset = offset := by
    obtain ⟨n, rfl⟩ := Int.eq_ofNat_of_zero_le hoffset
    exact long_of_lt (by omega)
  have hdecode : decoder Abi.ilp32.offT .read
      ⟨Identifier.read.code, 10, leInt 2 fd ++ leInt 4 count ++ leInt 4 offset⟩ =
      some ⟨4, [leInt 2 fd, leInt 4 count, leInt 4 offset], 3⟩ := deserializeRead_eq fd count offset
  generalize hf : (⟨4, [leInt 2 fd, leInt 4 count, leInt 4 offset], 3⟩ : Function) = function
    at hdecode
  have hid : Identifier.ofCode function.functionId = some .read := by
    rw [← hf]
    rfl
  have hfield : function.field 2 0 = some (leInt 2 fd) :=
    field_of_block (by rw [← hf]; rfl) (length_leInt 2 fd)
  have hfield1 : function.field 4 1 = some (leInt 4 count) :=
    field_of_block (by rw [← hf]; rfl) (length_leInt 4 count)
  have hfield2 : function.field 4 2 = some (leInt 4 offset) :=
    field_of_block (by rw [← hf]; rfl) (length_leInt 4 offset)
  refine ⟨_, .read fd count offset, serializeRead_eq fd count offset,
    filled_of_length .read (by decide) ?_, served_of_function rfl (by decide) hdecode ?_ ?_, rfl⟩
  · simp only [List.length_append, length_leInt]
  · simp [logFunctionCall, hid, sizeFd, sizeBuffer, sizeOffset, hfield, hfield1, hfield2]
  · simp [requestOf, hid, sizeFd, sizeBuffer, sizeOffset, hfield, hfield1, hfield2, hfd, hstart,
      hsize, hlong]

theorem arrives_rename {oldPath newPath : CString} (hold : oldPath.val.length ≤ 65532)
    (hnew : newPath.val.length ≤ 65532) : Arrives fresh (.rename oldPath newPath) := by
  have hdecode : decoder Abi.ilp32.offT .rename ⟨Identifier.rename.code,
      oldPath.val.length + 3 + (newPath.val.length + 3), encString oldPath ++ encString newPath⟩ =
      some ⟨10, [oldPath.val ++ [0], newPath.val ++ [0]], 2⟩ := deserializeRename_eq hold hnew
  generalize hf : (⟨10, [oldPath.val ++ [0], newPath.val ++ [0]], 2⟩ : Function) = function
    at hdecode
  have hid : Identifier.ofCode function.functionId = some .rename := by
    rw [← hf]
    rfl
  have hstring : function.string 0 = some oldPath := string_of_block (by rw [← hf]; rfl)
  have hstring1 : function.string 1 = some newPath := string_of_block (by rw [← hf]; rfl)
  refine ⟨_, .rename oldPath newPath, serializeRename_eq hold hnew,
    filled_of_length .rename (by omega) ?_, served_of_function rfl (by decide) hdecode ?_ ?_, rfl⟩
  · rw [List.length_append, length_encString, length_encString]
  · simp [logFunctionCall, hid, hstring, hstring1]
  · simp [requestOf, hid, hstring, hstring1]

/-- INTERNAL: **every request that the wire has room for arrives**, but for a STAT. -/
theorem OnWire.arrives (fresh : ℕ → UInt8) (h : OnWire request)
    (hstat : request.identifier ≠ .stat) : Arrives fresh request := by
  cases request with
  | «open» path mode => exact arrives_open h mode
  | close fd => exact arrives_close h
  | write fd buffer offset => exact arrives_write h.1 h.2.1 h.2.2.1 h.2.2.2
  | read fd count offset => exact arrives_read h.1 h.2.1.1 h.2.1.2 h.2.2.1 h.2.2.2
  | remove path =>
    apply arrives_path h (Or.inl rfl) rfl
    intro function hstring hid
    simp [requestOf, hid, hstring]
  | mkdir path mode => exact arrives_mkdir h mode
  | rmdir path =>
    apply arrives_path h (Or.inr (Or.inl rfl)) rfl
    intro function hstring hid
    simp [requestOf, hid, hstring]
  | stat path => exact absurd rfl hstat
  | readdir path =>
    apply arrives_path h (Or.inr (Or.inr rfl)) rfl
    intro function hstring hid
    simp [requestOf, hid, hstring]
  | rename oldPath newPath => exact arrives_rename h.1 h.2
  | truncate path size => exact arrives_truncate h.1 h.2.1 h.2.2

end Request

/-! ## The answer -/

/-- The answer fits its header, and its data hold the bytes that `size` counts. -/
structure Deliverable (package : Package) : Prop where
  messageId : -(256 ^ 8) ≤ package.messageId * 2 ∧ package.messageId * 2 < 256 ^ 8
  size : package.size < 2 ^ 32
  data : package.size ≤ package.data.length

/-- What arrives of an answer. SRCLINE: serialization.c:12-29 -/
def delivered (package : Package) : Package :=
  { package with data := package.data.take package.size }

section Answer

variable {fresh : ℕ → UInt8} {package : Package} {request : Request} {s s' : SacState}

/-- INTERNAL: nothing behind the counted bytes is sent. SRCLINE: serialization.c:12-18 -/
theorem sendPackage_delivered (package : Package) :
    sendPackage (delivered package) = sendPackage package := by
  have hpeek : peek (package.data.take package.size) 0 package.size =
      peek package.data 0 package.size := by
    simp only [peek, Nat.zero_add, List.length_take, List.drop_zero, List.take_take, Nat.min_self]
    simp
  simp only [sendPackage, delivered, hpeek]

theorem Deliverable.filled (h : Deliverable package) : Filled (delivered package) :=
  ⟨h.messageId, h.size, List.length_take_of_le h.data⟩

/-- INTERNAL: **the answer arrives**, with the bytes that its size counts. -/
theorem Deliverable.receivePackage_send (h : Deliverable package) :
    ∃ bytes, sendPackage package = some bytes ∧
      receivePackage bytes = some (delivered package, []) := by
  obtain ⟨bytes, hsend, hreceive⟩ := Analysis.receivePackage_send h.filled []
  rw [List.append_nil] at hreceive
  rw [sendPackage_delivered] at hsend
  exact ⟨bytes, hsend, hreceive⟩

/-- INTERNAL: the server attends the package behind the handshake. SRCLINE: server.c:74-100 -/
theorem attendSocket_eq {stream : List UInt8} (hfilled : Filled package)
    (hsend : sendPackage package = some stream) :
    ∃ hello, sendPackage handshake = some hello ∧
      attendSocket .ilp32 (hello ++ stream) =
        attendConnection .ilp32 package >>= fun response => checked (sendPackage response) := by
  have hhandshake : Filled handshake := filled_of_length .sac (by decide) rfl
  obtain ⟨hello, hsend', hreceive'⟩ := receivePackage_send hhandshake stream
  obtain ⟨bytes, hsend'', hreceive⟩ := receivePackage_send hfilled []
  rw [hsend, Option.some.injEq] at hsend''
  subst hsend''
  rw [List.append_nil] at hreceive
  refine ⟨hello, hsend', ?_⟩
  simp only [attendSocket, hreceive', hreceive, received, pure_bind]
  exact if_pos rfl

/-- INTERNAL: a request as the server attends it. SRCLINE: client.c:21-76, server.c:74-100 -/
theorem callServer_of_package (hserialize : serialize fresh .ilp32 .bits64 request = some package)
    (hfilled : Filled package) :
    callServer fresh .ilp32 request = do
      let response ← attendConnection .ilp32 package
      let answer ← checked (sendPackage response)
      let (response, _) ← received (receivePackage answer)
      return response := by
  obtain ⟨stream, hsend, -⟩ := receivePackage_send hfilled []
  obtain ⟨hello, hsend', hattend⟩ := attendSocket_eq hfilled hsend
  have hfunction : sendFunction fresh .ilp32 .bits64 request = some (hello ++ stream) := by
    simp only [sendFunction, hserialize, hsend, hsend', Option.bind_eq_bind, Option.bind_some,
      pure]
  simp only [callServer, hfunction, checked, pure_bind, hattend, bind_assoc]

section Packages

variable {path : CString} {abi : Abi}

theorem deliverable_default {r : ℤ} (h : -2 ^ 63 ≤ r ∧ r < 2 ^ 63) :
    Deliverable (createDefaultPackage r) where
  messageId := by
    simp only [createDefaultPackage]
    omega
  size := by simp [createDefaultPackage]
  data := Nat.zero_le _

/-- INTERNAL: an answer that carries a status only. SRCLINE: fs_sac.c:8-115 -/
theorem returns_default (r : ℤ) : Returns Deliverable (FsSac.createDefaultPackage abi r) := by
  cases abi with
  | lp64 => exact .throw _
  | ilp32 =>
    refine .bind fun stack => .pure (deliverable_default ?_)
    generalize (u32 r + 2 ^ 32 * leNat stack 0 4 : ℤ) = id
    have hlower := Int.le_bmod (x := id) (m := 2 ^ 64) (by decide)
    have hupper := Int.bmod_lt (x := id) (m := 2 ^ 64) (by decide)
    omega

/-- INTERNAL: the memory of a READ has room for `count` bytes. SRCLINE: fs_sac.c:23-31 -/
theorem returns_read {fd count : ℕ} {offset : ℤ} :
    Returns Deliverable (FsSac.sacRead abi fd count offset) := by
  refine .bind fun data => .bind fun r => .ite (.throw _) (.pure ⟨?_, ?_, ?_⟩)
  · rw [if_neg (Nat.not_lt_zero _)]
    exact (deliverable_default (r := 0) (by decide)).messageId
  · exact Nat.mod_lt _ (by decide)
  · have hle := Nat.mod_le (if count > r.1 then r.1 else count) (2 ^ 32)
    have hmin : (if count > r.1 then r.1 else count) ≤ count := by
      split <;> omega
    simp only [mallocBlock, List.length_map, List.length_range]
    omega

theorem returns_stat : Returns Deliverable (FsSac.sacStat abi path) := by
  refine .bind fun r => .bind_of (returns_default r.1) fun package hpackage => .ite ?_ (.pure hpackage)
  exact .bind fun stbuf => .pure ⟨hpackage.messageId, by simp, by simp⟩

theorem length_poke {mem mem' src : List UInt8} {pos : ℕ} (h : poke mem pos src = some mem') :
    mem'.length = mem.length := by
  unfold poke at h
  split at h
  · cases h
    rw [pwrite_length (by omega)]
    omega
  · cases h

/-- INTERNAL: the data grow with the size. SRCLINE: fs_sac.c:86-102 -/
theorem Deliverable.agregarEntradas {fresh : Bytes} {entries : List (List UInt8)}
    (h : Deliverable package) {package' : Package}
    (hpackage : FsSac.agregarEntradas fresh entries package = some package') :
    Deliverable package' := by
  induction entries generalizing package with
  | nil =>
    simp only [FsSac.agregarEntradas, Option.some.injEq] at hpackage
    exact hpackage ▸ h
  | cons dName entries ih =>
    simp only [FsSac.agregarEntradas, serializeString, Option.bind_eq_bind,
      Option.bind_eq_some_iff] at hpackage
    obtain ⟨buffer, -, data, hdata, data', ⟨data'', hdata'', bytes, -, hdata'⟩, hpackage⟩ :=
      hpackage
    refine ih ?_ hpackage
    refine ⟨h.messageId, Nat.mod_lt _ (by decide), Nat.le_of_eq ?_⟩
    rw [length_poke hdata', length_poke hdata'', length_poke hdata, length_mallocBlock]

theorem returns_readdir : Returns Deliverable (FsSac.sacReaddir abi path) := by
  refine .bind_of (returns_default 0) fun package hpackage => .bind fun entries => ?_
  cases entries with
  | none =>
    exact .pure ⟨(deliverable_default (r := -1) (by decide)).messageId, hpackage.size,
      hpackage.data⟩
  | some entries =>
    refine .bind fun fresh => ?_
    cases hpacked : FsSac.agregarEntradas fresh entries package with
    | none => exact .throw _
    | some package' => exact .pure (hpackage.agregarEntradas hpacked)

variable (abi) in
/-- INTERNAL: **every answer can be sent.** SRCLINE: server.c:102-161 -/
theorem returns_perform (request : Request) : Returns Deliverable (perform abi request) := by
  cases request with
  | close fd => exact returns_default _
  | read fd count offset => exact returns_read
  | stat path => exact returns_stat
  | readdir path => exact returns_readdir
  | _ => exact .bind fun r => returns_default _

end Packages

/-- INTERNAL: **a call is what the server does with the request**, and its answer on the wire. -/
theorem OnWire.callServer_eq (h : OnWire request) (hstat : request.identifier ≠ .stat) :
    callServer fresh .ilp32 request = delivered <$> perform .ilp32 request := by
  obtain ⟨package, request', hserialize, hfilled, hserved, hsame⟩ := h.arrives fresh hstat
  have hanswer := attendConnection_eq .ilp32 package
  rw [hserved] at hanswer
  rw [callServer_of_package hserialize hfilled, hanswer]
  simp only [hsame]
  funext s
  have hreturns := returns_perform .ilp32 request s
  unfold wp at hreturns
  cases hperform : perform .ilp32 request s with
  | error e s' => simp only [bind, EStateM.bind, hperform, Functor.map, EStateM.map]
  | ok package s' =>
    rw [hperform] at hreturns
    obtain ⟨bytes, hsend, hreceive⟩ := Deliverable.receivePackage_send hreturns
    rw [bind_of_ok hperform]
    simp only [hsend, hreceive, checked, received, pure_bind, Functor.map, EStateM.map, hperform]
    rfl

theorem OnWire.callServer_ok (h : OnWire request) (hstat : request.identifier ≠ .stat)
    (hok : perform .ilp32 request s = .ok package s') :
    callServer fresh .ilp32 request s = .ok (delivered package) s' := by
  rw [h.callServer_eq hstat, ← bind_pure_comp]
  exact bind_of_ok hok

/-- **A call over the wire is a call of the file system**, in every state: it returns what the
server packs, with the data cut to its size, and leaves the disk that the server leaves; where the
server stops, no answer comes.  A STAT is left out, whose decoder reads on behind the package.
SRCLINE: client.c:21-76, server.c:74-162, serialization.c:12-38 -/
theorem remote_call (h : OnWire request) (hstat : request.identifier ≠ .stat) :
    callServer fresh .ilp32 request = delivered <$> perform .ilp32 request :=
  h.callServer_eq hstat

/-- The statement for a RENAME. -/
theorem remote_call_rename : callServer (fun _ => 0) .ilp32 (.rename pathA pathB) =
    delivered <$> perform .ilp32 (.rename pathA pathB) :=
  remote_call ⟨by decide, by decide⟩ (by decide)

end Answer

end LinuseFs.Analysis
