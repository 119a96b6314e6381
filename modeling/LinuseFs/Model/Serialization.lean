import LinuseFs.Model.Directory
import LinuseFs.Computation.Buffer

/-!
# Requests on the wire

`serialization.c` of the server, which the client uses as well, and `send_function` of
the client.  Each `malloc` gives a block of the size asked for with contents taken from
`fresh`; each `memcpy` is a checked copy, and a function that copies from or to outside a
block has the result `none`.
-/

set_option autoImplicit false

namespace LinuseFs.Model

open LinuseFs.Computation

/-- `t_identifier_message`. SRCLINE: serialization.h:7-20 -/
inductive Identifier
  | sac | open | close | write | read | remove | mkdir | rmdir | stat | readdir | rename
  | truncate
  deriving DecidableEq, Repr

/-- The value of an enumerator. SRCLINE: serialization.h:7-20 -/
def Identifier.code : Identifier → ℤ
  | .sac => 0
  | .open => 1
  | .close => 2
  | .write => 3
  | .read => 4
  | .remove => 5
  | .mkdir => 6
  | .rmdir => 7
  | .stat => 8
  | .readdir => 9
  | .rename => 10
  | .truncate => 11

/-- `t_package`. SRCLINE: serialization.h:22-26 -/
structure Package where
  messageId : ℤ
  size : ℕ
  data : List UInt8
  deriving DecidableEq, Repr

/-- `t_function`; an argument is the block it points to. SRCLINE: serialization.h:28-32 -/
structure Function where
  functionId : ℕ
  args : List (List UInt8)
  count : ℕ
  deriving DecidableEq, Repr

/-- `sizeof(size_fd)`. SRCLINE: serialization.h:34 -/
abbrev sizeFd : ℕ := 2

/-- `sizeof(size_mode)`. SRCLINE: serialization.h:35 -/
abbrev sizeMode : ℕ := 2

/-- `sizeof(size_buffer)`. SRCLINE: serialization.h:36 -/
abbrev sizeBuffer : ℕ := 4

/-- `sizeof(size_string_len)`. SRCLINE: serialization.h:37 -/
abbrev sizeStringLen : ℕ := 2

/-- `sizeof(size_offset)`. SRCLINE: serialization.h:38 -/
abbrev sizeOffset : ℕ := 4

/-- The widths `off_t` is compiled with. -/
inductive OffT
  | bits32
  | bits64
  deriving DecidableEq, Repr

/-- `sizeof(off_t)`. -/
def OffT.size : OffT → ℕ
  | .bits32 => 4
  | .bits64 => 8

section Serialize

variable (fresh : ℕ → UInt8)

/-- `malloc(n)` as a block of `n` bytes. -/
def mallocBlock (n : ℕ) : List UInt8 := (List.range n).map fresh

/-! ## Encoding -/

/-- `_string_serialized_size`, a `size_string_len`. SRCLINE: serialization.c:288-290 -/
def stringSerializedSize (string : CString) : ℕ :=
  (sizeStringLen + string.val.length + 1) % 2 ^ 16

/-- `_serialize_string` into the block `data` at offset `pos`.
SRCLINE: serialization.c:292-296 -/
def serializeString (string : CString) (data : List UInt8) (pos : ℕ) :
    Option (List UInt8) := do
  let length := (string.val.length + 1) % 2 ^ 16
  let data ← poke data pos (le sizeStringLen length)
  let bytes ← peek (string.val ++ [0]) 0 length
  poke data (pos + sizeStringLen) bytes

/-- `_serialize_path`. SRCLINE: serialization.c:298-305 -/
def serializePath (messageId : Identifier) (path : CString) : Option Package := do
  let size := stringSerializedSize path
  let data ← serializeString path (mallocBlock fresh size) 0
  return { messageId := messageId.code, size := size, data := data }

/-- The encoding of a path and a number behind it, which `serialize_open`,
`serialize_mkdir` and `serialize_truncate` write out. -/
def serializePathAnd (messageId : Identifier) (path : CString) (width : ℕ) (n : ℤ) :
    Option Package := do
  let size := stringSerializedSize path + width
  let data ← serializeString path (mallocBlock fresh size) 0
  let data ← poke data (stringSerializedSize path) (leInt width n)
  return { messageId := messageId.code, size := size, data := data }

/-- `serialize_open`. SRCLINE: serialization.c:40-49 -/
def serializeOpen (path : CString) (mode : ℤ) : Option Package :=
  serializePathAnd fresh .open path sizeMode mode

/-- `serialize_close`. SRCLINE: serialization.c:51-59 -/
def serializeClose (fd : ℤ) : Option Package := do
  let data ← poke (mallocBlock fresh sizeFd) 0 (leInt sizeFd fd)
  return { messageId := Identifier.close.code, size := sizeFd, data := data }

/-- `serialize_write`.  `count` is a `size_t`: its first four bytes are copied, and
`sizeof(count)` stands in the offsets. SRCLINE: serialization.c:61-74 -/
def serializeWrite (abi : Abi) (fd : ℤ) (buffer : List UInt8) (offset : ℤ) :
    Option Package := do
  let count := buffer.length
  let scount := count % 2 ^ 32
  let size := (sizeFd + sizeBuffer + scount + sizeOffset) % 2 ^ 32
  let data := mallocBlock fresh size
  let data ← poke data 0 (leInt sizeFd fd)
  let data ← poke data sizeFd (le sizeBuffer count)
  let bytes ← peek buffer 0 scount
  let data ← poke data (sizeFd + abi.sizeofSizeT) bytes
  let data ← poke data (sizeFd + abi.sizeofSizeT + count) (leInt sizeOffset offset)
  return { messageId := Identifier.write.code, size := size, data := data }

/-- `serialize_read`. SRCLINE: serialization.c:76-89 -/
def serializeRead (fd count offset : ℤ) : Option Package := do
  let size := sizeFd + sizeBuffer + sizeOffset
  let data ← poke (mallocBlock fresh size) 0 (leInt sizeFd fd)
  let data ← poke data sizeFd (leInt sizeBuffer count)
  let data ← poke data (sizeFd + sizeBuffer) (leInt sizeOffset offset)
  return { messageId := Identifier.read.code, size := size, data := data }

/-- `serialize_remove`. SRCLINE: serialization.c:91-93 -/
def serializeRemove (path : CString) : Option Package := serializePath fresh .remove path

/-- `serialize_mkdir`. SRCLINE: serialization.c:95-104 -/
def serializeMkdir (path : CString) (mode : ℤ) : Option Package :=
  serializePathAnd fresh .mkdir path sizeMode mode

/-- `serialize_rmdir`. SRCLINE: serialization.c:106-108 -/
def serializeRmdir (path : CString) : Option Package := serializePath fresh .rmdir path

/-- `serialize_stat`. SRCLINE: serialization.c:110-112 -/
def serializeStat (path : CString) : Option Package := serializePath fresh .stat path

/-- `serialize_readdir`. SRCLINE: serialization.c:114-116 -/
def serializeReaddir (path : CString) : Option Package := serializePath fresh .readdir path

/-- `serialize_rename`. SRCLINE: serialization.c:118-126 -/
def serializeRename (oldPath newPath : CString) : Option Package := do
  let size := stringSerializedSize oldPath + stringSerializedSize newPath
  let data ← serializeString oldPath (mallocBlock fresh size) 0
  let data ← serializeString newPath data (stringSerializedSize oldPath)
  return { messageId := Identifier.rename.code, size := size, data := data }

/-- `serialize_truncate`. SRCLINE: serialization.c:128-136 -/
def serializeTruncate (offT : OffT) (path : CString) (size : ℤ) : Option Package :=
  serializePathAnd fresh .truncate path offT.size size

/-! ## Requests -/

/-- A call of a function of the file system by the client. -/
inductive Request
  | open (path : CString) (mode : ℤ)
  | close (fd : ℤ)
  | write (fd : ℤ) (buffer : List UInt8) (offset : ℤ)
  | read (fd count offset : ℤ)
  | remove (path : CString)
  | mkdir (path : CString) (mode : ℤ)
  | rmdir (path : CString)
  | stat (path : CString)
  | readdir (path : CString)
  | rename (oldPath newPath : CString)
  | truncate (path : CString) (size : ℤ)

/-- The function id of a request. -/
def Request.identifier : Request → Identifier
  | .open .. => .open
  | .close .. => .close
  | .write .. => .write
  | .read .. => .read
  | .remove .. => .remove
  | .mkdir .. => .mkdir
  | .rmdir .. => .rmdir
  | .stat .. => .stat
  | .readdir .. => .readdir
  | .rename .. => .rename
  | .truncate .. => .truncate

/-- The package of a request: the `switch` of `send_function`. SRCLINE: client.c:31-67 -/
def serialize (abi : Abi) (offT : OffT) : Request → Option Package
  | .open path mode => serializeOpen fresh path mode
  | .close fd => serializeClose fresh fd
  | .write fd buffer offset => serializeWrite fresh abi fd buffer offset
  | .read fd count offset => serializeRead fresh fd count offset
  | .remove path => serializeRemove fresh path
  | .mkdir path mode => serializeMkdir fresh path mode
  | .rmdir path => serializeRmdir fresh path
  | .stat path => serializeStat fresh path
  | .readdir path => serializeReaddir fresh path
  | .rename oldPath newPath => serializeRename fresh oldPath newPath
  | .truncate path size => serializeTruncate fresh offT path size

/-! ## Sending and receiving -/

/-- The bytes that `send_package` sends. SRCLINE: serialization.c:12-18 -/
def sendPackage (package : Package) : Option (List UInt8) := do
  let header := leInt 8 package.messageId ++ le 4 package.size
  if package.size > 0 then do
    let bytes ← peek package.data 0 package.size
    return header ++ bytes
  else return header

/-- The package of `send_handshake`. SRCLINE: serialization.c:31-38 -/
def handshake : Package := { messageId := Identifier.sac.code, size := 0, data := [] }

/-- The bytes that `send_function` sends. SRCLINE: client.c:21-76 -/
def sendFunction (abi : Abi) (offT : OffT) (request : Request) : Option (List UInt8) := do
  let hello ← sendPackage handshake
  let package ← serialize fresh abi offT request
  let bytes ← sendPackage package
  return hello ++ bytes

/-- `receive_package` on the bytes that arrive: the package and the bytes left in the
socket.  With too few bytes it does not return. SRCLINE: serialization.c:20-29 -/
def receivePackage (stream : List UInt8) : Option (Package × List UInt8) := do
  let messageId ← peek stream 0 8
  let size ← peek stream 8 4
  let data ← peek stream 12 (fromLe size)
  return ({ messageId := fromLeInt messageId, size := fromLe size, data := data },
    stream.drop (12 + fromLe size))

end Serialize

/-! ## Decoding -/

/-- The `function_id` of a package, an `u_int8_t`. -/
def functionIdOf (package : Package) : ℕ := (package.messageId % 2 ^ 8).toNat

/-- The decoding of a path and a number of the given width behind it, which
`deserialize_open` and `deserialize_truncate` write out. -/
def deserializePathAnd (width : ℕ) (package : Package) : Option Function := do
  let length ← peek package.data 0 sizeStringLen
  let length := fromLe length
  let path ← peek package.data sizeStringLen length
  let number ← peek package.data (sizeStringLen + length) width
  return { functionId := functionIdOf package, args := [path, number], count := 2 }

/-- `deserialize_open`. SRCLINE: serialization.c:167-183 -/
def deserializeOpen (package : Package) : Option Function :=
  deserializePathAnd sizeMode package

/-- `deserialize_close`. SRCLINE: serialization.c:185-193 -/
def deserializeClose (package : Package) : Option Function := do
  let fd ← peek package.data 0 package.size
  return { functionId := functionIdOf package, args := [fd], count := 1 }

/-- `deserialize_write`. SRCLINE: serialization.c:195-210 -/
def deserializeWrite (package : Package) : Option Function := do
  let fd ← peek package.data 0 sizeFd
  let count ← peek package.data sizeFd sizeBuffer
  let scount := fromLe count
  let buffer ← peek package.data (sizeFd + sizeBuffer) scount
  let offset ← peek package.data (sizeFd + sizeBuffer + scount) sizeOffset
  return { functionId := functionIdOf package, args := [fd, buffer, count, offset], count := 4 }

/-- `deserialize_read`. SRCLINE: serialization.c:212-225 -/
def deserializeRead (package : Package) : Option Function := do
  let fd ← peek package.data 0 sizeFd
  let count ← peek package.data sizeFd sizeBuffer
  let offset ← peek package.data (sizeFd + sizeBuffer) sizeOffset
  return { functionId := functionIdOf package, args := [fd, count, offset], count := 3 }

/-- `deserialize_remove`. SRCLINE: serialization.c:227-237 -/
def deserializeRemove (package : Package) : Option Function := do
  let length ← peek package.data 0 sizeStringLen
  let path ← peek package.data sizeStringLen (fromLe length)
  return { functionId := functionIdOf package, args := [path], count := 1 }

/-- `deserialize_mkdir`. SRCLINE: serialization.c:239-241 -/
def deserializeMkdir (package : Package) : Option Function := deserializeOpen package

/-- `deserialize_rmdir`. SRCLINE: serialization.c:243-245 -/
def deserializeRmdir (package : Package) : Option Function := deserializeRemove package

/-- `deserialize_stat`. SRCLINE: serialization.c:247-249 -/
def deserializeStat (package : Package) : Option Function := deserializeOpen package

/-- `deserialize_readdir`. SRCLINE: serialization.c:251-253 -/
def deserializeReaddir (package : Package) : Option Function := deserializeRemove package

/-- `deserialize_rename`. SRCLINE: serialization.c:255-268 -/
def deserializeRename (package : Package) : Option Function := do
  let length1 ← peek package.data 0 sizeStringLen
  let length1 := fromLe length1
  let oldPath ← peek package.data sizeStringLen length1
  let length2 ← peek package.data (sizeStringLen + length1) sizeStringLen
  let newPath ← peek package.data (sizeStringLen + length1 + sizeStringLen) (fromLe length2)
  return { functionId := functionIdOf package, args := [oldPath, newPath], count := 2 }

/-- `deserialize_truncate`. SRCLINE: serialization.c:270-286 -/
def deserializeTruncate (offT : OffT) (package : Package) : Option Function :=
  deserializePathAnd offT.size package

/-- `deserialize`; the inner `none` is its `NULL`. SRCLINE: serialization.c:138-165 -/
def deserialize (offT : OffT) (package : Package) : Option (Option Function) :=
  if package.messageId = Identifier.open.code then (deserializeOpen package).map some
  else if package.messageId = Identifier.close.code then (deserializeClose package).map some
  else if package.messageId = Identifier.write.code then (deserializeWrite package).map some
  else if package.messageId = Identifier.read.code then (deserializeRead package).map some
  else if package.messageId = Identifier.remove.code then (deserializeRemove package).map some
  else if package.messageId = Identifier.mkdir.code then (deserializeMkdir package).map some
  else if package.messageId = Identifier.rmdir.code then (deserializeRmdir package).map some
  else if package.messageId = Identifier.stat.code then (deserializeStat package).map some
  else if package.messageId = Identifier.readdir.code then (deserializeReaddir package).map some
  else if package.messageId = Identifier.rename.code then (deserializeRename package).map some
  else if package.messageId = Identifier.truncate.code then
    (deserializeTruncate offT package).map some
  else some none

end LinuseFs.Model
