import LinuseFs.Model.Sacio
import LinuseFs.Model.Serialization
import Mathlib.Data.List.TakeWhile

/-!
# Answering a request

What the server does with the package behind the handshake: `attend_connection` decodes
it, logs the call and executes it.  An argument is the block it was copied to, so that
logging and executing read inside that block or outside it; `none` stands for a read
outside.

The answers are those of `fs_sac.c`, which packs the results of the file system: the
server runs with `USE_LINUX_FS` false.
-/

set_option autoImplicit false

namespace LinuseFs.Model

open LinuseFs.Computation

/-- The type of `off_t`.  The server is compiled without `_FILE_OFFSET_BITS`, so it is a
`long`. -/
def Abi.offT : Abi → OffT
  | .ilp32 => .bits32
  | .lp64 => .bits64

/-- A value as a C `long`: an `off_t` or a `time_t`. -/
def Abi.long (abi : Abi) (n : ℤ) : ℤ := Int.bmod n (256 ^ abi.sizeofSizeT)

/-- A read that may leave its block. -/
def checked {α : Type} : Option α → Sac α
  | none => throw .memory
  | some a => return a

/-! ## The answers: fs_sac.c -/

/-- `create_default_package`. SRCLINE: fs_local.c:156-162 -/
def createDefaultPackage (messageId : ℤ) : Package :=
  { messageId := messageId, size := 0, data := [] }

/-- The C string that starts where the bytes do. -/
def cString (bytes : List UInt8) : CString :=
  ⟨bytes.takeWhile (· ≠ 0), fun h => by simpa using List.mem_takeWhile_imp h⟩

namespace FsSac

/-- `create_default_package`, as `fs_sac.c` calls it, which includes no declaration of it.  The
argument is passed as 32 bits where the function takes 64, so that the upper half of the id is what
the stack holds; the pointer it returns is taken for an `int`, and one of 8 bytes is cut off.
SRCLINE: fs_sac.c:1-6, fs_local.c:156-162 -/
def createDefaultPackage (abi : Abi) (messageId : ℤ) : Sac Package :=
  match abi with
  | .ilp32 => do
    let stack ← malloc
    return Model.createDefaultPackage
      (Int.bmod (u32 messageId + 2 ^ 32 * leNat stack 0 4) (2 ^ 64))
  | .lp64 => throw .memory

/-- `_sac_open`. SRCLINE: fs_sac.c:8-11 -/
def sacOpen (abi : Abi) (path : CString) : Sac Package := do
  let fd ← Model.sacOpen path
  createDefaultPackage abi fd

/-- `_sac_close`. SRCLINE: fs_sac.c:13-16 -/
def sacClose (abi : Abi) (fd : ℕ) : Sac Package := createDefaultPackage abi (Model.sacClose fd)

/-- `_sac_write`. SRCLINE: fs_sac.c:18-21 -/
def sacWrite (abi : Abi) (fd : ℕ) (buffer : List UInt8) (offset : ℤ) : Sac Package := do
  let size ← Model.sacWrite abi fd buffer offset
  createDefaultPackage abi size

/-- `_sac_read`.  `package->data` is fresh memory of `count` bytes; the test for a negative
size is one of an unsigned number. SRCLINE: fs_sac.c:23-31 -/
def sacRead (abi : Abi) (fd count : ℕ) (offset : ℤ) : Sac Package := do
  let data ← malloc
  let (sizeRead, stored) ← Model.sacRead abi fd count offset
  if stored.length > count then throw .memory
  else do
    let data := mallocBlock (memcpy data 0 (ofList stored) stored.length) count
    let size := (if count > sizeRead then sizeRead else count) % 2 ^ 32
    return { messageId := if size < 0 then -1 else 0, size := size, data := data }

/-- `_sac_remove`. SRCLINE: fs_sac.c:33-36 -/
def sacRemove (abi : Abi) (path : CString) : Sac Package := do
  let status ← Model.sacRemove path
  createDefaultPackage abi status

/-- `_sac_mkdir`. SRCLINE: fs_sac.c:38-41 -/
def sacMkdir (abi : Abi) (path : CString) : Sac Package := do
  let status ← Model.sacMkdir path
  createDefaultPackage abi status

/-- `_sac_rmdir`. SRCLINE: fs_sac.c:43-46 -/
def sacRmdir (abi : Abi) (path : CString) : Sac Package := do
  let status ← Model.sacRmdir path
  createDefaultPackage abi status

/-- `_sac_stat`; `stbuf` is set when the status is 0. SRCLINE: fs_sac.c:48-74 -/
def sacStat (abi : Abi) (path : CString) : Sac Package := do
  let (status, stbuf) ← Model.sacStat path
  let package ← createDefaultPackage abi status
  let idMensaje := i32 package.messageId
  if idMensaje ≥ 0 then do
    let stbuf ← checked stbuf
    let isDirOrFile := if stbuf.isDir then 2 else 1
    let data := le 2 isDirOrFile ++ le 2 stbuf.ino ++ leInt 4 (abi.long stbuf.size) ++
      leInt 8 (abi.long stbuf.mtim) ++ leInt 8 (abi.long stbuf.ctim)
    return { package with data := data, size := 2 + 2 + 4 + 8 + 8 }
  else return package

/-- The loop of `_sac_readdir` over the names: each is serialized behind what the package
holds. SRCLINE: fs_sac.c:86-102 -/
def agregarEntradas (fresh : Bytes) : List (List UInt8) → Package → Option Package
  | [], package => some package
  | dName :: entries, package => do
    let prevSize := package.size
    let buffer ← peek package.data 0 prevSize
    let size := (package.size + stringSerializedSize (cString dName)) % 2 ^ 32
    let data ← poke (mallocBlock fresh size) 0 buffer
    let data ← serializeString (cString dName) data prevSize
    agregarEntradas fresh entries { package with size := size, data := data }

/-- `_sac_readdir`. SRCLINE: fs_sac.c:76-105 -/
def sacReaddir (abi : Abi) (path : CString) : Sac Package := do
  let package ← createDefaultPackage abi 0
  match ← Model.sacReaddir path with
  | none => return { package with messageId := -1 }
  | some entries => do
    let fresh ← malloc
    checked (agregarEntradas fresh entries package)

/-- `_sac_rename`. SRCLINE: fs_sac.c:107-110 -/
def sacRename (abi : Abi) (oldPath newPath : CString) : Sac Package := do
  let status ← Model.sacRename oldPath newPath
  createDefaultPackage abi status

/-- `_sac_truncate`. SRCLINE: fs_sac.c:112-115 -/
def sacTruncate (abi : Abi) (path : CString) (size : ℤ) : Sac Package := do
  let status ← Model.sacTruncate abi path size
  createDefaultPackage abi status

end FsSac

/-! ## The arguments of a function -/

namespace Function

variable (function : Function)

/-- `(char*) function->args[i]`: a string ends in its own block. -/
def string (i : ℕ) : Option CString := do
  let block ← function.args[i]?
  if (0 : UInt8) ∈ block then return cString block else none

/-- The first `width` bytes of `function->args[i]`. -/
def field (width i : ℕ) : Option (List UInt8) := do
  let block ← function.args[i]?
  peek block 0 width

end Function

/-- The enumerator with a value, as the `case` labels compare it. -/
def Identifier.ofCode : ℤ → Option Identifier
  | 0 => some .sac
  | 1 => some .open
  | 2 => some .close
  | 3 => some .write
  | 4 => some .read
  | 5 => some .remove
  | 6 => some .mkdir
  | 7 => some .rmdir
  | 8 => some .stat
  | 9 => some .readdir
  | 10 => some .rename
  | 11 => some .truncate
  | _ => none

/-- `log_function_call`: what its format strings read. SRCLINE: log.c:42-83 -/
def logFunctionCall (function : Function) : Option Unit :=
  match Identifier.ofCode function.functionId with
  | some .open => do
    let _ ← function.string 0
    let _ ← function.field sizeMode 1
  | some .close => do
    let _ ← function.field sizeFd 0
  | some .write => do
    let _ ← function.field sizeFd 0
    let _ ← function.field sizeBuffer 2
    let _ ← function.field sizeOffset 3
  | some .read => do
    let _ ← function.field sizeFd 0
    let _ ← function.field sizeBuffer 1
    let _ ← function.field sizeOffset 2
  | some .remove | some .mkdir | some .rmdir | some .stat | some .readdir => do
    let _ ← function.string 0
  | some .rename => do
    let _ ← function.string 0
    let _ ← function.string 1
  | some .truncate => do
    let _ ← function.string 0
    -- the length is an off_t, of which a size_buffer is logged
    let _ ← function.field sizeBuffer 1
  | _ => return

/-- The call that the `switch` of `execute` makes, with the arguments it reads; the inner
`none` is its default. SRCLINE: server.c:102-161 -/
def requestOf (abi : Abi) (function : Function) : Option (Option Request) :=
  match Identifier.ofCode function.functionId with
  | some .open => do
    let path ← function.string 0
    let mode ← function.field sizeMode 1
    return some (.open path (fromLeInt mode))
  | some .close => do
    let fd ← function.field sizeFd 0
    return some (.close (fromLe fd))
  | some .write => do
    let fd ← function.field sizeFd 0
    let count ← function.field sizeBuffer 2
    let buffer ← function.field (fromLe count) 1
    let offset ← function.field sizeOffset 3
    return some (.write (fromLe fd) buffer (abi.long (fromLe offset)))
  | some .read => do
    let fd ← function.field sizeFd 0
    let count ← function.field sizeBuffer 1
    let offset ← function.field sizeOffset 2
    return some (.read (fromLe fd) (fromLe count) (abi.long (fromLe offset)))
  | some .remove => do
    let path ← function.string 0
    return some (.remove path)
  | some .mkdir => do
    let path ← function.string 0
    return some (.mkdir path 0)
  | some .rmdir => do
    let path ← function.string 0
    return some (.rmdir path)
  | some .stat => do
    let path ← function.string 0
    return some (.stat path)
  | some .readdir => do
    let path ← function.string 0
    return some (.readdir path)
  | some .rename => do
    let oldPath ← function.string 0
    let newPath ← function.string 1
    return some (.rename oldPath newPath)
  | some .truncate => do
    let path ← function.string 0
    let size ← function.field abi.offT.size 1
    return some (.truncate path (fromLeInt size))
  | _ => return none

/-- The function of `fs_sac.c` that answers a call. SRCLINE: server.c:102-161 -/
def perform (abi : Abi) : Request → Sac Package
  | .open path _ => FsSac.sacOpen abi path
  | .close fd => FsSac.sacClose abi fd.toNat
  | .write fd buffer offset => FsSac.sacWrite abi fd.toNat buffer offset
  | .read fd count offset => FsSac.sacRead abi fd.toNat count.toNat offset
  | .remove path => FsSac.sacRemove abi path
  | .mkdir path _ => FsSac.sacMkdir abi path
  | .rmdir path => FsSac.sacRmdir abi path
  | .stat path => FsSac.sacStat abi path
  | .readdir path => FsSac.sacReaddir abi path
  | .rename oldPath newPath => FsSac.sacRename abi oldPath newPath
  | .truncate path size => FsSac.sacTruncate abi path size

/-- `execute`. SRCLINE: server.c:102-161 -/
def execute (abi : Abi) (function : Function) : Sac Package := do
  match ← checked (requestOf abi function) with
  | none => return createDefaultPackage (-1)
  | some request => perform abi request

/-- `attend_connection` from the package behind the handshake on: the answer it sends.
SRCLINE: server.c:81-92 -/
def attendConnection (abi : Abi) (package : Package) : Sac Package := do
  let funcion ← checked (deserialize abi.offT package)
  -- the call dereferences the pointer, NULL for an unknown message
  let funcion ← checked funcion
  checked (logFunctionCall funcion)
  execute abi funcion

end LinuseFs.Model
