import LinuseFs.Model.Client
import LinuseFs.Model.Server

/-!
# The callbacks of FUSE

`client.c` and the callbacks of `fuse.c`, with the server they call.  `send_function` makes a
connection for each call, so that nobody else's bytes are in its socket; a `recv` that waits for
bytes that nobody sends does not return, which is the fault `spin`.

The state is that of the server.  The client keeps none between its calls: what it stores for the
kernel (the descriptor in `fi->fh`, the bytes of a read, the attributes) is in the result.  The
result of an `int` function is what the kernel sees, an `errno` when it is negative.
-/

set_option autoImplicit false

namespace LinuseFs.Model

open LinuseFs.Computation

/-! ## A call of the server -/

/-- A `recv` with `MSG_WAITALL`. -/
def received {α : Type} : Option α → Sac α
  | none => throw .spin
  | some a => return a

/-- `attend_connection` on the bytes in the socket: the bytes it sends back before it closes the
connection. SRCLINE: server.c:74-100 -/
def attendSocket (abi : Abi) (stream : List UInt8) : Sac (List UInt8) := do
  let (package, stream) ← received (receivePackage stream)
  if package.messageId = Identifier.sac.code then do
    let (package, _) ← received (receivePackage stream)
    let response ← attendConnection abi package
    checked (sendPackage response)
  else return []

section Client

/- What `malloc` gives the client, and the type of its `off_t`: the client is compiled with
`_FILE_OFFSET_BITS=64`. -/
variable (fresh : ℕ → UInt8) (abi : Abi)

/-- `send_function`, from the connection to the answer. SRCLINE: client.c:21-76 -/
def callServer (request : Request) : Sac Package := do
  let stream ← checked (sendFunction fresh abi .bits64 request)
  let answer ← attendSocket abi stream
  let (response, _) ← received (receivePackage answer)
  return response

/-! ## The callbacks -/

/-- `ENOENT`. -/
abbrev enoent : ℤ := 2

/-- `EACCES`. -/
abbrev eacces : ℤ := 13

/-- `ENOTEMPTY`. -/
abbrev enotempty : ℤ := 39

/-- `_correct_path`: the path is not that of a hidden file or of `/autorun.inf`.
SRCLINE: fuse.c:347-349 -/
def correctPath (path : CString) : Bool :=
  !([47, 46] : List UInt8).isPrefixOf path.val &&
    path.val ≠ [47, 97, 117, 116, 111, 114, 117, 110, 46, 105, 110, 102]

/-- The descriptor of an answer to OPEN, as `do_open` and `do_create` store it. -/
def descriptorOf (response : Package) : ℤ × Option ℤ :=
  let fd := i32 response.messageId
  if fd < 0 then (-eacces, none) else (0, some fd)

/-- `do_open`, with the flags `O_RDWR|O_CREAT`: its result and the descriptor it stores.
SRCLINE: fuse.c:57-75 -/
def doOpen (path : CString) : Sac (ℤ × Option ℤ) := do
  if !correctPath path then return (0, none)
  else do
    let response ← callServer fresh abi (.open path 66)
    return descriptorOf response

/-- `do_create`, with the flags `O_CREAT|O_WRONLY|O_TRUNC`. SRCLINE: fuse.c:284-298 -/
def doCreate (path : CString) : Sac (ℤ × Option ℤ) := do
  let response ← callServer fresh abi (.open path 577)
  return descriptorOf response

/-- `do_read`: its result and the bytes it copies to the buffer, which has room for `size` of
them. SRCLINE: fuse.c:95-114 -/
def doRead (path : CString) (size : ℕ) (offset fh : ℤ) : Sac (ℤ × List UInt8) := do
  if !correctPath path then return (0, [])
  else do
    let fd := i32 fh
    let response ← callServer fresh abi (.read fd size offset)
    let bytes ← checked (peek response.data 0 response.size)
    if size < response.size then throw .memory
    else do
      let readSize := if response.messageId = 0 then i32 response.size else i32 response.messageId
      return (readSize, bytes)

/-- `do_write`. SRCLINE: fuse.c:116-128 -/
def doWrite (buffer : List UInt8) (offset fh : ℤ) : Sac ℤ := do
  let fd := i32 fh
  let response ← callServer fresh abi (.write fd buffer offset)
  return i32 response.messageId

/-- The fields of `struct stat` that `__fill_stat_from_buffer` takes from the answer. -/
structure Attributes where
  mode : ℕ
  nlink : ℕ
  ino : ℕ
  size : ℕ
  mtime : ℕ
  ctime : ℕ
  atime : ℕ
  deriving DecidableEq, Repr

/-- `__fill_stat_from_buffer`, with the modes `S_IFDIR | 0777` and `S_IFREG | 0777`.
SRCLINE: fuse.c:351-379 -/
def fillStatFromBuffer (buffer : List UInt8) : Option Attributes := do
  let isDirOrFile ← peek buffer 0 2
  let nodeNum ← peek buffer 2 2
  let size ← peek buffer 4 4
  let mtime ← peek buffer 8 8
  let ctime ← peek buffer 16 8
  let isDir := fromLeInt isDirOrFile = 2
  return {
    mode := if isDir then 0o40777 else 0o100777
    nlink := if isDir then 2 else 1
    ino := fromLe nodeNum
    size := fromLe size
    mtime := fromLe mtime
    ctime := fromLe ctime
    atime := fromLe mtime }

/-- `do_getattr`: its result and the attributes it stores. SRCLINE: fuse.c:146-166 -/
def doGetattr (path : CString) : Sac (ℤ × Option Attributes) := do
  if !correctPath path then return (0, none)
  else do
    let response ← callServer fresh abi (.stat path)
    if i32 response.messageId = 0 then do
      let stbuf ← checked (fillStatFromBuffer response.data)
      return (0, some stbuf)
    else return (-enoent, none)

/-- `do_readdir`: its result and the strings it passes to `filler`. SRCLINE: fuse.c:185-214 -/
def doReaddirCall (path : CString) : Sac (ℤ × List (List UInt8)) := do
  let response ← callServer fresh abi (.readdir path)
  checked (doReaddir response)

/-- `do_remove`. SRCLINE: fuse.c:216-226 -/
def doRemove (path : CString) : Sac ℤ := do
  let response ← callServer fresh abi (.remove path)
  return i32 response.messageId

/-- `do_release`. SRCLINE: fuse.c:239-252 -/
def doRelease (path : CString) (fh : ℤ) : Sac ℤ := do
  if !correctPath path then return 0
  else do
    let fd := i32 fh
    let response ← callServer fresh abi (.close fd)
    return i32 response.messageId

/-- `do_mkdir`. SRCLINE: fuse.c:254-263 -/
def doMkdir (path : CString) (mode : ℤ) : Sac ℤ := do
  let response ← callServer fresh abi (.mkdir path mode)
  return i32 response.messageId

/-- `do_rmdir`; the paths `.` and `..` are refused. SRCLINE: fuse.c:265-279 -/
def doRmdir (path : CString) : Sac ℤ := do
  if path.val = [46] ∨ path.val = [46, 46] then return -1
  else do
    let response ← callServer fresh abi (.rmdir path)
    let res := i32 response.messageId
    if res = -2 then return -enotempty else return res

/-- `do_truncate`. SRCLINE: fuse.c:306-315 -/
def doTruncate (path : CString) (size : ℤ) : Sac ℤ := do
  let response ← callServer fresh abi (.truncate path size)
  return i32 response.messageId

/-- `do_rename`. SRCLINE: fuse.c:317-326 -/
def doRename (oldPath newPath : CString) : Sac ℤ := do
  let response ← callServer fresh abi (.rename oldPath newPath)
  return i32 response.messageId

/-! ## The table of FUSE -/

/-- A call of an entry of `do_oper`.  The entries that return 0 whatever they are given (`flush`,
`opendir` and `access`) are left out. SRCLINE: fuse.h:43-60 -/
inductive Callback
  | getattr (path : CString)
  | open (path : CString)
  | create (path : CString)
  | truncate (path : CString) (size : ℤ)
  | release (path : CString) (fh : ℤ)
  | rename (oldPath newPath : CString)
  | read (path : CString) (size : ℕ) (offset fh : ℤ)
  | write (buffer : List UInt8) (offset fh : ℤ)
  | unlink (path : CString)
  | mkdir (path : CString) (mode : ℤ)
  | rmdir (path : CString)
  | readdir (path : CString)

/-- What a callback gives the kernel: its result, and what it stores. -/
structure KernelReply where
  res : ℤ
  stbuf : Option Attributes := none
  fh : Option ℤ := none
  buffer : List UInt8 := []
  entries : List (List UInt8) := []

/-- The function of an entry of `do_oper`. SRCLINE: fuse.h:43-60 -/
def Callback.invoke : Callback → Sac KernelReply
  | .getattr path => do
    let (res, stbuf) ← doGetattr fresh abi path
    return { res, stbuf }
  | .open path => do
    let (res, fh) ← doOpen fresh abi path
    return { res, fh }
  | .create path => do
    let (res, fh) ← doCreate fresh abi path
    return { res, fh }
  | .truncate path size => return { res := ← doTruncate fresh abi path size }
  | .release path fh => return { res := ← doRelease fresh abi path fh }
  | .rename oldPath newPath => return { res := ← doRename fresh abi oldPath newPath }
  | .read path size offset fh => do
    let (res, buffer) ← doRead fresh abi path size offset fh
    return { res, buffer }
  | .write buffer offset fh => return { res := ← doWrite fresh abi buffer offset fh }
  | .unlink path => return { res := ← doRemove fresh abi path }
  | .mkdir path mode => return { res := ← doMkdir fresh abi path mode }
  | .rmdir path => return { res := ← doRmdir fresh abi path }
  | .readdir path => do
    let (res, entries) ← doReaddirCall fresh abi path
    return { res, entries }

end Client

end LinuseFs.Model
