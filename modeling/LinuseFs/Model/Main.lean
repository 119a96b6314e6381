import LinuseFs.Model.Format
import LinuseFs.Model.Server

/-!
# The server process

`main` of `sac.c` and the loop of `server_init`, for connections that are answered one after the
other.  What the functions print is left out, what they read for it is not; the arguments ask for
no formatting.

The loop is left only if `pthread_create` answers a negative number.  A connection for which there
is no thread is not attended; the `accept` after the last one blocks.
-/

set_option autoImplicit false

namespace LinuseFs.Model

open LinuseFs.Computation

/-! ## What is printed -/

/-- `print_entries`. SRCLINE: directory.c:135-142 -/
def printEntries (node : Node) : Sac Unit := do
  let _ ← iteratePointersBlocks (fun _ acc => (invalidEntry, acc)) node ()
  return

/-- The inner loop of `printNodeInfo` over the slots of one pointer block.
SRCLINE: node.c:162-168 -/
def printDataBlocks (bloquePunteros : ℕ) : ℕ → ℕ → ℕ → Sac ℕ
  | 0, _, cantBloques => return cantBloques
  | n + 1, j, cantBloques => do
    if cantBloques > 0 then do
      let _ ← bytesToInt32 bloquePunteros (j * 4)
      printDataBlocks bloquePunteros n (j + 1) (cantBloques - 1)
    else return cantBloques

/-- The outer loop of `printNodeInfo` over the pointer blocks. SRCLINE: node.c:159-172 -/
def printPointersBlocks (unNodo : Node) : ℕ → ℕ → ℕ → Sac Unit
  | 0, _, _ => return
  | n + 1, i, cantBloques => do
    if unNodo.indirectPointerBlock i ≠ 0 then do
      let bloquePunteros := readBlock (unNodo.indirectPointerBlock i)
      let cantBloques ← printDataBlocks bloquePunteros 1024 0 cantBloques
      printPointersBlocks unNodo n (i + 1) cantBloques
    else return

/-- `printNodeInfo`. SRCLINE: node.c:145-176 -/
def printNodeInfo (unNodo : Node) : Sac Unit :=
  printPointersBlocks unNodo pointersPerNode 0 (unNodo.fileSize / blockSize + 1)

/-- `printNodeInfoWithNodeNum`. SRCLINE: node.c:177-188 -/
def printNodeInfoWithNodeNum (nodeNumber : ℕ) : Sac Unit := do
  let (nodo, bloqueNodo) ← readNode nodeNumber
  if nodo.state = 0 then return
  else do
    printNodeInfo nodo
    unmapAndDestroyNode nodo bloqueNodo

/-! ## The loop of server_init -/

/-- A connection that the loop accepts: what `pthread_create` answers for its thread, the message
of the handshake, and the package behind it. -/
structure Connection where
  created : ℤ
  handshake : ℤ
  package : Package

/-- `attend_connection`. SRCLINE: server.c:74-100 -/
def Connection.attend (abi : Abi) (connection : Connection) : Sac Unit := do
  if connection.handshake = Identifier.sac.code then do
    let _ ← attendConnection abi connection.package
    return
  else return

/-- The loop of `server_init` over the connections: whether it is left.
SRCLINE: server.c:30-42 -/
def serverInit (abi : Abi) : List Connection → Sac Bool
  | [] => return false
  | connection :: connections => do
    if connection.created < 0 then return true
    else if connection.created = 0 then do
      connection.attend abi
      serverInit abi connections
    else serverInit abi connections

/-! ## main -/

/-- The path `/archivo1.txt`. -/
def archivo1 : CString := ⟨[47, 97, 114, 99, 104, 105, 118, 111, 49, 46, 116, 120, 116], by decide⟩

/-- What `main` does behind the loop of `server_init`: it prints the root directory, creates and
truncates a file, and stores the bitmap. SRCLINE: sac.c:34-72 -/
def afterServer (abi : Abi) : Sac Unit := do
  let entrada ← searchPath [slash]
  let (_, nodeBlock) ← readNode entrada.nodeNum
  let node ← blockToNode nodeBlock
  printEntries node
  let _ ← sacOpen archivo1
  let _ ← sacTruncate abi archivo1 4000
  let fd ← sacOpen archivo1
  printNodeInfoWithNodeNum (u32 fd)
  let node ← blockToNode nodeBlock
  printEntries node
  unmapAndDestroyNode node nodeBlock
  unmapBitmap

/-- `main`, for the connections that arrive: whether it ends. SRCLINE: sac.c:12-78 -/
def main (abi : Abi) (connections : List Connection) : Sac Bool := do
  loadBitmap
  let left ← serverInit abi connections
  if left then do
    afterServer abi
    return true
  else return false

end LinuseFs.Model
