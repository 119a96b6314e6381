import LinuseFs.Model.Node

/-!
# Paths and directories

`directory.c` and the path helpers of `utils.c`.  A path is a C string; `string_split`
returns its non-empty pieces between slashes.  A directory is read by three nested
loops over its pointer blocks, data blocks and records, which hand each record to a
function until it returns a valid entry.
-/

set_option autoImplicit false

namespace LinuseFs.Model

open LinuseFs.Computation

/-- A C string: bytes without NUL. -/
abbrev CString := { l : List UInt8 // (0 : UInt8) ∉ l }

/-- The byte of `/`. -/
abbrev slash : UInt8 := 47

/-- `string_split(path, "/")` of the commons. -/
def stringSplit (path : List UInt8) : List (List UInt8) :=
  (path.splitOn slash).filter (· ≠ [])

/-- `string_substring_until` of the commons. -/
def stringSubstringUntil (s : List UInt8) (length : ℕ) : List UInt8 := s.take length

/-- `is_valid_path`. SRCLINE: directory.c:130-132 -/
def isValidPath (path : List UInt8) : Bool :=
  !path.isEmpty && path.head? == some slash &&
    (path.length == 1 || !(path.getLast? == some slash))

/-- `_get_new_dir_name_from_path`: the last piece, `splitted_path[len-1]`.
SRCLINE: directory.c:298-305 -/
def getNewDirNameFromPath (path : List UInt8) : Sac (List UInt8) :=
  match (stringSplit path).getLast? with
  | none => throw .memory
  | some name => pure name

/-- `_get_pre_dir_path_from_path`. SRCLINE: directory.c:307-309 -/
def getPreDirPathFromPath (path newDirName : List UInt8) : List UInt8 :=
  stringSubstringUntil path (path.length - newDirName.length)

/-- `getFileNameFromFilePath`. SRCLINE: utils.c:233-240 -/
def getFileNameFromFilePath (filePath : List UInt8) : Sac (List UInt8) :=
  match (stringSplit filePath).getLast? with
  | none => throw .memory
  | some name => pure name

/-- `getFolderPathFromFilePath`. SRCLINE: utils.c:219-232 -/
def getFolderPathFromFilePath (filePath : List UInt8) : Sac (List UInt8) :=
  match (stringSplit filePath).getLast? with
  | none => throw .memory
  | some name => pure (stringSubstringUntil filePath (filePath.length - name.length - 1))

/-- `t_data_position`. SRCLINE: directory.h:7-11 -/
structure DataPosition where
  pointerBlockNum : ℕ
  blockNum : ℕ
  byteNum : ℕ
  deriving DecidableEq, Repr, Inhabited

/-- `t_dir_entry`. SRCLINE: directory.h:13-17 -/
structure DirEntry where
  name : List UInt8
  nodeNum : ℕ
  data : DataPosition
  deriving DecidableEq, Repr

/-- `{ .name[0] = '\0' }`. -/
def invalidEntry : DirEntry := { name := [], nodeNum := 0, data := default }

/-- `is_valid_entry`. SRCLINE: directory.c:126-128 -/
def isValidEntry (entry : DirEntry) : Bool := entry.name ≠ []

/-- `get_next_write_position`. SRCLINE: directory.c:113-124 -/
def getNextWritePosition (node : Node) : DataPosition :=
  let totalBlockNum := node.fileSize / blockSize
  { pointerBlockNum := totalBlockNum / 1024
    blockNum := totalBlockNum % 1024
    byteNum := node.fileSize % blockSize }

/-- `__next_byte`. SRCLINE: directory.c:311-313 -/
def nextByte (pos minLimit maxLimit : ℕ) (isLastBlock : Bool) : Bool :=
  pos ≤ minLimit || (pos < maxLimit && !isLastBlock)

/-! ## Iteration over the records -/

/-- A function applied to the records, with the variables it captures. -/
abbrev ProcessEntry (τ : Type) := DirEntry → τ → DirEntry × τ

/-- `_read_directory_entry`.  The name is copied by `strcpy` into 71 bytes; it must end
inside the page. SRCLINE: directory.c:291-296 -/
def readDirectoryEntry (block pos : ℕ) : Sac DirEntry := do
  let nodeNum ← bytesToInt32 block pos
  let bytes ← load block (pos + 4) (blockSize - (pos + 4))
  match cstr bytes 0 (min fileNameSize (blockSize - (pos + 4))) with
  | none => throw .memory
  | some name => return { name := name, nodeNum := nodeNum, data := default }

section Iterate

variable {τ : Type} (process : ProcessEntry τ)

/-- The loop of `iterate_bytes_in_block` from byte `k` on.  The count bounds the rounds:
at `k = BLOCK_SIZE` the read of the record leaves the page. SRCLINE: directory.c:279-289 -/
def iterateBytesInBlock (dataBlock : ℕ) (isLastDataBlock : Bool) (position : DataPosition) :
    ℕ → ℕ → DirEntry → τ → Sac (DirEntry × τ)
  | 0, _, _, _ => throw .memory
  | n + 1, k, result, acc => do
    if !isValidEntry result &&
        nextByte k (u32 (position.byteNum - 1)) blockSize isLastDataBlock then do
      let entry ← readDirectoryEntry dataBlock k
      let (result, acc) := process entry acc
      iterateBytesInBlock dataBlock isLastDataBlock position n (k + 128) result acc
    else
      return ({ result with data := { result.data with byteNum := k - 128 } }, acc)

/-- The loop of `iterate_blocks` from slot `j` on; `nroBloque` is the number read in the
previous round. SRCLINE: directory.c:262-277 -/
def iterateBlocks (pointersBlock : ℕ) (isLastPointersBlock : Bool)
    (position : DataPosition) :
    ℕ → ℕ → ℕ → DirEntry → τ → Sac (DirEntry × τ)
  | 0, _, _, _, _ => throw .memory
  | n + 1, j, nroBloque, result, acc => do
    if !isValidEntry result && nextByte j position.blockNum 1024 isLastPointersBlock then do
      let nroBloque ← bytesToInt32 pointersBlock (j * 4)
      let dataBlock := readBlock nroBloque
      let isLastDataBlock := (j == position.blockNum) && isLastPointersBlock
      let (result, acc) ←
        iterateBytesInBlock process dataBlock isLastDataBlock position 34 0 invalidEntry acc
      iterateBlocks pointersBlock isLastPointersBlock position n (j + 1) nroBloque result acc
    else
      return ({ result with data := { result.data with blockNum := nroBloque } }, acc)

/-- The loop of `iterate_pointers_blocks` from pointer `i` on.
SRCLINE: directory.c:218-237 -/
def iteratePointers (node : Node) (position : DataPosition) :
    ℕ → ℕ → DirEntry → τ → Sac (DirEntry × τ)
  | 0, _, _, _ => throw .memory
  | n + 1, i, result, acc => do
    if isValidEntry result then return (result, acc)
    else do
      let pointer ← node.pointerAt i
      if pointer ≠ 0 ∧ node.state ≠ 0 then do
        let pointersBlock := readBlock pointer
        let isLastPointersBlock := i == position.pointerBlockNum
        let (result, acc) ←
          iterateBlocks process pointersBlock isLastPointersBlock position 1025 0 0
            invalidEntry acc
        iteratePointers node position n (i + 1) result acc
      else return (result, acc)

/-- `iterate_pointers_blocks`. SRCLINE: directory.c:218-237 -/
def iteratePointersBlocks (node : Node) (acc : τ) : Sac (DirEntry × τ) := do
  let position := getNextWritePosition node
  let (result, acc) ← iteratePointers process node position 1001 0 invalidEntry acc
  return ({ result with data := { result.data with pointerBlockNum := 2 ^ 32 - 1 } }, acc)

end Iterate

/-- The nested function of `get_entry` and of `delete_directory_entry`: the entry if it
has the name, an invalid one otherwise. SRCLINE: directory.c:60-67, directory.c:101-104 -/
def findEntry (entryName : List UInt8) : ProcessEntry Unit :=
  fun entry _ => (if entry.name = entryName then entry else invalidEntry, ())

/-- `get_entry`. SRCLINE: directory.c:100-106 -/
def getEntry (node : Node) (entryName : List UInt8) : Sac DirEntry := do
  let (entry, _) ← iteratePointersBlocks (findEntry entryName) node ()
  return entry

/-- `exists_entry`. SRCLINE: directory.c:108-111 -/
def existsEntry (node : Node) (entryName : List UInt8) : Sac Bool := do
  let entry ← getEntry node entryName
  return isValidEntry entry

/-- The loop of `search_path` over the pieces still to look up.
SRCLINE: directory.c:26-33 -/
def searchPieces : List (List UInt8) → DirEntry → Sac DirEntry
  | [], entry => return entry
  | piece :: pieces, entry => do
    if isValidEntry entry then do
      let (node, nodeBlock) ← readNode entry.nodeNum
      let entry ← getEntry node piece
      unmapAndDestroyNode node nodeBlock
      searchPieces pieces entry
    else return entry

/-- `search_path`. SRCLINE: directory.c:17-37 -/
def searchPath (path : List UInt8) : Sac DirEntry :=
  searchPieces (stringSplit path) { name := [slash], nodeNum := 0, data := default }

/-- `read_next_data_block`. SRCLINE: directory.c:194-213 -/
def readNextDataBlock (node : Node) (position : DataPosition) : Sac (ℕ × Node) := do
  let pointer ← node.pointerAt position.pointerBlockNum
  if pointer = 0 then do
    let (_, node) ← createPointersBlockInNode node position.pointerBlockNum
    let dataBlockNum ←
      createDataBlockInPointerBlock node position.pointerBlockNum position.blockNum
    return (readBlock dataBlockNum, node)
  else do
    let dataBlockNum ← bytesToInt32 (readBlock pointer) (position.blockNum * 4)
    return (readBlock dataBlockNum, node)

/-- `add_directory_entry`.  The name is copied by `strcpy` into a local array of 124
bytes, all of which are written to the record. SRCLINE: directory.c:40-56 -/
def addDirectoryEntry (node : Node) (name : List UInt8) (nodeNum : ℕ) : Sac Node := do
  let stack ← malloc
  if name.length < 124 then do
    let entryName := memcpy stack 0 (ofList (name ++ [0])) (name.length + 1)
    let position := getNextWritePosition node
    let (dataBlock, node) ← readNextDataBlock node position
    store dataBlock position.byteNum (leBytes nodeNum) 4
    store dataBlock (position.byteNum + 4) entryName 124
    return { node with fileSize := u32 (node.fileSize + 128) }
  else throw .memory

/-- `delete_directory_entry`.  The overlapping `memcpy` towards lower addresses moves the
rest of the block down by one record. SRCLINE: directory.c:58-83 -/
def deleteDirectoryEntry (node : Node) (name : List UInt8) : Sac Node := do
  let (entradaEliminar, _) ← iteratePointersBlocks (findEntry name) node ()
  if isValidEntry entradaEliminar then do
    let unBloque := readBlock entradaEliminar.data.blockNum
    let byteNum := entradaEliminar.data.byteNum
    let _ ← load unBloque byteNum 128
    let resto ← load unBloque (byteNum + dirEntrySize) (blockSize - (byteNum + dirEntrySize))
    store unBloque byteNum resto (blockSize - (byteNum + dirEntrySize))
    let node := { node with fileSize := u32 (node.fileSize - dirEntrySize) }
    if node.fileSize = 0 then node.setPointer 0 0 else return node
  else return node

/-- The loop of `delete_all_directory_entries` from pointer `i` on.
SRCLINE: directory.c:90-93 -/
def freePointersBlocks (node : Node) : ℕ → ℕ → Sac Unit
  | 0, _ => return
  | n + 1, i => do
    if node.indirectPointerBlock i ≠ 0 then do
      freeBlock (node.indirectPointerBlock i)
      freePointersBlocks node n (i + 1)
    else return

/-- `delete_all_directory_entries`. SRCLINE: directory.c:85-96 -/
def deleteAllDirectoryEntries (nodeNum : ℕ) : Sac Unit := do
  let (unNodo, unBloque) ← readNode nodeNum
  freePointersBlocks unNodo pointersPerNode 0
  unmapAndDestroyNode unNodo unBloque

/-- The node that `create_dir_node` builds. SRCLINE: directory.c:153-159 -/
def createDirNode (name : List UInt8) (parentNodeNum : ℕ) : Sac Node := do
  let parentBlock := getBlockNumFromNodeNum parentNodeNum
  let date ← time
  createNode 2 name parentBlock 0 date date fun _ => 0

/-- `create_and_save_dir_node`. SRCLINE: directory.c:161-166 -/
def createAndSaveDirNode (newDirName : List UInt8) (preDirNodeNum newBlockNum : ℕ) :
    Sac Unit := do
  let newDirNode ← createDirNode newDirName preDirNodeNum
  let newNodeBlock := readBlock newBlockNum
  nodeToBlock newDirNode newNodeBlock
  unmapAndDestroyNode newDirNode newNodeBlock

/-- `create_dir_node_and_add_entry`. SRCLINE: directory.c:168-179 -/
def createDirNodeAndAddEntry (preDirNode : Node) (preDirNodeNum : ℕ)
    (newDirName : List UInt8) : Sac Node := do
  let newBlockNum ← getFreeNodeBlock
  let newNodeNum := newBlockNum - nodeTableInitialBlock
  createAndSaveDirNode newDirName preDirNodeNum newBlockNum
  addDirectoryEntry preDirNode newDirName newNodeNum

/-- The nested function of `add_childs_to_list`. SRCLINE: directory.c:325-331 -/
def addChild : ProcessEntry (List DirEntry) :=
  fun entry unaLista => (invalidEntry, unaLista ++ [entry])

/-- `add_childs_to_list`. SRCLINE: directory.c:319-335 -/
def addChildsToList (unaLista : List DirEntry) (unaDirEntry : DirEntry) :
    Sac (List DirEntry) := do
  let (unNodo, unBloque) ← readNode unaDirEntry.nodeNum
  let (_, unaLista) ← iteratePointersBlocks addChild unNodo unaLista
  unmapAndDestroyNode unNodo unBloque
  return unaLista

/-- `is_directory`. SRCLINE: directory.c:336-345 -/
def isDirectory (entry : DirEntry) : Sac Bool := do
  let (unNodo, _) ← readNode entry.nodeNum
  return unNodo.state = 2

/-- `delete_parent_entry`. SRCLINE: utils.c:202-218 -/
def deleteParentEntry (unaEntrada : DirEntry) : Sac Unit := do
  let (unNodo, unBloque) ← readNode unaEntrada.nodeNum
  let bloquePadre := readBlock unNodo.parentBlock
  let nodoPadre ← blockToNode bloquePadre
  let nodoPadre ← deleteDirectoryEntry nodoPadre unaEntrada.name
  unmapAndDestroyNode unNodo unBloque
  unmapAndDestroyNode nodoPadre bloquePadre

end LinuseFs.Model
