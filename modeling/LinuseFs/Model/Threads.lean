import LinuseFs.Model.Sacio
import LinuseFs.Computation.Steps

/-!
# Two connections at once

`server.c` gives each connection a thread and the threads no lock, so the steps of two requests
mix.  Here `sac_mkdir` and `sac_open` are programs in atomic steps on the disk and the bitmap that
the threads share: reading a node, looking a name up, testing a bit, setting one, reading and
writing bytes of a data block, writing a node back.  The functions have the names they have as
computations; the theorems at the end say that a program run alone is that computation.
-/

set_option autoImplicit false

namespace LinuseFs.Model

open LinuseFs.Computation

/-- The steps of a thread on what it shares with the others; the last two only ask for memory and
for the time. -/
inductive DiskStep
  | readNode (nodeNum : ℕ)
  | getEntry (node : Node) (entryName : List UInt8)
  | blockIsFree (blockNumber : ℕ)
  | bitarraySetBit (n : ℕ)
  | bytesToInt32 (block pos : ℕ)
  | store (block pos : ℕ) (src : Bytes) (len : ℕ)
  | nodeToBlock (node : Node) (block : ℕ)
  | malloc
  | time

/-- What a step answers. -/
def DiskStep.Answer : DiskStep → Type
  | readNode _ => Node × ℕ
  | getEntry _ _ => DirEntry
  | blockIsFree _ => Bool
  | bitarraySetBit _ => Unit
  | bytesToInt32 _ _ => ℕ
  | store _ _ _ _ => Unit
  | nodeToBlock _ _ => Unit
  | malloc => Bytes
  | time => ℕ

/-- What a step does. -/
def DiskStep.exec : (l : DiskStep) → Sac l.Answer
  | readNode nodeNum => Model.readNode nodeNum
  | getEntry node entryName => Model.getEntry node entryName
  | blockIsFree blockNumber => do
    let s ← get
    return Model.blockIsFree s blockNumber
  | bitarraySetBit n => Model.bitarraySetBit n
  | bytesToInt32 block pos => Model.bytesToInt32 block pos
  | store block pos src len => Model.store block pos src len
  | nodeToBlock node block => Model.nodeToBlock node block
  | malloc => Model.malloc
  | time => Model.time

/-- A thread of the server. -/
abbrev Thread := Steps Fault DiskStep.Answer

namespace Threaded

/-! ## The steps -/

def readNode (nodeNum : ℕ) : Thread (Node × ℕ) := Steps.atomic (DiskStep.readNode nodeNum)

def getEntry (node : Node) (entryName : List UInt8) : Thread DirEntry :=
  Steps.atomic (DiskStep.getEntry node entryName)

def blockIsFree (blockNumber : ℕ) : Thread Bool := Steps.atomic (DiskStep.blockIsFree blockNumber)

def bitarraySetBit (n : ℕ) : Thread Unit := Steps.atomic (DiskStep.bitarraySetBit n)

def bytesToInt32 (block pos : ℕ) : Thread ℕ := Steps.atomic (DiskStep.bytesToInt32 block pos)

def store (block pos : ℕ) (src : Bytes) (len : ℕ) : Thread Unit :=
  Steps.atomic (DiskStep.store block pos src len)

def nodeToBlock (node : Node) (block : ℕ) : Thread Unit := Steps.atomic (DiskStep.nodeToBlock node block)

def malloc : Thread Bytes := Steps.atomic DiskStep.malloc

def time : Thread ℕ := Steps.atomic DiskStep.time

/-! ## bitmap.c -/

/-- The loop of `_get_free_block`: each round tests one bit. SRCLINE: bitmap.c:31-33 -/
def scanBitmap : ℕ → ℕ → Thread ℕ
  | 0, _ => .stop .pastBitmap
  | n + 1, bitIndex => do
    let free ← blockIsFree bitIndex
    if free then return bitIndex else scanBitmap n (bitIndex + 1)

/-- `_get_free_block`: the bit is set in a step of its own. SRCLINE: bitmap.c:29-38 -/
def getFreeBlock (fromBlockNum toBlockNum : ℕ) : Thread ℕ := do
  let bitIndex ← scanBitmap (bitmapSize * 8 - fromBlockNum) fromBlockNum
  if bitIndex ≥ toBlockNum then .stop .noBlocks
  else do
    bitarraySetBit bitIndex
    return bitIndex

/-- `get_free_node_block`. SRCLINE: bitmap.c:10-12 -/
def getFreeNodeBlock : Thread ℕ :=
  getFreeBlock nodeTableInitialBlock (nodeTableInitialBlock + nodeTableBlocks)

/-- `get_free_data_block`. SRCLINE: bitmap.c:15-17 -/
def getFreeDataBlock : Thread ℕ :=
  getFreeBlock (nodeTableInitialBlock + nodeTableBlocks) totalBlocks

/-! ## node.c -/

/-- `create_node`. SRCLINE: utils.c:88-99 -/
def createNode (state : UInt8) (fileName : List UInt8)
    (parentBlock fileSize creationDate modificationDate : ℕ)
    (indirectPointerBlock : ℕ → ℕ) : Thread Node := do
  let fresh ← malloc
  if fileName.length < fileNameSize then
    return { state := state
             fileName := memcpy fresh 0 (ofList (fileName ++ [0])) (fileName.length + 1)
             parentBlock := parentBlock
             fileSize := fileSize
             creationDate := creationDate
             modificationDate := modificationDate
             indirectPointerBlock := indirectPointerBlock }
  else .stop .memory

/-- `unmap_and_destroy_node`. SRCLINE: node.c:47-51 -/
def unmapAndDestroyNode (node : Node) (nodeBlock : ℕ) : Thread Unit := nodeToBlock node nodeBlock

/-- `node->indirect_pointer_block[pos]`. -/
def pointerAt (node : Node) (pos : ℕ) : Thread ℕ :=
  if pos < pointersPerNode then pure (node.indirectPointerBlock pos) else .stop .memory

/-- `node->indirect_pointer_block[pos] = value`. -/
def setPointer (node : Node) (pos value : ℕ) : Thread Node :=
  if pos < pointersPerNode then
    pure { node with
      indirectPointerBlock := Function.update node.indirectPointerBlock pos value }
  else .stop .memory

/-- `create_pointers_block_in_node`. SRCLINE: node.c:55-62 -/
def createPointersBlockInNode (node : Node) (pointersBlockArrayPos : ℕ) :
    Thread (ℕ × Node) := do
  let newPointersBlockNum ← getFreeDataBlock
  let node ← setPointer node pointersBlockArrayPos newPointersBlockNum
  return (newPointersBlockNum, node)

/-- `create_data_block_in_pointer_block`. SRCLINE: node.c:66-78 -/
def createDataBlockInPointerBlock (node : Node) (pointersBlockArrayPos position : ℕ) :
    Thread ℕ := do
  let newDataBlockNum ← getFreeDataBlock
  let pointersBlockNum ← pointerAt node pointersBlockArrayPos
  let pointersBlock := readBlock pointersBlockNum
  store pointersBlock (position * 4) (leBytes newDataBlockNum) 4
  return newDataBlockNum

/-! ## directory.c -/

/-- `exists_entry`. SRCLINE: directory.c:108-111 -/
def existsEntry (node : Node) (entryName : List UInt8) : Thread Bool := do
  let entry ← getEntry node entryName
  return isValidEntry entry

/-- The loop of `search_path`: each node on the way is written back as it was read.
SRCLINE: directory.c:26-33 -/
def searchPieces : List (List UInt8) → DirEntry → Thread DirEntry
  | [], entry => return entry
  | piece :: pieces, entry => do
    if isValidEntry entry then do
      let (node, nodeBlock) ← readNode entry.nodeNum
      let entry ← getEntry node piece
      unmapAndDestroyNode node nodeBlock
      searchPieces pieces entry
    else return entry

/-- `search_path`. SRCLINE: directory.c:17-37 -/
def searchPath (path : List UInt8) : Thread DirEntry :=
  searchPieces (stringSplit path) { name := [slash], nodeNum := 0, data := default }

/-- `read_next_data_block`. SRCLINE: directory.c:194-213 -/
def readNextDataBlock (node : Node) (position : DataPosition) : Thread (ℕ × Node) := do
  let pointer ← pointerAt node position.pointerBlockNum
  if pointer = 0 then do
    let (_, node) ← createPointersBlockInNode node position.pointerBlockNum
    let dataBlockNum ←
      createDataBlockInPointerBlock node position.pointerBlockNum position.blockNum
    return (readBlock dataBlockNum, node)
  else do
    let dataBlockNum ← bytesToInt32 (readBlock pointer) (position.blockNum * 4)
    return (readBlock dataBlockNum, node)

/-- `add_directory_entry`. SRCLINE: directory.c:40-56 -/
def addDirectoryEntry (node : Node) (name : List UInt8) (nodeNum : ℕ) : Thread Node := do
  let stack ← malloc
  if name.length < 124 then do
    let entryName := memcpy stack 0 (ofList (name ++ [0])) (name.length + 1)
    let position := getNextWritePosition node
    let (dataBlock, node) ← readNextDataBlock node position
    store dataBlock position.byteNum (leBytes nodeNum) 4
    store dataBlock (position.byteNum + 4) entryName 124
    return { node with fileSize := u32 (node.fileSize + 128) }
  else .stop .memory

/-- `create_dir_node`. SRCLINE: directory.c:153-159 -/
def createDirNode (name : List UInt8) (parentNodeNum : ℕ) : Thread Node := do
  let parentBlock := getBlockNumFromNodeNum parentNodeNum
  let date ← time
  createNode 2 name parentBlock 0 date date fun _ => 0

/-- `create_and_save_dir_node`. SRCLINE: directory.c:161-166 -/
def createAndSaveDirNode (newDirName : List UInt8) (preDirNodeNum newBlockNum : ℕ) :
    Thread Unit := do
  let newDirNode ← createDirNode newDirName preDirNodeNum
  let newNodeBlock := readBlock newBlockNum
  nodeToBlock newDirNode newNodeBlock
  unmapAndDestroyNode newDirNode newNodeBlock

/-- `create_dir_node_and_add_entry`. SRCLINE: directory.c:168-179 -/
def createDirNodeAndAddEntry (preDirNode : Node) (preDirNodeNum : ℕ)
    (newDirName : List UInt8) : Thread Node := do
  let newBlockNum ← getFreeNodeBlock
  let newNodeNum := newBlockNum - nodeTableInitialBlock
  createAndSaveDirNode newDirName preDirNodeNum newBlockNum
  addDirectoryEntry preDirNode newDirName newNodeNum

/-! ## file.c -/

/-- `create_file_node`. SRCLINE: file.c:52-58 -/
def createFileNode (newFileName : List UInt8) (folderNodeNum : ℕ) : Thread Node := do
  let parentBlock := getBlockNumFromNodeNum folderNodeNum
  let date ← time
  createNode 1 newFileName parentBlock 0 date date fun _ => 0

/-- `create_and_save_file_node`. SRCLINE: file.c:15-51 -/
def createAndSaveFileNode (fileName : List UInt8) (folderNodeNum : ℕ) : Thread ℕ := do
  let (folderNode, folderNodeBlock) ← readNode folderNodeNum
  let exists_ ← existsEntry folderNode fileName
  if exists_ then do
    let entradaArchivo ← getEntry folderNode fileName
    unmapAndDestroyNode folderNode folderNodeBlock
    return entradaArchivo.nodeNum
  else do
    let newFileNode ← createFileNode fileName folderNodeNum
    let newBlockNum ← getFreeNodeBlock
    let newFileBlock := readBlock newBlockNum
    nodeToBlock newFileNode newFileBlock
    let folderNode ←
      addDirectoryEntry folderNode fileName (newBlockNum - nodeTableInitialBlock)
    unmapAndDestroyNode newFileNode newFileBlock
    unmapAndDestroyNode folderNode folderNodeBlock
    return newBlockNum - nodeTableInitialBlock

/-! ## sacio.c -/

/-- `_get_new_dir_name_from_path`. SRCLINE: directory.c:298-305 -/
def getNewDirNameFromPath (path : List UInt8) : Thread (List UInt8) :=
  match (stringSplit path).getLast? with
  | none => .stop .memory
  | some name => pure name

/-- `getFileNameFromFilePath`. SRCLINE: utils.c:233-240 -/
def getFileNameFromFilePath (filePath : List UInt8) : Thread (List UInt8) :=
  match (stringSplit filePath).getLast? with
  | none => .stop .memory
  | some name => pure name

/-- `getFolderPathFromFilePath`. SRCLINE: utils.c:219-232 -/
def getFolderPathFromFilePath (filePath : List UInt8) : Thread (List UInt8) :=
  match (stringSplit filePath).getLast? with
  | none => .stop .memory
  | some name => pure (stringSubstringUntil filePath (filePath.length - name.length - 1))

/-- `sac_mkdir`. SRCLINE: sacio.c:13-50 -/
def sacMkdir (path : CString) : Thread ℤ := do
  if !isValidPath path.val then return -1
  else do
    let newDirName ← getNewDirNameFromPath path.val
    let preDirPath := getPreDirPathFromPath path.val newDirName
    let entry ← searchPath preDirPath
    if isValidEntry entry then do
      let preDirNodeNum := entry.nodeNum
      let (preDirNode, preDirNodeBlock) ← readNode preDirNodeNum
      let exists_ ← existsEntry preDirNode newDirName
      if exists_ then do
        unmapAndDestroyNode preDirNode preDirNodeBlock
        return -1
      else do
        let preDirNode ← createDirNodeAndAddEntry preDirNode preDirNodeNum newDirName
        unmapAndDestroyNode preDirNode preDirNodeBlock
        return 0
    else return -1

/-- `sac_open`. SRCLINE: sacio.c:121-150 -/
def sacOpen (path : CString) : Thread ℤ := do
  if !isValidPath path.val then return -1
  else do
    let pathCarpeta ← getFolderPathFromFilePath path.val
    let entryCarpeta ← searchPath pathCarpeta
    if !isValidEntry entryCarpeta then return -1
    else do
      let nombreArchivo ← getFileNameFromFilePath path.val
      let nodoArchivo ← createAndSaveFileNode nombreArchivo entryCarpeta.nodeNum
      return i32 nodoArchivo

/-! ## A program alone -/

@[simp] theorem run_readNode (nodeNum : ℕ) :
    (readNode nodeNum).run DiskStep.exec = Model.readNode nodeNum :=
  Steps.run_atomic _ _

@[simp] theorem run_getEntry (node : Node) (entryName : List UInt8) :
    (getEntry node entryName).run DiskStep.exec = Model.getEntry node entryName :=
  Steps.run_atomic _ _

@[simp] theorem run_bitarraySetBit (n : ℕ) :
    (bitarraySetBit n).run DiskStep.exec = Model.bitarraySetBit n :=
  Steps.run_atomic _ _

@[simp] theorem run_bytesToInt32 (block pos : ℕ) :
    (bytesToInt32 block pos).run DiskStep.exec = Model.bytesToInt32 block pos :=
  Steps.run_atomic _ _

@[simp] theorem run_store (block pos : ℕ) (src : Bytes) (len : ℕ) :
    (store block pos src len).run DiskStep.exec = Model.store block pos src len :=
  Steps.run_atomic _ _

@[simp] theorem run_nodeToBlock (node : Node) (block : ℕ) :
    (nodeToBlock node block).run DiskStep.exec = Model.nodeToBlock node block :=
  Steps.run_atomic _ _

@[simp] theorem run_unmapAndDestroyNode (node : Node) (nodeBlock : ℕ) :
    (unmapAndDestroyNode node nodeBlock).run DiskStep.exec =
      Model.unmapAndDestroyNode node nodeBlock :=
  Steps.run_atomic _ _

@[simp] theorem run_malloc : malloc.run DiskStep.exec = Model.malloc := Steps.run_atomic _ _

@[simp] theorem run_time : time.run DiskStep.exec = Model.time := Steps.run_atomic _ _

/-- INTERNAL: the rounds of the scan, taken together. SRCLINE: bitmap.c:31-33 -/
theorem run_scanBitmap (n bitIndex : ℕ) :
    (scanBitmap n bitIndex).run DiskStep.exec = get >>= fun s =>
      (firstFree (fun b => !Model.blockIsFree s b) n bitIndex).elim (throw .pastBitmap) pure := by
  induction n generalizing bitIndex with
  | zero => rfl
  | succ n ih =>
    funext s
    have hround : (scanBitmap (n + 1) bitIndex).run DiskStep.exec s =
        (if Model.blockIsFree s bitIndex then return bitIndex
          else scanBitmap n (bitIndex + 1) : Thread ℕ).run DiskStep.exec s := rfl
    rw [hround, get_bind_apply]
    unfold firstFree
    by_cases hfree : Model.blockIsFree s bitIndex = true
    · rw [if_pos hfree, if_neg (by simp [hfree])]
      rfl
    · rw [if_neg hfree, if_pos (by simp [hfree]), ih, get_bind_apply]

@[simp] theorem run_getFreeBlock (fromBlockNum toBlockNum : ℕ) :
    (getFreeBlock fromBlockNum toBlockNum).run DiskStep.exec =
      Model.getFreeBlock fromBlockNum toBlockNum := by
  funext s
  rw [getFreeBlock, Steps.run_bind, run_scanBitmap, bind_assoc, get_bind_apply,
    Model.getFreeBlock, get_bind_apply]
  cases firstFree (fun b => !Model.blockIsFree s b) (bitmapSize * 8 - fromBlockNum)
    fromBlockNum with
  | none => rfl
  | some bitIndex =>
    rw [Option.elim_some, pure_bind]
    dsimp only
    split
    · rfl
    · rw [Steps.run_bind, run_bitarraySetBit]
      rfl

@[simp] theorem run_createNode (state : UInt8) (fileName : List UInt8)
    (parentBlock fileSize creationDate modificationDate : ℕ) (ptr : ℕ → ℕ) :
    (createNode state fileName parentBlock fileSize creationDate modificationDate ptr).run
        DiskStep.exec =
      Model.createNode state fileName parentBlock fileSize creationDate modificationDate ptr := by
  unfold createNode Model.createNode
  rw [Steps.run_bind, run_malloc]
  congr 1
  funext fresh
  split <;> rfl

@[simp] theorem run_pointerAt (node : Node) (pos : ℕ) :
    (pointerAt node pos).run DiskStep.exec = node.pointerAt pos := by
  unfold pointerAt Node.pointerAt
  split <;> rfl

@[simp] theorem run_setPointer (node : Node) (pos value : ℕ) :
    (setPointer node pos value).run DiskStep.exec = node.setPointer pos value := by
  unfold setPointer Node.setPointer
  split <;> rfl

@[simp] theorem run_createPointersBlockInNode (node : Node) (pos : ℕ) :
    (createPointersBlockInNode node pos).run DiskStep.exec =
      Model.createPointersBlockInNode node pos := by
  simp [createPointersBlockInNode, Model.createPointersBlockInNode, getFreeDataBlock,
    Model.getFreeDataBlock]

@[simp] theorem run_createDataBlockInPointerBlock (node : Node) (pos position : ℕ) :
    (createDataBlockInPointerBlock node pos position).run DiskStep.exec =
      Model.createDataBlockInPointerBlock node pos position := by
  simp [createDataBlockInPointerBlock, Model.createDataBlockInPointerBlock, getFreeDataBlock,
    Model.getFreeDataBlock]

@[simp] theorem run_readNextDataBlock (node : Node) (position : DataPosition) :
    (readNextDataBlock node position).run DiskStep.exec =
      Model.readNextDataBlock node position := by
  unfold readNextDataBlock Model.readNextDataBlock
  rw [Steps.run_bind, run_pointerAt]
  congr 1
  funext pointer
  split <;> simp

@[simp] theorem run_addDirectoryEntry (node : Node) (name : List UInt8) (nodeNum : ℕ) :
    (addDirectoryEntry node name nodeNum).run DiskStep.exec =
      Model.addDirectoryEntry node name nodeNum := by
  unfold addDirectoryEntry Model.addDirectoryEntry
  rw [Steps.run_bind, run_malloc]
  congr 1
  funext stack
  split
  · simp
  · rfl

@[simp] theorem run_existsEntry (node : Node) (entryName : List UInt8) :
    (existsEntry node entryName).run DiskStep.exec = Model.existsEntry node entryName := by
  simp [existsEntry, Model.existsEntry]

/-- INTERNAL: the walk along a path, by induction on the pieces. SRCLINE: directory.c:26-33 -/
@[simp] theorem run_searchPieces (pieces : List (List UInt8)) (entry : DirEntry) :
    (searchPieces pieces entry).run DiskStep.exec = Model.searchPieces pieces entry := by
  induction pieces generalizing entry with
  | nil => rfl
  | cons piece pieces ih =>
    unfold searchPieces Model.searchPieces
    split
    · simp [ih]
    · rfl

@[simp] theorem run_createAndSaveDirNode (name : List UInt8) (d b : ℕ) :
    (createAndSaveDirNode name d b).run DiskStep.exec = Model.createAndSaveDirNode name d b := by
  simp [createAndSaveDirNode, Model.createAndSaveDirNode, createDirNode, Model.createDirNode]

@[simp] theorem run_createDirNodeAndAddEntry (node : Node) (d : ℕ) (name : List UInt8) :
    (createDirNodeAndAddEntry node d name).run DiskStep.exec =
      Model.createDirNodeAndAddEntry node d name := by
  simp [createDirNodeAndAddEntry, Model.createDirNodeAndAddEntry, getFreeNodeBlock,
    Model.getFreeNodeBlock]

@[simp] theorem run_createAndSaveFileNode (name : List UInt8) (d : ℕ) :
    (createAndSaveFileNode name d).run DiskStep.exec = Model.createAndSaveFileNode name d := by
  unfold createAndSaveFileNode Model.createAndSaveFileNode
  simp only [Steps.run_bind, run_readNode, run_existsEntry]
  congr 1
  funext folder
  congr 1
  funext exists_
  split <;> simp [createFileNode, Model.createFileNode, getFreeNodeBlock, Model.getFreeNodeBlock]

@[simp] theorem run_getNewDirNameFromPath (path : List UInt8) :
    (getNewDirNameFromPath path).run DiskStep.exec = Model.getNewDirNameFromPath path := by
  unfold getNewDirNameFromPath Model.getNewDirNameFromPath
  cases (stringSplit path).getLast? <;> rfl

@[simp] theorem run_getFileNameFromFilePath (filePath : List UInt8) :
    (getFileNameFromFilePath filePath).run DiskStep.exec =
      Model.getFileNameFromFilePath filePath := by
  unfold getFileNameFromFilePath Model.getFileNameFromFilePath
  cases (stringSplit filePath).getLast? <;> rfl

@[simp] theorem run_getFolderPathFromFilePath (filePath : List UInt8) :
    (getFolderPathFromFilePath filePath).run DiskStep.exec =
      Model.getFolderPathFromFilePath filePath := by
  unfold getFolderPathFromFilePath Model.getFolderPathFromFilePath
  cases (stringSplit filePath).getLast? <;> rfl

/-- **`sac_mkdir` alone** does what it does as a computation. SRCLINE: sacio.c:13-50 -/
theorem run_sacMkdir (path : CString) :
    (sacMkdir path).run DiskStep.exec = Model.sacMkdir path := by
  unfold sacMkdir Model.sacMkdir
  split
  · rfl
  · simp only [Steps.run_bind, run_getNewDirNameFromPath, searchPath, run_searchPieces]
    congr 1
    funext newDirName
    congr 1
    funext entry
    split
    · simp only [Steps.run_bind, run_readNode, run_existsEntry]
      congr 1
      funext preDir
      congr 1
      funext exists_
      split <;> simp
    · rfl

/-- **`sac_open` alone** does what it does as a computation. SRCLINE: sacio.c:121-150 -/
theorem run_sacOpen (path : CString) :
    (sacOpen path).run DiskStep.exec = Model.sacOpen path := by
  unfold sacOpen Model.sacOpen
  split
  · rfl
  · simp only [Steps.run_bind, run_getFolderPathFromFilePath, searchPath, run_searchPieces]
    congr 1
    funext folder
    congr 1
    funext entry
    split <;> simp

end Threaded

/-- A request that creates a directory or a file. -/
inductive CreateRequest
  | sacMkdir (path : CString)
  | sacOpen (path : CString)

/-- The path of the request. -/
def CreateRequest.path : CreateRequest → CString
  | sacMkdir path => path
  | sacOpen path => path

/-- The steps of the thread that executes the request. -/
def CreateRequest.thread : CreateRequest → Thread ℤ
  | sacMkdir path => Threaded.sacMkdir path
  | sacOpen path => Threaded.sacOpen path

end LinuseFs.Model
