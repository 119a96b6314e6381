import LinuseFs.Model.Bitmap

/-!
# Nodes

The node codec of `utils.c` and `node.c`.  `nodeImage` is the body of `node_to_block`,
`blockToNode` that of `block_to_node`; a node in memory carries the 71 raw bytes of its
name, of which `strcpy` fills those up to the NUL.

The accessors of a pointer block are written as each function computes them: the writer
with `sizeof` of the number, two of the readers with `sizeof` of a pointer variable.
-/

set_option autoImplicit false

namespace LinuseFs.Model

open LinuseFs.Computation

/-- `t_node`. SRCLINE: disk.h:45-53 -/
structure Node where
  state : UInt8
  fileName : Bytes
  parentBlock : ℕ
  fileSize : ℕ
  creationDate : ℕ
  modificationDate : ℕ
  indirectPointerBlock : ℕ → ℕ

/-- The memory image of `indirect_pointer_block[]`. -/
def pointersImage (p : ℕ → ℕ) : Bytes := fun i => leBytes (p (i / 4)) (i % 4)

/-- `create_node`.  The name is copied by `strcpy` into 71 bytes of fresh memory.
SRCLINE: utils.c:88-99 -/
def createNode (state : UInt8) (fileName : List UInt8)
    (parentBlock fileSize creationDate modificationDate : ℕ)
    (indirectPointerBlock : ℕ → ℕ) : Sac Node := do
  let fresh ← malloc
  if fileName.length < fileNameSize then
    return { state := state
             fileName := memcpy fresh 0 (ofList (fileName ++ [0])) (fileName.length + 1)
             parentBlock := parentBlock
             fileSize := fileSize
             creationDate := creationDate
             modificationDate := modificationDate
             indirectPointerBlock := indirectPointerBlock }
  else throw .memory

/-- The bytes of a block after `node_to_block`. SRCLINE: utils.c:146-161 -/
def nodeImage (node : Node) (block : Bytes) : Bytes :=
  let pos := 0
  let block := memcpy block pos (fun _ => node.state) 1
  let pos := pos + 1
  let block := memcpy block pos node.fileName fileNameSize
  let pos := pos + fileNameSize
  let block := memcpy block pos (leBytes node.parentBlock) 4
  let pos := pos + 4
  let block := memcpy block pos (leBytes node.fileSize) 4
  let pos := pos + 4
  let block := memcpy block pos (leBytes node.creationDate) 8
  let pos := pos + 8
  let block := memcpy block pos (leBytes node.modificationDate) 8
  let pos := pos + 8
  memcpy block pos (pointersImage node.indirectPointerBlock) (4 * pointersPerNode)

/-- `node_to_block`. SRCLINE: utils.c:146-161 -/
def nodeToBlock (node : Node) (block : ℕ) : Sac Unit := do
  let bytes ← load block 0 blockSize
  store block 0 (nodeImage node bytes) blockSize

/-- `block_to_node`.  A name field without NUL makes the `strcpy` of `create_node` run
past the local copy of the field. SRCLINE: utils.c:163-186 -/
def blockToNode (block : ℕ) : Sac Node := do
  let bytes ← load block 0 blockSize
  let pos := 0
  let state := bytes pos
  let pos := pos + 1
  let fileName := cstr bytes pos fileNameSize
  let pos := pos + fileNameSize
  let parentBlock := leNat bytes pos 4
  let pos := pos + 4
  let fileSize := leNat bytes pos 4
  let pos := pos + 4
  let creationDate := leNat bytes pos 8
  let pos := pos + 8
  let modificationDate := leNat bytes pos 8
  let pos := pos + 8
  let indirectPointerBlock := fun i =>
    if i < pointersPerNode then leNat bytes (pos + 4 * i) 4 else 0
  match fileName with
  | none => throw .memory
  | some fileName =>
    createNode state fileName parentBlock fileSize creationDate modificationDate
      indirectPointerBlock

/-- `get_block_num_from_node_num`. SRCLINE: node.c:11-13 -/
def getBlockNumFromNodeNum (nodeNum : ℕ) : ℕ := nodeTableInitialBlock + nodeNum

/-- `read_node`: the private copy of the node and its block. SRCLINE: node.c:16-21 -/
def readNode (nodeNum : ℕ) : Sac (Node × ℕ) := do
  let nodeBlock := readBlock (getBlockNumFromNodeNum nodeNum)
  let node ← blockToNode nodeBlock
  return (node, nodeBlock)

/-- `unmap_and_destroy_node`. SRCLINE: node.c:47-51 -/
def unmapAndDestroyNode (node : Node) (nodeBlock : ℕ) : Sac Unit :=
  nodeToBlock node nodeBlock

/-- `delete_node`. SRCLINE: node.c:26-43 -/
def deleteNode (nodeNum : ℕ) : Sac Unit := do
  let numBloque := getBlockNumFromNodeNum nodeNum
  let (unNodo, unBloque) ← readNode nodeNum
  let unNodo := { unNodo with fileName := memcpy unNodo.fileName 0 (fun _ => 0) 1 }
  let unNodo := { unNodo with state := 0 }
  unmapAndDestroyNode unNodo unBloque
  freeBlock numBloque

/-- `node->indirect_pointer_block[pos]`. -/
def Node.pointerAt (node : Node) (pos : ℕ) : Sac ℕ :=
  if pos < pointersPerNode then pure (node.indirectPointerBlock pos) else throw .memory

/-- `node->indirect_pointer_block[pos] = value`. -/
def Node.setPointer (node : Node) (pos value : ℕ) : Sac Node :=
  if pos < pointersPerNode then
    pure { node with
      indirectPointerBlock := Function.update node.indirectPointerBlock pos value }
  else throw .memory

/-- `create_pointers_block_in_node`. SRCLINE: node.c:55-62 -/
def createPointersBlockInNode (node : Node) (pointersBlockArrayPos : ℕ) :
    Sac (ℕ × Node) := do
  let newPointersBlockNum ← getFreeDataBlock
  let node ← node.setPointer pointersBlockArrayPos newPointersBlockNum
  return (newPointersBlockNum, node)

/-- `create_data_block_in_pointer_block`. SRCLINE: node.c:66-78 -/
def createDataBlockInPointerBlock (node : Node) (pointersBlockArrayPos position : ℕ) :
    Sac ℕ := do
  let newDataBlockNum ← getFreeDataBlock
  let pointersBlockNum ← node.pointerAt pointersBlockArrayPos
  let pointersBlock := readBlock pointersBlockNum
  -- the stride is sizeof(new_data_block_num), an u_int32_t
  store pointersBlock (position * 4) (leBytes newDataBlockNum) 4
  return newDataBlockNum

/-- The number of pointers before the first zero one, where the scan of
`add_data_block_to_node` stops. SRCLINE: node.c:95-96 -/
def Node.leadingPointers (node : Node) : ℕ :=
  (firstFree (fun i => node.indirectPointerBlock i != 0) pointersPerNode 0).getD
    pointersPerNode

/-- `add_data_block_to_node`.  The variable `posicionArray` of the source is
`node.leadingPointers - 1`, which is -1 for a file without pointers.
SRCLINE: node.c:85-127 -/
def addDataBlockToNode (unNodo : Node) : Sac Node := do
  let cantPunteros := unNodo.leadingPointers
  let cantBloquesDatos := unNodo.fileSize / blockSize + 1
  if cantBloquesDatos < 1024 * cantPunteros then do
    let _ ← createDataBlockInPointerBlock unNodo (cantPunteros - 1) (cantBloquesDatos % 1024)
    return unNodo
  else do
    let (_, unNodo) ← createPointersBlockInNode unNodo cantPunteros
    let _ ← createDataBlockInPointerBlock unNodo cantPunteros 0
    return unNodo

/-- `get_data_block_from_node`.  The stride is `sizeof` of the pointer variable
`numBloqueDatos`, and that many bytes are copied; the number is their first four.  With
8-byte pointers the other four land behind the four that were asked of `malloc`, inside
the smallest piece it hands out. SRCLINE: node.c:128-144 -/
def getDataBlockFromNode (abi : Abi) (unNodo : Node) (numBloque : ℕ) : Sac ℕ := do
  let posicionArray := numBloque / 1024
  let numBloque := numBloque % 1024
  let pointersBlockNum ← unNodo.pointerAt posicionArray
  let bloquePunteros := readBlock pointersBlockNum
  let numBloqueDatos ←
    load bloquePunteros (numBloque * abi.sizeofPointer) abi.sizeofPointer
  return readBlock (leNat numBloqueDatos 0 4)

/-- `getBlockNumberFromNodeDataBlock`, with the same stride. SRCLINE: node.c:207-222 -/
def getBlockNumberFromNodeDataBlock (abi : Abi) (unNodo : Node) (numeroBloqueDatos : ℕ) :
    Sac ℕ := do
  let posicionArray := numeroBloqueDatos / 1024
  let numPunteroIndirecto := numeroBloqueDatos % 1024
  let pointersBlockNum ← unNodo.pointerAt posicionArray
  let bloquePunteros := readBlock pointersBlockNum
  let numBloque ←
    load bloquePunteros (numPunteroIndirecto * abi.sizeofPointer) abi.sizeofPointer
  return leNat numBloque 0 4

/-- `deleteLastDataBlock`. SRCLINE: node.c:189-206 -/
def deleteLastDataBlock (abi : Abi) (unNodo : Node) : Sac Node := do
  if unNodo.fileSize = 0 then return unNodo
  else do
    let ultimoBloqueDatos := unNodo.fileSize / blockSize
    let ultimoBloquePunteros := ultimoBloqueDatos / 1024
    let numero ← getBlockNumberFromNodeDataBlock abi unNodo ultimoBloqueDatos
    bitarrayCleanBit numero
    let fileSize :=
      if ultimoBloqueDatos = 0 then 0 else (ultimoBloqueDatos - 1) * blockSize
    if ultimoBloqueDatos % 1024 = 0 then do
      -- the first block of a pointer block goes: the pointer block goes with it
      let numeroPunteros ← unNodo.pointerAt ultimoBloquePunteros
      bitarrayCleanBit numeroPunteros
      let unNodo ← unNodo.setPointer ultimoBloquePunteros 0
      return { unNodo with fileSize := fileSize }
    else return { unNodo with fileSize := fileSize }

end LinuseFs.Model
