import LinuseFs.Model.Directory

/-!
# The operations of the file system

`file.c` and `sacio.c`.  The operations return the C result as an integer; those that
write through pointers (`sac_read`, `sac_stat`, `sac_readdir`) return what they store as
well.  `buffer` and `count` of `sac_write` are one list.

A `while` loop of the source is a recursion with a bound on its rounds; exhausting the
bound is the fault `spin`.
-/

set_option autoImplicit false

namespace LinuseFs.Model

open LinuseFs.Computation

/-! ## file.c -/

/-- `create_file_node`. SRCLINE: file.c:52-58 -/
def createFileNode (newFileName : List UInt8) (folderNodeNum : ℕ) : Sac Node := do
  let parentBlock := getBlockNumFromNodeNum folderNodeNum
  let date ← time
  createNode 1 newFileName parentBlock 0 date date fun _ => 0

/-- `create_and_save_file_node`. SRCLINE: file.c:15-51 -/
def createAndSaveFileNode (fileName : List UInt8) (folderNodeNum : ℕ) : Sac ℕ := do
  let (folderNode, folderNodeBlock) ← readNode folderNodeNum
  let exists_ ← existsEntry folderNode fileName
  if exists_ then do
    let entradaArchivo ← getEntry folderNode fileName
    unmapAndDestroyNode folderNode folderNodeBlock
    return entradaArchivo.nodeNum
  else do
    let newFileNode ← createFileNode fileName folderNodeNum
    let newBlockNum ← getFreeNodeBlock
    let newFileBlock := readBlock newBlockNum
    nodeToBlock newFileNode newFileBlock
    let folderNode ←
      addDirectoryEntry folderNode fileName (newBlockNum - nodeTableInitialBlock)
    unmapAndDestroyNode newFileNode newFileBlock
    unmapAndDestroyNode folderNode folderNodeBlock
    return newBlockNum - nodeTableInitialBlock

/-! ## sacio.c -/

/-- `sac_mkdir`. SRCLINE: sacio.c:13-50 -/
def sacMkdir (path : CString) : Sac ℤ := do
  if !isValidPath path.val then return -1
  else do
    let newDirName ← getNewDirNameFromPath path.val
    let preDirPath := getPreDirPathFromPath path.val newDirName
    let entry ← searchPath preDirPath
    if isValidEntry entry then do
      let preDirNodeNum := entry.nodeNum
      let (preDirNode, preDirNodeBlock) ← readNode preDirNodeNum
      let exists_ ← existsEntry preDirNode newDirName
      if exists_ then do
        unmapAndDestroyNode preDirNode preDirNodeBlock
        return -1
      else do
        let preDirNode ← createDirNodeAndAddEntry preDirNode preDirNodeNum newDirName
        unmapAndDestroyNode preDirNode preDirNodeBlock
        return 0
    else return -1

/-- The loop of `sac_rmdir` that adds the children of the listed entries, from position
`i` on; the list grows while it is read. SRCLINE: sacio.c:93-99 -/
def listarHijos : ℕ → ℕ → List DirEntry → Sac (List DirEntry)
  | 0, _, _ => throw .spin
  | n + 1, i, lista =>
    match lista[i]? with
    | none => return lista
    | some unaEntrada => do
      let lista ← addChildsToList lista unaEntrada
      listarHijos n (i + 1) lista

/-- The loop of `sac_rmdir` that deletes the listed nodes. SRCLINE: sacio.c:101-108 -/
def borrarLista : List DirEntry → Sac Unit
  | [] => return
  | unaEntrada :: lista => do
    deleteAllDirectoryEntries unaEntrada.nodeNum
    deleteNode unaEntrada.nodeNum
    borrarLista lista

/-- `sac_rmdir`. SRCLINE: sacio.c:52-119 -/
def sacRmdir (path : CString) : Sac ℤ := do
  if !isValidPath path.val then return -1
  else do
    let _ ← getNewDirNameFromPath path.val
    let entry ← searchPath path.val
    if !isValidEntry entry then return -1
    else do
      let esDirectorio ← isDirectory entry
      if !esDirectorio then return -1
      else do
        let (nodoDirectorioEliminar, bloqueDirectorioEliminar) ← readNode entry.nodeNum
        if nodoDirectorioEliminar.fileSize > 0 then do
          unmapAndDestroyNode nodoDirectorioEliminar bloqueDirectorioEliminar
          return -2
        else do
          deleteParentEntry entry
          let listaEliminacion ← addChildsToList [entry] entry
          let listaEliminacion ← listarHijos (2 ^ 32) 1 listaEliminacion
          borrarLista listaEliminacion
          return 0

/-- `sac_open`. SRCLINE: sacio.c:121-150 -/
def sacOpen (path : CString) : Sac ℤ := do
  if !isValidPath path.val then return -1
  else do
    let pathCarpeta ← getFolderPathFromFilePath path.val
    let entryCarpeta ← searchPath pathCarpeta
    if !isValidEntry entryCarpeta then return -1
    else do
      let nombreArchivo ← getFileNameFromFilePath path.val
      let nodoArchivo ← createAndSaveFileNode nombreArchivo entryCarpeta.nodeNum
      return i32 nodoArchivo

/-- The loop of `sac_write` that fills the file with NULs up to the offset.
SRCLINE: sacio.c:181-200 -/
def completarOffset (abi : Abi) : ℕ → Node → ℤ → Sac Node
  | 0, _, _ => throw .spin
  | n + 1, fileNode, offsetRestante => do
    if fileNode.fileSize < u32 offsetRestante then do
      let posUltimoByte := getNextWritePosition fileNode
      let cantNullsEscribir : ℤ := min offsetRestante blockSize - posUltimoByte.byteNum
      -- a negative count asks malloc for almost the whole address space
      if cantNullsEscribir < 0 then throw .memory
      else do
        let cantNulls := cantNullsEscribir.toNat
        let bloqueDatos ← getDataBlockFromNode abi fileNode posUltimoByte.blockNum
        store bloqueDatos posUltimoByte.byteNum (fun _ => 0) cantNulls
        let fileNode := { fileNode with fileSize := u32 (fileNode.fileSize + cantNulls) }
        let offsetRestante := offsetRestante - cantNulls
        if posUltimoByte.byteNum + cantNulls = blockSize ∧ offsetRestante > 0 then do
          let fileNode ← addDataBlockToNode fileNode
          completarOffset abi n fileNode offsetRestante
        else completarOffset abi n fileNode offsetRestante
    else return fileNode

/-- The loop of `sac_write` that copies the buffer.  The variables `bloqueInicio` and
`byteInicio` are 32-bit patterns: a negative one addresses outside the block.
SRCLINE: sacio.c:204-242 -/
def escribirBuffer (abi : Abi) (buffer : List UInt8) (offset fileSizeOriginal : ℤ) :
    ℕ → Node → ℕ → ℕ → ℕ → ℕ → Sac Node
  | 0, _, _, _, _, _ => throw .spin
  | n + 1, fileNode, bloqueInicio, byteInicio, cantBytesEscritos, cantEnBloqueActual => do
    if cantBytesEscritos < buffer.length then do
      let dataBlock ← getDataBlockFromNode abi fileNode bloqueInicio
      let espacioDisponible := blockSize - byteInicio
      let cantBytesEscribir := min (buffer.length - cantBytesEscritos) espacioDisponible
      store dataBlock (byteInicio + cantEnBloqueActual)
        (fun i => buffer.getD (cantBytesEscritos + i) 0) cantBytesEscribir
      let cantBytesEscritos := cantBytesEscritos + cantBytesEscribir
      let nuevoTamano (fileNode : Node) : Node :=
        -- the size grows only when the write has passed the size before the write
        if offset + cantBytesEscritos > fileSizeOriginal then
          { fileNode with fileSize := u32 (offset + cantBytesEscritos) }
        else fileNode
      if cantBytesEscribir = espacioDisponible ∧ cantBytesEscritos ≤ buffer.length then do
        -- the block is full: add_data_block_to_node still sees the old size
        let fileNode ← addDataBlockToNode fileNode
        escribirBuffer abi buffer offset fileSizeOriginal n (nuevoTamano fileNode)
          (bloqueInicio + 1) 0 cantBytesEscritos 0
      else
        escribirBuffer abi buffer offset fileSizeOriginal n (nuevoTamano fileNode)
          bloqueInicio byteInicio cantBytesEscritos (cantEnBloqueActual + cantBytesEscribir)
    else return fileNode

/-- `sac_write`. SRCLINE: sacio.c:152-246 -/
def sacWrite (abi : Abi) (fd : ℕ) (buffer : List UInt8) (offset : ℤ) : Sac ℕ := do
  let (fileNode, fileNodeBlock) ← readNode fd
  let fileNode ←
    if fileNode.indirectPointerBlock 0 = 0 then addDataBlockToNode fileNode
    else pure fileNode
  let bloqueInicio := u32 (offset.tdiv blockSize)
  let byteInicio := u32 (offset.tmod blockSize)
  let fileNode ← completarOffset abi (u32 (i32 offset) + 1) fileNode (i32 offset)
  let fileSizeOriginal := i32 fileNode.fileSize
  let fileNode ←
    escribirBuffer abi buffer offset fileSizeOriginal (buffer.length + 1) fileNode
      bloqueInicio byteInicio 0 0
  unmapAndDestroyNode fileNode fileNodeBlock
  return buffer.length

/-- A value as a `size_t`. -/
def Abi.sizeT (abi : Abi) (n : ℤ) : ℕ := (n % 256 ^ abi.sizeofSizeT).toNat

/-- The loop of `sac_read`.  `count` is the request after it was cut to the file; a
negative amount or position is an access outside the block. SRCLINE: sacio.c:289-311 -/
def leerBloques (abi : Abi) (fileNode : Node) (bloqueInicio count : ℕ) :
    ℕ → ℕ → ℤ → ℕ → ℕ → List UInt8 → Sac (ℕ × List UInt8)
  | 0, _, _, _, _, _ => throw .spin
  | n + 1, bloqueDatos, byteInicio, datosLeidos, bloquesLeidos, buffer => do
    if datosLeidos < count then do
      let minimo := if blockSize > fileNode.fileSize then fileNode.fileSize else blockSize
      let disponible : ℤ := minimo - byteInicio
      let datosALeer : ℤ :=
        if count - datosLeidos > abi.sizeT disponible then disponible
        else i32 (count - datosLeidos)
      if byteInicio < 0 ∨ datosALeer < 0 then throw .memory
      else do
        let bytes ← load bloqueDatos byteInicio.toNat datosALeer.toNat
        let buffer := buffer ++ (List.range datosALeer.toNat).map bytes
        let datosLeidos := datosLeidos + datosALeer.toNat
        if datosLeidos ≥ fileNode.fileSize then return (datosLeidos, buffer)
        else if datosLeidos < count then do
          let bloqueDatos ←
            getDataBlockFromNode abi fileNode (bloqueInicio + (bloquesLeidos + 1))
          leerBloques abi fileNode bloqueInicio count n bloqueDatos 0 datosLeidos
            (bloquesLeidos + 1) buffer
        else
          leerBloques abi fileNode bloqueInicio count n bloqueDatos byteInicio datosLeidos
            bloquesLeidos buffer
    else return (datosLeidos, buffer)

/-- `sac_read`: the result as a `size_t`, and the bytes stored in the caller's buffer.
SRCLINE: sacio.c:248-313 -/
def sacRead (abi : Abi) (fd count : ℕ) (offset : ℤ) : Sac (ℕ × List UInt8) := do
  let (fileNode, fileNodeBlock) ← readNode fd
  if fileNode.state ≠ 1 then do
    unmapAndDestroyNode fileNode fileNodeBlock
    return (256 ^ abi.sizeofSizeT - 1, [])
  else if fileNode.indirectPointerBlock 0 = 0 then do
    unmapAndDestroyNode fileNode fileNodeBlock
    return (256 ^ abi.sizeofSizeT - 1, [])
  else if i32 offset ≥ i32 fileNode.fileSize then do
    unmapAndDestroyNode fileNode fileNodeBlock
    return (0, [])
  else do
    let bloqueInicio := u32 (offset.tdiv blockSize)
    let byteInicio := offset.tmod blockSize
    let bloqueDatos ← getDataBlockFromNode abi fileNode bloqueInicio
    let count :=
      if abi.sizeT (count + offset) > fileNode.fileSize then
        abi.sizeT (fileNode.fileSize - offset)
      else count
    let (datosLeidos, buffer) ←
      leerBloques abi fileNode bloqueInicio count (count + 1) bloqueDatos byteInicio 0 0 []
    unmapAndDestroyNode fileNode fileNodeBlock
    return (datosLeidos, buffer)

/-- The fields of `struct stat` that `sac_stat` fills. -/
structure Stat where
  isDir : Bool
  ino : ℕ
  size : ℕ
  mtim : ℕ
  ctim : ℕ
  deriving DecidableEq, Repr

/-- `sac_stat`. SRCLINE: sacio.c:315-347 -/
def sacStat (path : CString) : Sac (ℤ × Option Stat) := do
  if !isValidPath path.val then return (-1, none)
  else do
    let entry ← searchPath path.val
    if !isValidEntry entry then return (-1, none)
    else do
      let (fileNode, fileNodeBlock) ← readNode entry.nodeNum
      if fileNode.state = 1 ∨ fileNode.state = 2 then do
        let stbuf : Stat :=
          { isDir := fileNode.state = 2
            ino := entry.nodeNum
            size := fileNode.fileSize
            mtim := fileNode.modificationDate
            ctim := fileNode.creationDate }
        unmapAndDestroyNode fileNode fileNodeBlock
        return (0, some stbuf)
      else do
        unmapAndDestroyNode fileNode fileNodeBlock
        return (-1, none)

/-- The nested function of `sac_readdir`: the names are stored in order.
SRCLINE: sacio.c:368-374 -/
def loadEntry : ProcessEntry (List (List UInt8)) :=
  fun entry entryNames => (invalidEntry, entryNames ++ [entry.name])

/-- `sac_readdir`: the array of names, whose length is taken from the size of the
directory and which is filled by the iteration. SRCLINE: sacio.c:349-381 -/
def sacReaddir (path : CString) : Sac (Option (List (List UInt8))) := do
  if !isValidPath path.val then return none
  else do
    let dirEntry ← searchPath path.val
    let (dirNode, dirNodeBlock) ← readNode dirEntry.nodeNum
    if !isValidEntry dirEntry || dirNode.state ≠ 2 then do
      unmapAndDestroyNode dirNode dirNodeBlock
      return none
    else do
      let numberOfEntries := dirNode.fileSize / dirEntrySize
      let (_, entryNames) ← iteratePointersBlocks loadEntry dirNode []
      -- entry_names has room for number_of_entries names, all of which are read back
      if entryNames.length ≠ numberOfEntries then throw .memory
      else do
        unmapAndDestroyNode dirNode dirNodeBlock
        return some entryNames

/-- `sac_rename`. SRCLINE: sacio.c:383-432 -/
def sacRename (oldPath newPath : CString) : Sac ℤ := do
  if !isValidPath oldPath.val || !isValidPath newPath.val then return -1
  else do
    let oldFileName ← getNewDirNameFromPath oldPath.val
    let newFileName ← getNewDirNameFromPath newPath.val
    let oldPreDirPath := getPreDirPathFromPath oldPath.val oldFileName
    let newPreDirPath := getPreDirPathFromPath newPath.val newFileName
    let oldDirEntry ← searchPath oldPreDirPath
    let newDirEntry ← searchPath newPreDirPath
    if isValidEntry oldDirEntry && isValidEntry newDirEntry then do
      let (preDirNode, preDirNodeBlock) ← readNode oldDirEntry.nodeNum
      let oldFileEntry ← getEntry preDirNode oldFileName
      let preDirNode ← deleteDirectoryEntry preDirNode oldFileEntry.name
      unmapAndDestroyNode preDirNode preDirNodeBlock
      let (preDirNode, preDirNodeBlock) ← readNode newDirEntry.nodeNum
      let preDirNode ← addDirectoryEntry preDirNode newFileName oldFileEntry.nodeNum
      unmapAndDestroyNode preDirNode preDirNodeBlock
      let (fileNode, fileNodeBlock) ← readNode oldFileEntry.nodeNum
      let fileNode :=
        { fileNode with parentBlock := u32 (newDirEntry.nodeNum + nodeTableInitialBlock) }
      unmapAndDestroyNode fileNode fileNodeBlock
      return 0
    else return -1

/-- The inner loop of `sac_remove` over the slots of one pointer block: the blocks still
to release are counted down. SRCLINE: sacio.c:461-465 -/
def liberarDatos (bloquePunteros : ℕ) : ℕ → ℕ → ℕ → Sac ℕ
  | 0, _, cantBloques => return cantBloques
  | n + 1, j, cantBloques => do
    if cantBloques > 0 then do
      let numBloque ← bytesToInt32 bloquePunteros (j * 4)
      bitarrayCleanBit numBloque
      liberarDatos bloquePunteros n (j + 1) (cantBloques - 1)
    else return cantBloques

/-- The outer loop of `sac_remove` over the pointer blocks. SRCLINE: sacio.c:459-469 -/
def liberarPunteros (fileNode : Node) : ℕ → ℕ → ℕ → Sac Unit
  | 0, _, _ => return
  | n + 1, i, cantBloques => do
    if fileNode.indirectPointerBlock i ≠ 0 then do
      let bloquePunteros := readBlock (fileNode.indirectPointerBlock i)
      let cantBloques ← liberarDatos bloquePunteros 1024 0 cantBloques
      bitarrayCleanBit (fileNode.indirectPointerBlock i)
      liberarPunteros fileNode n (i + 1) cantBloques
    else return

/-- `sac_remove`. SRCLINE: sacio.c:434-488 -/
def sacRemove (path : CString) : Sac ℤ := do
  if !isValidPath path.val then return -1
  else do
    let entry ← searchPath path.val
    if !isValidEntry entry then return -1
    else do
      let (fileNode, fileNodeBlock) ← readNode entry.nodeNum
      if fileNode.state ≠ 1 then do
        unmapAndDestroyNode fileNode fileNodeBlock
        return -1
      else do
        let cantBloques := fileNode.fileSize / blockSize + 1
        liberarPunteros fileNode pointersPerNode 0 cantBloques
        let bloquePadre := readBlock fileNode.parentBlock
        let nodoPadre ← blockToNode bloquePadre
        let nombreArchivo ← getFileNameFromFilePath path.val
        let nodoPadre ← deleteDirectoryEntry nodoPadre nombreArchivo
        unmapAndDestroyNode nodoPadre bloquePadre
        let fileNode := { fileNode with state := 0 }
        let numBloqueNodo := getBlockNumFromNodeNum entry.nodeNum
        unmapAndDestroyNode fileNode fileNodeBlock
        bitarrayCleanBit numBloqueNodo
        return 0

/-- `sac_close`. SRCLINE: sacio.c:490-492 -/
def sacClose (fd : ℕ) : ℤ :=
  if fd ≥ nodeTableInitialBlock ∧ fd ≤ nodeTableInitialBlock + nodeTableBlocks then 1 else 0

/-- The loop of `sac_truncate` that shortens the file. SRCLINE: sacio.c:536-552 -/
def acortarArchivo (abi : Abi) (largoTruncado : ℤ) : ℕ → Node → Sac Node
  | 0, _ => throw .spin
  | n + 1, fileNode => do
    let tamanoArchivo := i32 fileNode.fileSize
    if tamanoArchivo > largoTruncado ∧ tamanoArchivo > 0 then do
      let cantBytesATruncar := tamanoArchivo - largoTruncado
      if cantBytesATruncar ≥ blockSize ∨ largoTruncado = 0 then do
        let fileNode ← deleteLastDataBlock abi fileNode
        acortarArchivo abi largoTruncado n fileNode
      else if largoTruncado > 0 then
        acortarArchivo abi largoTruncado n
          { fileNode with fileSize := u32 (fileNode.fileSize - cantBytesATruncar) }
      else acortarArchivo abi largoTruncado n fileNode
    else return fileNode

/-- `sac_truncate`. SRCLINE: sacio.c:493-555 -/
def sacTruncate (abi : Abi) (path : CString) (lenght : ℤ) : Sac ℤ := do
  let lenght := if lenght < 0 then 0 else lenght
  if !isValidPath path.val then return -1
  else do
    let entry ← searchPath path.val
    if !isValidEntry entry then return -1
    else do
      let (fileNode, fileNodeBlock) ← readNode entry.nodeNum
      if fileNode.state ≠ 1 then do
        unmapAndDestroyNode fileNode fileNodeBlock
        return -1
      else do
        let tamanoArchivo := i32 fileNode.fileSize
        let largoTruncado := i32 lenght
        if largoTruncado > tamanoArchivo then do
          -- the private copy of the node is dropped; sac_write reads the node again
          let buffer := List.replicate (largoTruncado - tamanoArchivo).toNat (65 : UInt8)
          let fd ← sacOpen path
          let _ ← sacWrite abi (u32 fd) buffer fileNode.fileSize
          return 0
        else do
          let fileNode ← acortarArchivo abi largoTruncado (fileNode.fileSize + 1) fileNode
          unmapAndDestroyNode fileNode fileNodeBlock
          return 0

end LinuseFs.Model
