import Bmx.FatFs.Volume
import Bmx.Interaction.Layer
import Bmx.Update.FatPathPolicy
import Bmx.Update.Sha256

/-!
# The update file system and its FatFs adapter

`UpdateFileSystem` is the interface the installer is written against. The adapter implements each
of its operations by FatFs primitives on a bounded pool of handles: two for reading, one for
writing.
-/

namespace Bmx.Update

open Interaction FatFs Program

inductive UpdateNodeType
  | missing | regularFile | directory | other
  deriving DecidableEq

structure UpdateFileStat where
  type : UpdateNodeType
  size : Nat
  deriving DecidableEq

abbrev ReadId := Fin 2

/-- The virtual functions of `UpdateFileSystem` and of its file handles. There is one write handle,
so its operations do not name it. -/
inductive FileSystemOp
  | stat (path : Bytes)
  | openRead (path : Bytes)
  | getSize (handle : ReadId)
  | readAt (handle : ReadId) (offset count : Nat)
  | closeRead (handle : ReadId)
  | createFileFresh (path : Bytes)
  | write (bytes : Bytes)
  | sync
  | closeWrite
  | createDirectory (path : Bytes)
  | removeFile (path : Bytes)
  | rename (source destination : Bytes) (replaceExisting : Bool)
  | syncContainingDirectory (path : Bytes)
  | getFreeSpace
  | getVolumeSize
  deriving DecidableEq

/-- `none` and `false` are the failures. -/
@[reducible] def FileSystemOp.Answer : FileSystemOp → Type
  | .stat _ => Option UpdateFileStat
  | .openRead _ => Option ReadId
  | .getSize _ => Option Nat
  | .readAt _ _ _ => Option Bytes
  | .getFreeSpace | .getVolumeSize => Option Nat
  | .closeRead _ | .createFileFresh _ | .write _ | .sync | .closeWrite | .createDirectory _
  | .removeFile _ | .rename _ _ _ | .syncContainingDirectory _ => Bool

@[reducible] def fileSystemSignature : Signature := ⟨FileSystemOp, FileSystemOp.Answer⟩

/-! ### The adapter's configuration -/

inductive FatFsUpdatePathPolicy
  | portableRelease | developer | media

def fatFsUpdateFileSystemRelativePathBytes : Nat := 512
def fatFsUpdateFileSystemAbsolutePathBytes : Nat := 544
def fatFsUpdateFileSystemVerifyBufferBytes : Nat := 4096

/-- The largest byte count one FatFs call can take, a 32-bit `UINT`. -/
def uintMax : Nat := 2 ^ 32 - 1

def isVolumeCharacter (value : UInt8) : Bool :=
  (65 ≤ value && value ≤ 90) || (97 ≤ value && value ≤ 122) || (48 ≤ value && value ≤ 57) ||
    value == 95

/-- A volume designator, with or without its slash, in the form `NAME:/`. -/
def normalizeVolume (volume : Bytes) : Option Bytes :=
  let name := volume.takeWhile (· != 58)
  let tail := volume.drop (name.length + 1)
  if name.length = 0 ∨ name.length > 15 ∨ name.all isVolumeCharacter = false ∨
      volume.getD name.length 0 ≠ 58 ∨ (tail ≠ [] ∧ tail ≠ [slash]) then none
  else some (name ++ [58, slash])

/-- `volumeRoot` is `none` when the adapter is not configured; `fsizeMax` is the largest value of
FatFs's `FSIZE_t`. -/
structure FatFsUpdateFileSystem where
  volumeRoot : Option Bytes
  pathPolicy : FatFsUpdatePathPolicy
  fsizeMax : Nat

def FatFsUpdateFileSystem.configure (volume : Bytes) (pathPolicy : FatFsUpdatePathPolicy)
    (fsizeMax : Nat) : FatFsUpdateFileSystem :=
  ⟨normalizeVolume volume, pathPolicy, fsizeMax⟩

def validateRelativePath (path : Bytes) (policy : FatFsUpdatePathPolicy) : Bool :=
  match policy with
  | .developer =>
    validateDeveloperFatRelativePath path fatFsUpdateFileSystemRelativePathBytes == .ok
  | .media => validateMediaFatRelativePath path fatFsUpdateFileSystemRelativePathBytes == .ok
  | .portableRelease => validateFatRelativePath path fatFsUpdateFileSystemRelativePathBytes == .ok

namespace FatFsUpdateFileSystem

variable (fs : FatFsUpdateFileSystem)

/-- The absolute path of a relative one below the volume root. -/
def resolve (relativePath : Bytes) : Option Bytes :=
  fs.volumeRoot.bind fun root =>
    if validateRelativePath relativePath fs.pathPolicy ∧
        root.length + relativePath.length < fatFsUpdateFileSystemAbsolutePathBytes then
      some (root ++ relativePath)
    else none

end FatFsUpdateFileSystem

/-! ### FatFs calls -/

def fStat (path : Bytes) : Program signature (FResult × FilInfo) :=
  perform (S := signature) (Op.stat path)

def fOpenExisting (path : Bytes) : Program signature (FResult × Fil) :=
  perform (S := signature) (Op.openExisting path)

def fOpenNew (path : Bytes) : Program signature (FResult × Fil) :=
  perform (S := signature) (Op.openNew path)

def fLseek (file : Fil) (offset : Nat) : Program signature (FResult × Nat) :=
  perform (S := signature) (Op.lseek file offset)

def fRead (file : Fil) (count : Nat) : Program signature (FResult × Bytes) :=
  perform (S := signature) (Op.read file count)

def fWrite (file : Fil) (bytes : Bytes) : Program signature (FResult × Nat) :=
  perform (S := signature) (Op.write file bytes)

def fSync (file : Fil) : Program signature (FResult × Unit) :=
  perform (S := signature) (Op.sync file)

def fClose (file : Fil) : Program signature (FResult × Unit) :=
  perform (S := signature) (Op.close file)

def fUnlink (path : Bytes) : Program signature (FResult × Unit) :=
  perform (S := signature) (Op.unlink path)

def fRename (source destination : Bytes) : Program signature (FResult × Unit) :=
  perform (S := signature) (Op.rename source destination)

def fMkdir (path : Bytes) : Program signature (FResult × Unit) :=
  perform (S := signature) (Op.mkdir path)

def fGetfree (root : Bytes) : Program signature (FResult × Geometry) :=
  perform (S := signature) (Op.getfree root)

def isMissing (result : FResult) : Bool := result == .noFile || result == .noPath

def statAbsolute (path : Bytes) : Program signature (Option UpdateFileStat) :=
  fStat path >>= fun (status, info) =>
    if isMissing status then pure (some ⟨.missing, 0⟩)
    else if status ≠ .ok then pure none
    else if info.isDirectory then pure (some ⟨.directory, 0⟩)
    else pure (some ⟨.regularFile, info.fsize⟩)

/-- The chunked loop of `ReadExact`, at most `UINT` bytes a call. Every chunk takes at least one
byte, so `size` chunks are enough. -/
def readExactChunks : (fuel : Nat) → Fil → (size : Nat) → Program signature (Option (Bytes × Fil))
  | 0, file, size => pure (if size = 0 then some ([], file) else none)
  | fuel + 1, file, size =>
    if size = 0 then pure (some ([], file))
    else
      let count := min size uintMax
      fRead file count >>= fun (status, received) =>
        if status ≠ .ok ∨ received.length ≠ count then pure none
        else
          readExactChunks fuel { file with fptr := file.fptr + count } (size - count) >>=
            fun rest => pure (rest.map fun (tail, file) => (received ++ tail, file))

def readExact (file : Fil) (size : Nat) : Program signature (Option (Bytes × Fil)) :=
  readExactChunks size file size

/-- The volume's free bytes, cluster size and, for the whole volume, its capacity. -/
def volumeBytes (geometry : Geometry) : Option (Nat × Nat × Option Nat) :=
  if geometry.csize = 0 ∨ geometry.ssize = 0 ∨ geometry.csize > uint64Max / geometry.ssize then none
  else
    let clusterSize := geometry.csize * geometry.ssize
    if geometry.freeClusters > uint64Max / clusterSize then none
    else
      let totalClusters := if geometry.nFatent > 2 then geometry.nFatent - 2 else 0
      let capacity :=
        if totalClusters = 0 ∨ geometry.database < geometry.volbase ∨
            totalClusters > uint64Max / geometry.csize then none
        else
          let metadataSectors := geometry.database - geometry.volbase
          let dataSectors := totalClusters * geometry.csize
          let tailSectors := geometry.csize - 1
          if metadataSectors > uint64Max - dataSectors ∨
              metadataSectors + dataSectors > uint64Max - tailSectors ∨
              metadataSectors + dataSectors + tailSectors > uint64Max / geometry.ssize then none
          else some ((metadataSectors + dataSectors + tailSectors) * geometry.ssize)
      some (geometry.freeClusters * clusterSize, clusterSize, capacity)

def queryVolumeGeometry (root : Bytes) : Program signature (Option (Nat × Nat × Option Nat)) :=
  fGetfree root >>= fun (status, geometry) =>
    if status ≠ .ok then pure none else pure (volumeBytes geometry)

/-! ### Handles -/

structure ReadHandle where
  file : Fil
  size : Nat

structure WriteHandle where
  file : Fil
  sha256 : Sha256
  written : Nat
  absolutePath : Bytes

/-- The handle after `count` bytes were written and hashed. -/
def WriteHandle.wrote (handle : WriteHandle) (file : Fil) (sha256 : Sha256) (count : Nat) :
    WriteHandle :=
  ⟨file, sha256, handle.written + count, handle.absolutePath⟩

/-- The handle pool; `none` is a handle that is not open. -/
structure Handles where
  read : ReadId → Option ReadHandle
  write : Option WriteHandle

def Handles.closed : Handles := ⟨fun _ => none, none⟩

def Handles.setRead (handles : Handles) (id : ReadId) (handle : Option ReadHandle) : Handles :=
  { handles with read := Function.update handles.read id handle }

def Handles.firstClosed (handles : Handles) : Option ReadId :=
  (List.finRange 2).find? fun id => (handles.read id).isNone

/-- The chunked loop of `WriteHandle::Write`. -/
def writeChunks : (fuel : Nat) → WriteHandle → Bytes → Program signature (Bool × WriteHandle)
  | 0, handle, bytes => pure (bytes.isEmpty, handle)
  | fuel + 1, handle, bytes =>
    if bytes.isEmpty then pure (true, handle)
    else
      let chunk := bytes.take (min bytes.length uintMax)
      fWrite handle.file chunk >>= fun (status, written) =>
        let file := handle.file.advanced written
        if status ≠ .ok then pure (false, handle)
        else if written ≠ chunk.length then pure (false, { handle with file := file })
        else
          match handle.sha256.update chunk with
          | none => pure (false, { handle with file := file })
          | some sha256 =>
            writeChunks fuel (handle.wrote file sha256 chunk.length) (bytes.drop chunk.length)

/-- The readback loop of `VerifySyncedWrite`: the hash of what the card returns. -/
def verifyChunks : (fuel : Nat) → Fil → Sha256 → (remaining : Nat) →
    Program signature (Option (Fil × Sha256))
  | 0, file, hash, remaining => pure (if remaining = 0 then some (file, hash) else none)
  | fuel + 1, file, hash, remaining =>
    if remaining = 0 then pure (some (file, hash))
    else
      let count := min fatFsUpdateFileSystemVerifyBufferBytes remaining
      readExact file count >>= fun received =>
        match received with
        | none => pure none
        | some (bytes, file) =>
          match hash.update bytes with
          | none => pure none
          | some hash => verifyChunks fuel file hash (remaining - count)

namespace FatFsUpdateFileSystem

variable (fs : FatFsUpdateFileSystem)

def stat (path : Bytes) : Program signature (Option UpdateFileStat) :=
  match fs.resolve path with
  | none => pure none
  | some absolute => statAbsolute absolute

/-- `ReadHandle::Open`: the size must still be the one the stat reported. -/
def openHandle (absolute : Bytes) (size : Nat) : Program signature (Option ReadHandle) :=
  fOpenExisting absolute >>= fun (status, file) =>
    if status ≠ .ok then pure none
    else if file.objsize ≠ size then fClose file >>= fun _ => pure none
    else pure (some ⟨file, size⟩)

def openRead (path : Bytes) (handles : Handles) : Program signature (Option ReadId × Handles) :=
  match fs.resolve path with
  | none => pure (none, handles)
  | some absolute =>
    statAbsolute absolute >>= fun info =>
      match info with
      | some ⟨.regularFile, size⟩ =>
        match handles.firstClosed with
        | none => pure (none, handles)
        | some id =>
          openHandle absolute size >>= fun handle =>
            match handle with
            | none => pure (none, handles)
            | some handle => pure (some id, handles.setRead id (some handle))
      | _ => pure (none, handles)

/-- `ReadHandle::GetSize` asks FatFs nothing: the size is a field of the open file object. -/
def getSize (handles : Handles) (id : ReadId) : Option Nat :=
  match handles.read id with
  | none => none
  | some handle => if handle.file.objsize = handle.size then some handle.size else none

def readAt (handles : Handles) (id : ReadId) (offset count : Nat) :
    Program signature (Option Bytes × Handles) :=
  match handles.read id with
  | none => pure (none, handles)
  | some handle =>
    if offset > handle.size ∨ count > handle.size - offset ∨ offset > fs.fsizeMax then
      pure (none, handles)
    else
      fLseek handle.file offset >>= fun (status, fptr) =>
        if status ≠ .ok then pure (none, handles)
        else
          let file := { handle.file with fptr := fptr }
          if fptr ≠ offset then pure (none, handles.setRead id (some { handle with file := file }))
          else
            readExact file count >>= fun received =>
              match received with
              | none => pure (none, handles.setRead id (some { handle with file := file }))
              | some (bytes, file) =>
                pure (some bytes, handles.setRead id (some { handle with file := file }))

def closeRead (handles : Handles) (id : ReadId) : Program signature (Bool × Handles) :=
  match handles.read id with
  | none => pure (true, handles)
  | some handle =>
    fClose handle.file >>= fun (status, _) => pure (status == .ok, handles.setRead id none)

def createFileFresh (path : Bytes) (handles : Handles) : Program signature (Bool × Handles) :=
  match fs.resolve path with
  | none => pure (false, handles)
  | some absolute =>
    if handles.write.isSome then pure (false, handles)
    else
      statAbsolute absolute >>= fun info =>
        if info.map UpdateFileStat.type ≠ some .missing then pure (false, handles)
        else
          fOpenNew absolute >>= fun (status, file) =>
            if status ≠ .ok then pure (false, handles)
            else pure (true, { handles with write := some ⟨file, Sha256.reset, 0, absolute⟩ })

def write (bytes : Bytes) (handles : Handles) : Program signature (Bool × Handles) :=
  match handles.write with
  | none => pure (false, handles)
  | some handle =>
    if bytes.length > uint64Max - handle.written ∨ handle.written + bytes.length > fs.fsizeMax then
      pure (false, handles)
    else
      writeChunks bytes.length handle bytes >>= fun (stored, handle) =>
        pure (stored && handle.file.fptr == handle.written, { handles with write := some handle })

/-- The end of the readback: no byte follows, and the file closes. -/
def verifyEnd (file : Fil) (hash : Option Sha256) : Program signature (Option Sha256) :=
  match hash with
  | none => fClose file >>= fun _ => pure none
  | some hash =>
    fRead file 1 >>= fun (status, extra) =>
      fClose file >>= fun (closed, _) =>
        pure (if status = .ok ∧ extra = [] ∧ closed = .ok then some hash else none)

/-- `VerifySyncedWrite`: what the card returns hashes to what was written. -/
def verifySyncedWrite (handle : WriteHandle) : Program signature Bool :=
  fSync handle.file >>= fun (status, _) =>
    if status ≠ .ok ∨ handle.file.objsize ≠ handle.written then pure false
    else
      match handle.sha256.final with
      | none => pure false
      | some expected =>
        statAbsolute handle.absolutePath >>= fun before =>
          if before ≠ some ⟨.regularFile, handle.written⟩ then pure false
          else
            fOpenExisting handle.absolutePath >>= fun (status, file) =>
              if status ≠ .ok then pure false
              else
                (if file.objsize ≠ handle.written then pure none
                  else verifyChunks handle.written file Sha256.reset handle.written) >>= fun result =>
                  verifyEnd ((result.map Prod.fst).getD file) (result.map Prod.snd) >>= fun actual =>
                    match actual.bind Sha256.final with
                    | none => pure false
                    | some actual =>
                      if constantTimeDigestEqual expected actual = false then pure false
                      else
                        statAbsolute handle.absolutePath >>= fun after =>
                          pure (after == some ⟨.regularFile, handle.written⟩)

def sync (handles : Handles) : Program signature Bool :=
  match handles.write with
  | none => pure false
  | some handle => if fs.volumeRoot.isNone then pure false else verifySyncedWrite handle

def closeWrite (handles : Handles) : Program signature (Bool × Handles) :=
  match handles.write with
  | none => pure (true, handles)
  | some handle =>
    fClose handle.file >>= fun (status, _) => pure (status == .ok, { handles with write := none })

def createDirectory (path : Bytes) : Program signature Bool :=
  match fs.resolve path with
  | none => pure false
  | some absolute =>
    statAbsolute absolute >>= fun info =>
      match info with
      | none => pure false
      | some info =>
        if info.type ≠ .missing then pure (info.type == .directory)
        else
          fMkdir absolute >>= fun (status, _) =>
            if status ≠ .ok ∧ status ≠ .exist then pure false
            else
              statAbsolute absolute >>= fun after =>
                pure (after.map UpdateFileStat.type == some .directory)

def removeFile (path : Bytes) : Program signature Bool :=
  match fs.resolve path with
  | none => pure false
  | some absolute =>
    statAbsolute absolute >>= fun info =>
      match info with
      | none => pure false
      | some info =>
        if info.type = .missing then pure true
        else if info.type ≠ .regularFile then pure false
        else fUnlink absolute >>= fun (status, _) => pure (status == .ok || isMissing status)

/-- What `Rename` expects to see afterwards. -/
def renamed (source : UpdateFileStat) (sourceAfter destinationAfter : Option UpdateFileStat) : Bool :=
  match sourceAfter, destinationAfter with
  | some sourceAfter, some destinationAfter =>
    sourceAfter.type == .missing && destinationAfter.type == source.type &&
      (source.type != .regularFile || destinationAfter.size == source.size)
  | _, _ => false

/-- `f_rename` does not replace an existing target, so an old target is unlinked first. -/
def rename (source destination : Bytes) (replaceExisting : Bool) : Program signature Bool :=
  match fs.resolve source, fs.resolve destination with
  | some sourceAbsolute, some destinationAbsolute =>
    if foldEqual sourceAbsolute destinationAbsolute then pure false
    else
      statAbsolute sourceAbsolute >>= fun sourceStat =>
        match sourceStat with
        | none => pure false
        | some sourceStat =>
          statAbsolute destinationAbsolute >>= fun destinationStat =>
            match destinationStat with
            | none => pure false
            | some destinationStat =>
              if (sourceStat.type ≠ .regularFile ∧ sourceStat.type ≠ .directory) ∨
                  destinationStat.type = .directory ∨ destinationStat.type = .other then
                pure false
              else if destinationStat.type ≠ .missing ∧
                  (replaceExisting = false ∨ sourceStat.type ≠ .regularFile) then pure false
              else
                (if destinationStat.type = .missing then pure true
                  else fUnlink destinationAbsolute >>= fun (status, _) => pure (status == .ok))
                >>= fun free =>
                  if free = false then pure false
                  else
                    fRename sourceAbsolute destinationAbsolute >>= fun (status, _) =>
                      if status ≠ .ok then pure false
                      else
                        statAbsolute sourceAbsolute >>= fun sourceAfter =>
                          match sourceAfter with
                          | none => pure false
                          | some _ =>
                            statAbsolute destinationAbsolute >>= fun destinationAfter =>
                              pure (renamed sourceStat sourceAfter destinationAfter)
  | _, _ => pure false

/-- FatFs has synchronized the directory before its calls return. -/
def syncContainingDirectory (path : Bytes) : Bool := (fs.resolve path).isSome

def getFreeSpace : Program signature (Option Nat) :=
  match fs.volumeRoot with
  | none => pure none
  | some root => queryVolumeGeometry root >>= fun sizes => pure (sizes.map fun s => s.1)

def getVolumeSize : Program signature (Option Nat) :=
  match fs.volumeRoot with
  | none => pure none
  | some root => queryVolumeGeometry root >>= fun sizes => pure (sizes.bind fun s => s.2.2)

/-- The adapter as an implementation of `UpdateFileSystem` over FatFs. -/
def layer : Layer fileSystemSignature signature Handles
  | .stat path, handles => fs.stat path >>= fun answer => pure (answer, handles)
  | .openRead path, handles => fs.openRead path handles
  | .getSize handle, handles => pure (getSize handles handle, handles)
  | .readAt handle offset count, handles => fs.readAt handles handle offset count
  | .closeRead handle, handles => closeRead handles handle
  | .createFileFresh path, handles => fs.createFileFresh path handles
  | .write bytes, handles => fs.write bytes handles
  | .sync, handles => fs.sync handles >>= fun answer => pure (answer, handles)
  | .closeWrite, handles => closeWrite handles
  | .createDirectory path, handles => fs.createDirectory path >>= fun answer => pure (answer, handles)
  | .removeFile path, handles => fs.removeFile path >>= fun answer => pure (answer, handles)
  | .rename source destination replaceExisting, handles =>
    fs.rename source destination replaceExisting >>= fun answer => pure (answer, handles)
  | .syncContainingDirectory path, handles => pure (fs.syncContainingDirectory path, handles)
  | .getFreeSpace, handles => fs.getFreeSpace >>= fun answer => pure (answer, handles)
  | .getVolumeSize, handles => fs.getVolumeSize >>= fun answer => pure (answer, handles)

end FatFsUpdateFileSystem

end Bmx.Update
