import Bmx.Update.FileSystem

/-!
# The upload of one file

A transaction receives a file into a sibling of its target and puts it in the target's place when
the whole body has arrived with the promised length and hash. The calls that give other tasks a
turn between two chunks of a hash are left out.
-/

namespace Bmx.Remote

open Interaction Update Program

def developerFilePathBytes : Nat := 512

inductive DeveloperFileStatus
  | ok | invalidArgument | invalidPath | missing | notRegularFile | insufficientSpace | busy
  | ioError | lengthMismatch | hashMismatch | installFailed

structure DeveloperFileInfo where
  size : Nat
  sha256 : Digest

def hashBufferBytes : Nat := 4096

/-! ### Calls of the file system -/

namespace UpdateFileSystem

def stat (path : Bytes) : Program fileSystemSignature (Option UpdateFileStat) :=
  perform (S := fileSystemSignature) (.stat path)

def openRead (path : Bytes) : Program fileSystemSignature (Option ReadId) :=
  perform (S := fileSystemSignature) (.openRead path)

def getSize (file : ReadId) : Program fileSystemSignature (Option Nat) :=
  perform (S := fileSystemSignature) (.getSize file)

def readAt (file : ReadId) (offset count : Nat) : Program fileSystemSignature (Option Bytes) :=
  perform (S := fileSystemSignature) (.readAt file offset count)

def closeRead (file : ReadId) : Program fileSystemSignature Bool :=
  perform (S := fileSystemSignature) (.closeRead file)

def createFileFresh (path : Bytes) : Program fileSystemSignature Bool :=
  perform (S := fileSystemSignature) (.createFileFresh path)

def write (bytes : Bytes) : Program fileSystemSignature Bool :=
  perform (S := fileSystemSignature) (.write bytes)

def sync : Program fileSystemSignature Bool := perform (S := fileSystemSignature) .sync

def closeWrite : Program fileSystemSignature Bool :=
  perform (S := fileSystemSignature) .closeWrite

def createDirectory (path : Bytes) : Program fileSystemSignature Bool :=
  perform (S := fileSystemSignature) (.createDirectory path)

def removeFile (path : Bytes) : Program fileSystemSignature Bool :=
  perform (S := fileSystemSignature) (.removeFile path)

/-- `Rename` as every caller here makes it: an existing target is not replaced. -/
def rename (source destination : Bytes) : Program fileSystemSignature Bool :=
  perform (S := fileSystemSignature) (.rename source destination false)

def syncContainingDirectory (path : Bytes) : Program fileSystemSignature Bool :=
  perform (S := fileSystemSignature) (.syncContainingDirectory path)

def getFreeSpace : Program fileSystemSignature (Option Nat) :=
  perform (S := fileSystemSignature) .getFreeSpace

end UpdateFileSystem

open UpdateFileSystem

/-! ### The hash of a file -/

/-- The read loop of `ProbeDeveloperFile` from `offset` on. Every chunk takes at least one byte, so
`size` chunks are enough. -/
def hashFile (file : ReadId) (size : Nat) :
    (fuel offset : Nat) → Sha256 → Program fileSystemSignature (Option Sha256)
  | 0, offset, sha256 => pure (if offset < size then none else some sha256)
  | fuel + 1, offset, sha256 =>
    if offset < size then
      let count := min hashBufferBytes (size - offset)
      readAt file offset count >>= fun bytes =>
        match bytes.bind sha256.update with
        | none => pure none
        | some sha256 => hashFile file size fuel (offset + count) sha256
    else pure (some sha256)

/-- The hash of the open file, which must still have the size its stat reported. -/
def hashOpened (file : ReadId) (size : Nat) : Program fileSystemSignature (Option Sha256) :=
  getSize file >>= fun current =>
    if current = some size then hashFile file size size 0 Sha256.reset else pure none

def probeDeveloperFile (path : Bytes) :
    Program fileSystemSignature (Except DeveloperFileStatus DeveloperFileInfo) :=
  stat path >>= fun info =>
    match info with
    | none => pure (.error .ioError)
    | some ⟨.missing, _⟩ => pure (.error .missing)
    | some ⟨.regularFile, size⟩ =>
      openRead path >>= fun file =>
        match file with
        | none => pure (.error .ioError)
        | some file =>
          hashOpened file size >>= fun sha256 =>
            closeRead file >>= fun closed =>
              match if closed then sha256.bind Sha256.final else none with
              | none => pure (.error .ioError)
              | some digest => pure (.ok ⟨size, digest⟩)
    | some _ => pure (.error .notRegularFile)

/-! ### Sibling names -/

def directoryPart (path : Bytes) : Bytes := (path.reverse.dropWhile (· != slash)).reverse

def hexDigits : Bytes := ascii "0123456789abcdef"

/-- `%08lx`. -/
def hex8 (value : UInt32) : Bytes :=
  (List.range 8).map fun i => hexDigits.getD ((value >>> (UInt32.ofNat (4 * (7 - i)))) &&& 15).toNat 0

def preferredNameBytes : Nat := 18

/-- The names tried first, with the next numbers after the token. -/
def preferredNames (directory : Bytes) (kind : UInt8) (token : UInt32) : List Bytes :=
  (List.range 32).map fun attempt =>
    directory ++ ascii ".bmx-" ++ [kind] ++ hex8 (token + UInt32.ofNat attempt) ++ ascii ".tmp"

def base36 : Bytes := ascii "0123456789abcdefghijklmnopqrstuvwxyz"

def scramble (state : UInt32) : UInt32 := state * 1664525 + 1013904223

/-- The characters drawn from the generator, one state each. -/
def fallbackCharacters : (count : Nat) → UInt32 → Bytes
  | 0, _ => []
  | count + 1, state =>
    base36.getD (scramble state % 36).toNat 0 :: fallbackCharacters count (scramble state)

/-- The names tried when no other is free or fits: each attempt has its own last character. -/
def fallbackNames (directory : Bytes) (kind : UInt8) (token : UInt32) (capacity : Nat) : List Bytes :=
  let nameSize := min (capacity - directory.length - 1) 8
  let state := token ^^^ (if kind = 117 then 0x9e3779b9 else 0x85ebca6b)
  (List.range 36).map fun attempt =>
    directory ++ (fallbackCharacters nameSize state).take (nameSize - 1) ++
      [base36.getD (((token % 36).toNat + attempt) % 36) 0]

/-- One of the two search loops of `SelectSiblingPath`, with what its destination buffer holds in
the end. No answer means that every name is taken. -/
def tryNames (target : Bytes) :
    List Bytes → (destination : Bytes) → Program fileSystemSignature (Option Bool × Bytes)
  | [], destination => pure (none, destination)
  | name :: rest, _ =>
    if foldEqual name target then tryNames target rest name
    else
      stat name >>= fun info =>
        match info with
        | none => pure (some false, name)
        | some info =>
          if info.type = .missing then pure (some true, name) else tryNames target rest name

/-- The second search of `SelectSiblingPath`. -/
def selectFallback (target : Bytes) (kind : UInt8) (token : UInt32) (destination : Bytes)
    (capacity : Nat) : Program fileSystemSignature (Bool × Bytes) :=
  let directory := directoryPart target
  if directory.length + 1 ≥ capacity then pure (false, destination)
  else
    tryNames target (fallbackNames directory kind token capacity) destination >>= fun reply =>
      match reply with
      | (none, _) => pure (false, [])
      | (some found, name) => pure (found, name)

/-- `SelectSiblingPath`. A preferred name always fits where it is tried. -/
def selectSiblingPath (target : Bytes) (kind : UInt8) (token : UInt32) (destination : Bytes)
    (capacity : Nat) : Program fileSystemSignature (Bool × Bytes) :=
  let directory := directoryPart target
  if directory.length + preferredNameBytes < capacity then
    tryNames target (preferredNames directory kind token) destination >>= fun reply =>
      match reply with
      | (none, name) => selectFallback target kind token name capacity
      | (some found, name) => pure (found, name)
  else selectFallback target kind token destination capacity

/-- The paths of the directories above a file, from the root on. -/
def parentPaths : (read rest : Bytes) → List Bytes
  | _, [] => []
  | read, value :: rest =>
    if value = slash then read :: parentPaths (read ++ [value]) rest
    else parentPaths (read ++ [value]) rest

def createDirectories : List Bytes → Program fileSystemSignature Bool
  | [] => pure true
  | path :: rest =>
    createDirectory path >>= fun created =>
      if created then createDirectories rest else pure false

/-! ### The transaction -/

structure UploadRequest where
  path : Bytes
  contentLength : Nat
  expectedSha256 : Digest
  requestToken : UInt32

/-- `fileSystem` and `writeFile` say that the pointer is set. -/
structure DeveloperFileTransaction where
  fileSystem : Bool
  writeFile : Bool
  sha256 : Sha256
  expectedSha256 : Digest
  actualSha256 : Digest
  targetPath : Bytes
  temporaryPath : Bytes
  backupPath : Bytes
  expectedSize : Nat
  received : Nat
  requestToken : UInt32
  targetExisted : Bool
  discard : Bool
  active : Bool
  finished : Bool
  changed : Bool

def zeroDigest : Digest := ⟨List.replicate sha256DigestBytes 0, rfl⟩

namespace DeveloperFileTransaction

/-- A call's status, with the transaction it leaves. -/
abbrev Call := DeveloperFileTransaction → Program fileSystemSignature
  (DeveloperFileStatus × DeveloperFileTransaction)

def create : DeveloperFileTransaction where
  fileSystem := false
  writeFile := false
  sha256 := Sha256.reset
  expectedSha256 := zeroDigest
  actualSha256 := zeroDigest
  targetPath := []
  temporaryPath := []
  backupPath := []
  expectedSize := 0
  received := 0
  requestToken := 0
  targetExisted := false
  discard := false
  active := false
  finished := false
  changed := false

/-- The end of `Abort`. -/
def released (t : DeveloperFileTransaction) : DeveloperFileTransaction :=
  { t with
    writeFile := false, temporaryPath := [], backupPath := [], active := false, finished := false,
    changed := false, fileSystem := false }

/-- The part of `Abort` that moves an old target back to its place. -/
def restoreTarget (t : DeveloperFileTransaction) : Program fileSystemSignature Unit :=
  if t.fileSystem && !t.backupPath.isEmpty then
    stat t.targetPath >>= fun target =>
      if target.map UpdateFileStat.type = some .missing then
        rename t.backupPath t.targetPath >>= fun _ => pure ()
      else pure ()
  else pure ()

def abort (t : DeveloperFileTransaction) : Program fileSystemSignature DeveloperFileTransaction :=
  (if t.writeFile then closeWrite else pure true) >>= fun _ =>
    (if t.fileSystem && !t.temporaryPath.isEmpty then removeFile t.temporaryPath else pure true) >>=
      fun _ => t.restoreTarget >>= fun _ => pure t.released

def fail (status : DeveloperFileStatus) : Call := fun t =>
  t.abort >>= fun t => pure (status, t)

/-- The fields `Begin` sets before it looks at the card. -/
def prepared (t : DeveloperFileTransaction) (request : UploadRequest) : DeveloperFileTransaction :=
  { t with
    fileSystem := true, targetPath := request.path, expectedSize := request.contentLength,
    requestToken := request.requestToken, expectedSha256 := request.expectedSha256,
    sha256 := Sha256.reset, received := 0, finished := false, changed := false,
    temporaryPath := [], backupPath := [] }

/-- The end of `Begin`, where the target does not hold the new content already. -/
def openTemporary : Call := fun t =>
  getFreeSpace >>= fun free =>
    match free with
    | none => t.fail .ioError
    | some free =>
      if t.expectedSize > free then t.fail .insufficientSpace
      else
        createDirectories (parentPaths [] t.targetPath) >>= fun created =>
          if created = false then t.fail .ioError
          else
            selectSiblingPath t.targetPath 117 t.requestToken t.temporaryPath
                developerFilePathBytes >>= fun (found, name) =>
              if found = false then fail .ioError { t with temporaryPath := name }
              else
                createFileFresh name >>= fun opened =>
                  if opened = false then fail .ioError { t with temporaryPath := name }
                  else pure (.ok, { t with temporaryPath := name, writeFile := true, active := true })

/-- `Begin` after the stat of the target: an upload of what is already there writes nothing. -/
def compareExisting : Call := fun t =>
  if t.targetExisted then
    probeDeveloperFile t.targetPath >>= fun probe =>
      match probe with
      | .error status => t.fail status
      | .ok existing =>
        if existing.size = t.expectedSize ∧
            constantTimeDigestEqual existing.sha256 t.expectedSha256 = true then
          pure (.ok, { t with discard := true, active := true })
        else openTemporary { t with discard := false }
  else openTemporary { t with discard := false }

def begin (request : UploadRequest) : Call := fun t =>
  if t.active then pure (.busy, t)
  else if validateDeveloperFatRelativePath request.path developerFilePathBytes ≠ .ok then
    pure (.invalidPath, t)
  else
    stat request.path >>= fun info =>
      match info with
      | none => (t.prepared request).fail .ioError
      | some info =>
        if info.type = .directory ∨ info.type = .other then
          (t.prepared request).fail .notRegularFile
        else
          compareExisting
            { t.prepared request with targetExisted := info.type == .regularFile }

/-- No `data` is a null pointer with a size. -/
def write (data : Option Bytes) : Call := fun t =>
  if t.active = false ∨ t.finished then pure (.invalidArgument, t)
  else
    match data with
    | none => t.fail .invalidArgument
    | some data =>
      if data.length > t.expectedSize - t.received then t.fail .lengthMismatch
      else
        match t.sha256.update data with
        | none => t.fail .ioError
        | some sha256 =>
          (if t.discard then pure true else UpdateFileSystem.write data) >>= fun stored =>
            if stored = false then fail .ioError { t with sha256 := sha256 }
            else pure (.ok, { t with sha256 := sha256, received := t.received + data.length })

/-- The renames of `Finish`: whether the new file is installed and whether the old one is aside. -/
def install (t : DeveloperFileTransaction) :
    Program fileSystemSignature (Bool × Bool × DeveloperFileTransaction) :=
  if t.targetExisted = false then
    rename t.temporaryPath t.targetPath >>= fun installed => pure (installed, false, t)
  else
    selectSiblingPath t.targetPath 98 t.requestToken t.backupPath developerFilePathBytes >>=
      fun (found, name) =>
        if found = false then pure (false, false, { t with backupPath := name })
        else
          rename t.targetPath name >>= fun moved =>
            if moved = false then pure (false, false, { t with backupPath := name })
            else
              rename t.temporaryPath t.targetPath >>= fun installed =>
                if installed then pure (true, true, { t with backupPath := name })
                else
                  rename name t.targetPath >>= fun restored =>
                    if restored then pure (false, false, { t with backupPath := [] })
                    else pure (false, true, { t with backupPath := name })

/-- A directory that could not be synchronized: back to the state before. -/
def rollBack (backupInstalled : Bool) (t : DeveloperFileTransaction) :
    Program fileSystemSignature DeveloperFileTransaction :=
  removeFile t.targetPath >>= fun removed =>
    if backupInstalled && removed then
      rename t.backupPath t.targetPath >>= fun restored =>
        pure (if restored then { t with backupPath := [] } else t)
    else pure t

/-- The transaction lets go of the file system when it has ended well. -/
def completed (t : DeveloperFileTransaction) (changed : Bool) : DeveloperFileTransaction :=
  { t with active := false, finished := true, changed := changed, fileSystem := false }

/-- `Finish` after the renames. -/
def settle (installed backupInstalled : Bool) : Call := fun t =>
  if installed = false then t.fail .installFailed
  else
    let t := { t with temporaryPath := [] }
    syncContainingDirectory t.targetPath >>= fun synced =>
      if synced = false then rollBack backupInstalled t >>= fun t => t.fail .ioError
      else
        (if backupInstalled then removeFile t.backupPath else pure true) >>= fun _ =>
          pure (.ok, { t.completed true with backupPath := [] })

/-- `Finish` of a body that arrived whole and was written to the card. -/
def commit : Call := fun t =>
  (if t.writeFile then sync else pure false) >>= fun synced =>
    if synced = false then t.fail .ioError
    else
      closeWrite >>= fun closed =>
        let t := { t with writeFile := false }
        if closed = false then t.fail .ioError
        else t.install >>= fun (installed, backupInstalled, t) => t.settle installed backupInstalled

def finish : Call := fun t =>
  if t.active = false ∨ t.finished then pure (.invalidArgument, t)
  else if t.received ≠ t.expectedSize then t.fail .lengthMismatch
  else
    match t.sha256.final with
    | none => t.fail .ioError
    | some actual =>
      let t := { t with actualSha256 := actual }
      if constantTimeDigestEqual actual t.expectedSha256 = false then t.fail .hashMismatch
      else if t.discard then pure (.ok, t.completed false)
      else t.commit

end DeveloperFileTransaction

end Bmx.Remote
