import Bmx.Update.FileSystem
import Bmx.Update.Manifest
import Bmx.Zip.Extract

/-!
# The installer

`SimpleUpdateInstaller::Install` compares the card with a signed manifest, checks that the release
fits, and then replaces one file at a time through a temporary file. There is no rollback journal.
-/

namespace Bmx.Update

open Interaction Zip

/-! ### Statuses and results -/

inductive SimpleUpdateStatus
  | ok | invalidArgument | reservedPathCollision | zipInvalid | fileSystemError | volumeTooSmall
  | insufficientSpace | canceled | extractFailed | publishFailed
  deriving DecidableEq

inductive SimpleUpdatePhase
  | hash | install
  deriving DecidableEq

structure SimpleUpdateResult where
  status : SimpleUpdateStatus
  zipStatus : ZipStatus
  changedFileCount : Nat
  unchangedFileCount : Nat
  preservedFileCount : Nat
  deletedFileCount : Nat
  changedBytes : Nat
  requiredFreeBytes : Nat
  availableFreeBytes : Nat

def SimpleUpdateResult.of (status : SimpleUpdateStatus) : SimpleUpdateResult :=
  ⟨status, .ok, 0, 0, 0, 0, 0, 0, 0⟩

/-- The buffers the caller lends; a null pointer is a missing one. -/
structure SimpleUpdateWorkspace where
  hasZipEntries : Bool
  zipEntryCapacity : Nat
  hasExpectedFiles : Bool
  expectedFileCapacity : Nat
  hasExpectedDirectories : Bool
  expectedDirectoryCapacity : Nat
  hasFileActions : Bool
  fileActionCapacity : Nat
  hasZipWorkspace : Bool
  hasIoBuffer : Bool
  ioBufferSize : Nat

def workspaceValid (workspace : SimpleUpdateWorkspace) (asset : ManifestAsset) : Bool :=
  workspace.hasZipEntries && workspace.zipEntryCapacity != 0 && workspace.hasExpectedFiles &&
    asset.files.length ≤ workspace.expectedFileCapacity && workspace.hasExpectedDirectories &&
    asset.directories.length ≤ workspace.expectedDirectoryCapacity && workspace.hasFileActions &&
    asset.files.length ≤ workspace.fileActionCapacity && workspace.hasZipWorkspace &&
    workspace.hasIoBuffer && workspace.ioBufferSize != 0

def simpleUpdateMinimumVolumeBytes : Nat := 512 * 1024 * 1024
def simpleUpdateSafetyReserveBytes : Nat := 16 * 1024 * 1024
def simpleUpdateTemporaryPath : Bytes := ascii "BMX-UPD.TMP"
def buildIdentityPath : Bytes := ascii "BMX-BUILD.json"

/-! ### Paths -/

def isReservedPath (path : Bytes) : Bool :=
  foldEqual path simpleUpdateTemporaryPath || foldEqual path (ascii "BMX-UPD.ZIP") ||
    foldEqual path (ascii "BMX-UPD.ZIP.part")

def isBuildIdentity (file : ManifestFile) : Bool :=
  file.policy == .metadata && foldEqual file.path buildIdentityPath

def installPass (file : ManifestFile) : Nat :=
  if isBuildIdentity file then 3
  else if file.policy = .kernel then 1
  else if file.policy = .configTemplate then 2
  else 0

def hasManagedReplacement (asset : ManifestAsset) (path : Bytes) : Bool :=
  asset.files.any fun file =>
    foldEqual file.path path && (file.policy == .kernel || file.policy == .managedReplace)

/-! ### Checks of the manifest -/

/-- The first loop of `Install`: the number of build identities and the bytes to hash. -/
def checkFiles : List ManifestFile → (identities total : Nat) → Except SimpleUpdateStatus (Nat × Nat)
  | [], identities, total => .ok (identities, total)
  | file :: rest, identities, total =>
    if isReservedPath file.path then .error .reservedPathCollision
    else
      match addWithoutOverflow total file.size with
      | none => .error .invalidArgument
      | some total =>
        checkFiles rest (if isBuildIdentity file then identities + 1 else identities) total

def checkDeletions (files : List ManifestFile) : List Bytes → Except SimpleUpdateStatus Unit
  | [] => .ok ()
  | path :: rest =>
    if isReservedPath path then .error .reservedPathCollision
    else if files.any fun file => foldEqual path file.path then .error .invalidArgument
    else checkDeletions files rest

def checkReplacements (asset : ManifestAsset) :
    List ManifestReplacement → Except SimpleUpdateStatus Unit
  | [] => .ok ()
  | replacement :: rest =>
    if isReservedPath replacement.path ∨ foldEqual replacement.path replacement.replacedBy ∨
        hasManagedReplacement asset replacement.replacedBy = false then
      .error .reservedPathCollision
    else if asset.files.any fun file => foldEqual replacement.path file.path then
      .error .invalidArgument
    else checkReplacements asset rest

/-- Everything `Install` checks before it opens the archive: the number of bytes to hash. -/
def checkAsset (asset : ManifestAsset) (resetConfiguration : Bool) :
    Except SimpleUpdateStatus Nat := do
  if asset.files = [] ∨ (asset.configurationResetRequired = true ∧ resetConfiguration = false) then
    .error .invalidArgument
  else
    let (identities, total) ← checkFiles asset.files 0 0
    if identities ≠ 1 then .error .invalidArgument
    else
      checkDeletions asset.files asset.deletions
      checkReplacements asset asset.replacements
      .ok total

def buildExpectedInventory (asset : ManifestAsset) : ZipExpectedInventory where
  files := asset.files.map fun file =>
    ⟨file.path, file.size, if file.compression = .store then .store else .deflate, some file.sha256⟩
  directories := asset.directories

/-! ### Collaborators -/

/-- The archive, the inflater and the progress report. -/
inductive OutsideOp
  | archiveSize
  | archiveRead (offset count : Nat)
  | inflateInit
  | inflate (input : Bytes) (capacity : Nat) (hasMoreInput : Bool)
  | report (phase : SimpleUpdatePhase) (completed total : Nat)

@[reducible] def OutsideOp.Answer : OutsideOp → Type
  | .archiveSize => Option Nat
  | .archiveRead _ count => Option (Filled count)
  | .inflateInit => Unit
  | .inflate input capacity _ => Inflated input capacity
  | .report _ _ _ => Bool

@[reducible] def outsideSignature : Signature := ⟨OutsideOp, OutsideOp.Answer⟩

@[reducible] def installSignature : Signature := fileSystemSignature.sum outsideSignature

def fileSystem (op : FileSystemOp) : Program installSignature op.Answer :=
  Program.perform (S := installSignature) (.inl op)

/-- A call of the archive, the inflater or the progress report. -/
def outside (op : OutsideOp) : Program installSignature op.Answer :=
  Program.perform (S := installSignature) (.inr op)

/-- `Report`, which agrees when there is nobody to ask. -/
def report (hasProgress : Bool) (phase : SimpleUpdatePhase) (completed total : Nat) :
    Program installSignature Bool :=
  if hasProgress then outside (.report phase completed total) else pure true

/-! ### The sinks -/

/-- `SingleFileExtractSink`; `hasFile` says whether `file_` is set. -/
structure SingleFileExtractSink where
  expectedPath : Bytes
  hasFile : Bool
  stageBase : Nat
  stageTotal : Nat
  written : Nat
  active : Bool

structure SimpleZipHashSink where
  hash : Sha256
  expectedSize : Nat
  receivedSize : Nat
  active : Bool

def SimpleZipHashSink.initial : SimpleZipHashSink := ⟨.reset, 0, 0, false⟩

namespace SimpleZipHashSink

def beginFile (sink : SimpleZipHashSink) (size : Nat) : Bool × SimpleZipHashSink :=
  if sink.active then (false, sink) else (true, ⟨.reset, size, 0, true⟩)

def update (sink : SimpleZipHashSink) (bytes : Bytes) : Bool × SimpleZipHashSink :=
  if sink.active = false ∨ bytes.length > sink.expectedSize - sink.receivedSize then (false, sink)
  else
    match sink.hash.update bytes with
    | none => (false, sink)
    | some hash => (true, { sink with hash := hash, receivedSize := sink.receivedSize + bytes.length })

def finishFile (sink : SimpleZipHashSink) : Option Digest × SimpleZipHashSink :=
  (if sink.active = false ∨ sink.receivedSize ≠ sink.expectedSize then none else sink.hash.final,
    { sink with active := false })

def abortFile (sink : SimpleZipHashSink) : SimpleZipHashSink := { sink with active := false }

end SimpleZipHashSink

namespace SingleFileExtractSink

variable (hasProgress : Bool) (sink : SingleFileExtractSink)

def forFile (path : Bytes) (stageBase stageTotal : Nat) : SingleFileExtractSink :=
  ⟨path, false, stageBase, stageTotal, 0, false⟩

def beginEntry (entry : ZipEntry) : Program installSignature (Bool × SingleFileExtractSink) :=
  if sink.active = true ∨ entry.isDirectory = true ∨ entry.path ≠ sink.expectedPath then
    pure (false, sink)
  else
    fileSystem (.removeFile simpleUpdateTemporaryPath) >>= fun removed =>
      if removed then
        fileSystem (.createFileFresh simpleUpdateTemporaryPath) >>= fun created =>
          if created then pure (true, { sink with hasFile := true, written := 0, active := true })
          else pure (false, sink)
      else pure (false, sink)

def write (bytes : Bytes) : Program installSignature (Bool × SingleFileExtractSink) :=
  if sink.active = false ∨ sink.hasFile = false then pure (false, sink)
  else
    fileSystem (.write bytes) >>= fun stored =>
      if stored then
        let sink := { sink with written := sink.written + bytes.length }
        report hasProgress .install (sink.stageBase + sink.written) sink.stageTotal >>= fun going =>
          pure (going, sink)
      else pure (false, sink)

/-- `CommitEntry` once the temporary file is closed. -/
def publish (stored : Bool) : Program installSignature Bool :=
  if stored then
    fileSystem (.rename simpleUpdateTemporaryPath sink.expectedPath true) >>= fun renamed =>
      if renamed then fileSystem (.syncContainingDirectory sink.expectedPath) else pure false
  else pure false

def commitEntry (entry : ZipEntry) : Program installSignature (Bool × SingleFileExtractSink) :=
  if sink.active = false ∨ sink.hasFile = false ∨ entry.path ≠ sink.expectedPath then
    pure (false, sink)
  else do
    let synced ← fileSystem .sync
    let closed ← fileSystem .closeWrite
    let sink := { sink with hasFile := false, active := false }
    let published ← sink.publish (synced && closed)
    if published then
      let going ← report hasProgress .install (sink.stageBase + sink.written) sink.stageTotal
      pure (going, sink)
    else
      let _ ← fileSystem (.removeFile simpleUpdateTemporaryPath)
      pure (false, sink)

def closeFile : Program installSignature Unit :=
  if sink.hasFile then fileSystem .closeWrite >>= fun _ => pure () else pure ()

def abortEntry : Program installSignature SingleFileExtractSink :=
  sink.closeFile >>= fun _ =>
    fileSystem (.removeFile simpleUpdateTemporaryPath) >>= fun _ =>
      pure { sink with hasFile := false, active := false }

end SingleFileExtractSink

/-- The two sinks the archive reader is given. -/
structure InstallSinks where
  sink : SingleFileExtractSink
  hash : SimpleZipHashSink

def InstallSinks.setSink (sinks : InstallSinks) (sink : SingleFileExtractSink) : InstallSinks :=
  { sinks with sink := sink }

def InstallSinks.setHash (sinks : InstallSinks) (hash : SimpleZipHashSink) : InstallSinks :=
  { sinks with hash := hash }

/-- The archive reader's collaborators, as the installer provides them: no progress hooks. -/
def sinkLayer (hasProgress : Bool) : Layer zipSignature installSignature InstallSinks
  | .getSize, sinks => outside .archiveSize >>= fun size => pure (size, sinks)
  | .readAt offset count, sinks => outside (.archiveRead offset count) >>= fun bytes => pure (bytes, sinks)
  | .inflateInit, sinks => outside .inflateInit >>= fun answer => pure (answer, sinks)
  | .inflate input capacity hasMoreInput, sinks =>
    outside (.inflate input capacity hasMoreInput) >>= fun answer => pure (answer, sinks)
  | .hashBegin _ size, sinks =>
    pure ((sinks.hash.beginFile size).1, sinks.setHash (sinks.hash.beginFile size).2)
  | .hashUpdate bytes, sinks =>
    pure ((sinks.hash.update bytes).1, sinks.setHash (sinks.hash.update bytes).2)
  | .hashFinish, sinks => pure (sinks.hash.finishFile.1, sinks.setHash sinks.hash.finishFile.2)
  | .hashAbort, sinks => pure ((), sinks.setHash sinks.hash.abortFile)
  | .sinkBegin entry, sinks =>
    sinks.sink.beginEntry entry >>= fun reply => pure (reply.1, sinks.setSink reply.2)
  | .sinkWrite bytes, sinks =>
    sinks.sink.write hasProgress bytes >>= fun reply => pure (reply.1, sinks.setSink reply.2)
  | .sinkCommit entry, sinks =>
    sinks.sink.commitEntry hasProgress entry >>= fun reply => pure (reply.1, sinks.setSink reply.2)
  | .sinkAbort _, sinks => sinks.sink.abortEntry >>= fun sink => pure ((), sinks.setSink sink)
  | .progress _ _ _, sinks => pure (true, sinks)

/-! ### Comparing the card with the manifest -/

inductive FileAction
  | installFile | keepUnchanged | preserveExisting
  deriving DecidableEq

inductive HashTargetStatus
  | ok (digest : Digest)
  | canceled
  | failed

/-- The read loop of `HashTarget`. Every round reads at least one byte. -/
def hashLoop (hasProgress : Bool) (handle : ReadId) (size bufferSize base total : Nat) :
    (fuel offset : Nat) → Sha256 → Program installSignature HashTargetStatus
  | 0, _, hash =>
    fileSystem (.closeRead handle) >>= fun closed =>
      match (if closed then hash.final else none) with
      | none => pure .failed
      | some digest => pure (.ok digest)
  | fuel + 1, offset, hash =>
    if offset < size then
      let amount := min bufferSize (size - offset)
      fileSystem (.readAt handle offset amount) >>= fun bytes =>
        match bytes.bind hash.update with
        | none => fileSystem (.closeRead handle) >>= fun _ => pure .failed
        | some hash =>
          report hasProgress .hash (base + (offset + amount)) total >>= fun going =>
            if going then
              hashLoop hasProgress handle size bufferSize base total fuel (offset + amount) hash
            else fileSystem (.closeRead handle) >>= fun _ => pure .canceled
    else hashLoop hasProgress handle size bufferSize base total 0 offset hash

def hashTarget (hasProgress : Bool) (path : Bytes) (size bufferSize base total : Nat) :
    Program installSignature HashTargetStatus :=
  fileSystem (.openRead path) >>= fun opened =>
    match opened with
    | none => pure .failed
    | some handle =>
      fileSystem (.getSize handle) >>= fun actual =>
        if actual = some size then hashLoop hasProgress handle size bufferSize base total size 0 .reset
        else fileSystem (.closeRead handle) >>= fun _ => pure .failed

/-- An early return of `Install`. -/
abbrev InstallM := Fallible installSignature SimpleUpdateResult

def SimpleUpdateResult.withStatus (result : SimpleUpdateResult) (status : SimpleUpdateStatus) :
    SimpleUpdateResult :=
  { result with status := status }

/-- Leave `Install` with this status unless the call succeeded. -/
def succeedOr (call : Program installSignature Bool) (result : SimpleUpdateResult)
    (status : SimpleUpdateStatus) : InstallM Unit :=
  ExceptT.lift call >>= fun done => Fallible.require (done = true) (result.withStatus status)

def preserves (file : ManifestFile) (resetConfiguration : Bool) : Bool :=
  file.policy == .preserve || (file.policy == .configTemplate && !resetConfiguration)

/-- Whether the file on the card already is the release's file. -/
def compareTarget (hasProgress : Bool) (bufferSize hashed hashTotal : Nat) (file : ManifestFile)
    (result : SimpleUpdateResult) : InstallM FileAction :=
  ExceptT.lift (hashTarget hasProgress file.path file.size bufferSize hashed hashTotal) >>=
    fun status =>
      match status with
      | .canceled => throw (result.withStatus .canceled)
      | .failed => throw (result.withStatus .fileSystemError)
      | .ok digest =>
        pure (if constantTimeDigestEqual digest file.sha256 then .keepUnchanged else .installFile)

def selectAction (hasProgress : Bool) (resetConfiguration : Bool) (bufferSize hashed hashTotal : Nat)
    (file : ManifestFile) (result : SimpleUpdateResult) : InstallM FileAction :=
  ExceptT.lift (fileSystem (.stat file.path)) >>= fun stat =>
    match stat with
    | none => throw (result.withStatus .fileSystemError)
    | some stat =>
      if stat.type ≠ .missing ∧ stat.type ≠ .regularFile then
        throw (result.withStatus .fileSystemError)
      else if preserves file resetConfiguration = true ∧ stat.type = .regularFile then
        pure .preserveExisting
      else if stat.type = .regularFile ∧ stat.size = file.size then
        compareTarget hasProgress bufferSize hashed hashTotal file result
      else pure .installFile

/-- The counters of the result after the action of one file; the sum of the changed bytes may
overflow. -/
def countAction (file : ManifestFile) (action : FileAction) (result : SimpleUpdateResult) :
    Except SimpleUpdateResult SimpleUpdateResult :=
  match action with
  | .preserveExisting => .ok { result with preservedFileCount := result.preservedFileCount + 1 }
  | .keepUnchanged => .ok { result with unchangedFileCount := result.unchangedFileCount + 1 }
  | .installFile =>
    let result := { result with changedFileCount := result.changedFileCount + 1 }
    match addWithoutOverflow result.changedBytes file.size with
    | none => .error (result.withStatus .invalidArgument)
    | some changedBytes => .ok { result with changedBytes := changedBytes }

/-- The state of the comparison loop. -/
structure Comparison where
  actions : List FileAction
  hashed : Nat
  largestChanged : Nat
  result : SimpleUpdateResult

def compareFiles (hasProgress : Bool) (resetConfiguration : Bool) (bufferSize hashTotal : Nat) :
    List ManifestFile → Comparison → InstallM Comparison
  | [], comparison => pure comparison
  | file :: rest, comparison => do
    let action ← selectAction hasProgress resetConfiguration bufferSize comparison.hashed hashTotal
      file comparison.result
    let result ← ExceptT.mk (pure (countAction file action comparison.result))
    let largestChanged :=
      if action = .installFile then max file.size comparison.largestChanged
      else comparison.largestChanged
    match addWithoutOverflow comparison.hashed file.size with
    | none => throw (result.withStatus .canceled)
    | some hashed =>
      succeedOr (report hasProgress .hash hashed hashTotal) result .canceled
      compareFiles hasProgress resetConfiguration bufferSize hashTotal rest
        ⟨comparison.actions ++ [action], hashed, largestChanged, result⟩

/-! ### Installing -/

/-- `RemoveSignedFile`: whether it succeeded and whether a file was removed. -/
def removeSignedFile (path : Bytes) : Program installSignature (Bool × Bool) :=
  fileSystem (.stat path) >>= fun stat =>
    match stat with
    | none => pure (false, false)
    | some stat =>
      if stat.type ≠ .missing ∧ stat.type ≠ .regularFile then pure (false, false)
      else if stat.type = .missing then pure (true, false)
      else
        fileSystem (.removeFile path) >>= fun removed =>
          if removed then
            fileSystem (.syncContainingDirectory path) >>= fun synced => pure (synced, synced)
          else pure (false, false)

def removeSignedFiles : List Bytes → SimpleUpdateResult → InstallM SimpleUpdateResult
  | [], result => pure result
  | path :: rest, result =>
    ExceptT.lift (removeSignedFile path) >>= fun (succeeded, removed) =>
      if succeeded then
        removeSignedFiles rest
          (if removed then { result with deletedFileCount := result.deletedFileCount + 1 } else result)
      else throw (result.withStatus .publishFailed)

def createDirectories : List Bytes → SimpleUpdateResult → InstallM Unit
  | [], _ => pure ()
  | path :: rest, result => do
    succeedOr (fileSystem (.createDirectory path)) result .fileSystemError
    createDirectories rest result

/-- What the extraction loops carry from file to file. -/
structure Extracting where
  reader : ZipReader
  hash : SimpleZipHashSink
  installed : Nat
  result : SimpleUpdateResult

/-- One file: `ExtractOne` into a sink of its own. -/
def extractFile (hasProgress : Bool) (expected : ZipExpectedInventory) (stageTotal : Nat)
    (file : ManifestFile) (state : Extracting) : InstallM Extracting := do
  let sink := SingleFileExtractSink.forFile file.path state.installed stageTotal
  let ((zipStatus, reader), sinks) ← ExceptT.lift
    ((state.reader.extractOne file.path expected true true).through (sinkLayer hasProgress)
      ⟨sink, state.hash⟩)
  let result := { state.result with zipStatus := zipStatus }
  if zipStatus ≠ .ok then
    let _ ← ExceptT.lift (fileSystem (.removeFile simpleUpdateTemporaryPath))
    throw (result.withStatus .extractFailed)
  else pure ⟨reader, sinks.hash, state.installed + file.size, result⟩

/-- One pass over the files: those of the pass that are to be installed. -/
def extractPass (hasProgress : Bool) (expected : ZipExpectedInventory) (stageTotal pass : Nat) :
    List (ManifestFile × FileAction) → Extracting → InstallM Extracting
  | [], state => pure state
  | (file, action) :: rest, state =>
    if installPass file ≠ pass ∨ action ≠ .installFile then
      extractPass hasProgress expected stageTotal pass rest state
    else
      extractFile hasProgress expected stageTotal file state >>=
        extractPass hasProgress expected stageTotal pass rest

def openArchive (hasProgress : Bool) (workspace : SimpleUpdateWorkspace)
    (expected : ZipExpectedInventory) (result : SimpleUpdateResult) : InstallM ZipReader := do
  let reader : ZipReader := { ZipReader.initial with hasWorkspace := workspace.hasZipWorkspace }
  let sinks : InstallSinks := ⟨.forFile [] 0 0, .initial⟩
  let ((opened, reader), _) ← ExceptT.lift
    ((reader.open workspace.zipEntryCapacity {} false).through (sinkLayer hasProgress) sinks)
  if opened ≠ .ok then throw { result with status := .zipInvalid, zipStatus := opened }
  else do
    let ((bound, reader), _) ← ExceptT.lift
      ((reader.bindAuthenticatedInventory expected).through (sinkLayer hasProgress) sinks)
    if bound ≠ .ok then throw { result with status := .zipInvalid, zipStatus := bound }
    else pure reader

/-- The checks of the volume and of its free space around the comparison. -/
def preflight (hasProgress : Bool) (asset : ManifestAsset) (resetConfiguration : Bool)
    (bufferSize hashTotal : Nat) (result : SimpleUpdateResult) : InstallM Comparison := do
  let volumeSize ← ExceptT.lift (fileSystem .getVolumeSize)
  match volumeSize with
  | none => throw (result.withStatus .fileSystemError)
  | some volumeSize =>
    Fallible.require (simpleUpdateMinimumVolumeBytes ≤ volumeSize) (result.withStatus .volumeTooSmall)
    succeedOr (report hasProgress .hash 0 hashTotal) result .canceled
    let comparison ← compareFiles hasProgress resetConfiguration bufferSize hashTotal asset.files
      ⟨[], 0, 0, result⟩
    match addWithoutOverflow comparison.largestChanged simpleUpdateSafetyReserveBytes with
    | none => throw (comparison.result.withStatus .fileSystemError)
    | some required =>
      let free ← ExceptT.lift (fileSystem .getFreeSpace)
      match free with
      | none =>
        throw ({ comparison.result with requiredFreeBytes := required }.withStatus
          .fileSystemError)
      | some available =>
        let result := { comparison.result with
          requiredFreeBytes := required, availableFreeBytes := available }
        Fallible.require (required ≤ available) (result.withStatus .insufficientSpace)
        pure { comparison with result := result }

/-- Everything after the preflight: this changes the card. -/
def installFiles (hasProgress : Bool) (asset : ManifestAsset) (expected : ZipExpectedInventory)
    (reader : ZipReader) (comparison : Comparison) : InstallM SimpleUpdateResult := do
  let result := comparison.result
  let work := asset.files.zip comparison.actions
  succeedOr (fileSystem (.removeFile simpleUpdateTemporaryPath)) result .fileSystemError
  createDirectories asset.directories result
  let stageTotal := if result.changedBytes = 0 then 1 else result.changedBytes
  succeedOr (report hasProgress .install 0 stageTotal) result .publishFailed
  let state ← extractPass hasProgress expected stageTotal 0 work ⟨reader, .initial, 0, result⟩
  let state ← extractPass hasProgress expected stageTotal 1 work state
  let state ← extractPass hasProgress expected stageTotal 2 work state
  let result ← removeSignedFiles asset.deletions state.result
  let result ← removeSignedFiles (asset.replacements.map (·.path)) result
  let state ← extractPass hasProgress expected stageTotal 3 work { state with result := result }
  succeedOr (fileSystem (.removeFile simpleUpdateTemporaryPath)) state.result .publishFailed
  succeedOr (report hasProgress .install stageTotal stageTotal) state.result .publishFailed
  pure (state.result.withStatus .ok)

/-- `Install`, with its early returns. -/
def installSteps (hasProgress : Bool) (asset : ManifestAsset) (resetConfiguration : Bool)
    (authenticated : Bool) (workspace : SimpleUpdateWorkspace) : InstallM SimpleUpdateResult := do
  let result := SimpleUpdateResult.of .invalidArgument
  Fallible.require (authenticated = true ∧ workspaceValid workspace asset = true) result
  match checkAsset asset resetConfiguration with
  | .error status => throw (result.withStatus status)
  | .ok hashTotal =>
    let expected := buildExpectedInventory asset
    let reader ← openArchive hasProgress workspace expected result
    let comparison ← preflight hasProgress asset resetConfiguration workspace.ioBufferSize hashTotal
      result
    installFiles hasProgress asset expected reader comparison

def install (hasProgress : Bool) (manifest : ReleaseManifest) (resetConfiguration : Bool)
    (archiveBytesAuthenticated : Bool) (workspace : SimpleUpdateWorkspace) :
    Program installSignature SimpleUpdateResult :=
  (installSteps hasProgress manifest.asset resetConfiguration archiveBytesAuthenticated
    workspace).run >>= fun outcome =>
      match outcome with
      | .ok result => pure result
      | .error result => pure result

end Bmx.Update
