import Bmx.Base.Checked
import Bmx.Zip.Format

/-!
# Opening an archive

`ZipReader::Open` reads the end record, walks the central directory and then the local headers it
points to. Each stage is a program over the source; what it checks in the bytes it has read is a
pure function of them.
-/

namespace Bmx.Zip

open Interaction Update

/-- The reader between calls. `validatedContents` is the digest of the inventory whose contents
were validated or authenticated, if any. -/
structure ZipReader where
  inventory : ZipInventory
  limits : ZipLimits
  hasWorkspace : Bool
  isOpen : Bool
  lenientExtraFields : Bool
  lenientPaths : Bool
  lenientArchive : Bool
  lenientRatio : Bool
  firstFailurePath : Bytes
  validatedContents : Option Digest

def ZipReader.initial : ZipReader :=
  ⟨.empty, {}, false, false, false, false, false, false, [], none⟩

/-- The reader of the update flow: nothing is tolerated. -/
def ZipReader.Strict (reader : ZipReader) : Prop :=
  reader.lenientExtraFields = false ∧ reader.lenientPaths = false ∧ reader.lenientArchive = false ∧
    reader.lenientRatio = false

/-- An early return of `Open`, with the name it noted as offending. -/
structure OpenFailure where
  status : ZipStatus
  note : Option Bytes

def OpenFailure.of (status : ZipStatus) : OpenFailure := ⟨status, none⟩

/-- A check on bytes that have been read. -/
def ensure (condition : Prop) [Decidable condition] (status : ZipStatus) : Except OpenFailure Unit :=
  if condition then .ok () else .error (.of status)

def orFail {α : Type} (value : Option α) (status : ZipStatus) : Except OpenFailure α :=
  match value with
  | some value => .ok value
  | none => .error (.of status)

theorem ensure_eq_ok {condition : Prop} [Decidable condition] {status : ZipStatus} {u : Unit} :
    ensure condition status = .ok u ↔ condition := by
  unfold ensure
  by_cases hcondition : condition <;> simp [hcondition]

theorem orFail_eq_ok {α : Type} {option : Option α} {status : ZipStatus} {value : α} :
    orFail option status = .ok value ↔ option = some value := by
  cases option <;> simp [orFail]

abbrev OpenM := Fallible zipSignature OpenFailure

namespace OpenM

def require (condition : Prop) [Decidable condition] (status : ZipStatus) : OpenM Unit :=
  Fallible.require condition (.of status)

def check {α : Type} (result : Except OpenFailure α) : OpenM α := ExceptT.mk (pure result)

/-- `ReadAt`, failing with a source error. -/
def readAt (offset count : Nat) : OpenM Bytes :=
  (Fallible.ask (S := zipSignature) (.readAt offset count)) >>= fun answer =>
    match answer with
    | none => throw (.of .sourceIo)
    | some bytes => pure bytes.1

end OpenM

/-! ### Looking for signatures -/

/-- The last index from `index` on at which the signature stands in the window. -/
def lastSignature (signature : Bytes) : (window : Bytes) → (index : Nat) → Option Nat
  | [], _ => none
  | value :: rest, index =>
    match lastSignature signature rest (index + 1) with
    | some found => some found
    | none => if (value :: rest).take 4 = signature then some index else none

def searchChunk : Nat := 4096

/-- The loop of `FindLastSignature`: windows of a chunk and the last three bytes before it. -/
def findLastSignature (signature : Bytes) (last : Nat) :
    (fuel offset : Nat) → (carried : Bytes) → (found : Option Nat) → OpenM (Option Nat)
  | 0, _, _, found => pure found
  | fuel + 1, offset, carried, found =>
    if offset < last then
      OpenM.readAt offset (min (last - offset) searchChunk) >>= fun bytes =>
        let window := carried ++ bytes
        let found := ((lastSignature signature window 0).map (offset - carried.length + ·)).or found
        findLastSignature signature last fuel (offset + bytes.length)
          (window.drop (window.length - min 3 window.length)) found
    else pure found

/-- The loop of `ContainsSignature`, which stops at the first match. -/
def containsSignature (signature : Bytes) (last : Nat) :
    (fuel offset : Nat) → (carried : Bytes) → OpenM Bool
  | 0, _, _ => pure false
  | fuel + 1, offset, carried =>
    if offset < last then
      OpenM.readAt offset (min (last - offset) searchChunk) >>= fun bytes =>
        let window := carried ++ bytes
        if (lastSignature signature window 0).isSome then pure true
        else
          containsSignature signature last fuel (offset + bytes.length)
            (window.drop (window.length - min 3 window.length))
    else pure false

def tailBytes : Nat := 65557

/-- Every chunk takes at least one byte. -/
def searchFuel (first last : Nat) : Nat := last - first

/-! ### End record -/

structure EndRecord where
  diskNumber : Nat
  centralDisk : Nat
  entriesOnDisk : Nat
  entryCount : Nat
  centralSize : Nat
  centralOffset : Nat
  commentLength : Nat

def EndRecord.parse (bytes : Bytes) : EndRecord :=
  ⟨readU16 bytes 4, readU16 bytes 6, readU16 bytes 8, readU16 bytes 10, readU32 bytes 12,
    readU32 bytes 16, readU16 bytes 20⟩

/-- The checks on the end record read at `endOffset`; `central_end` is `end_offset` after them. -/
def checkEndRecord (reader : ZipReader) (limits : ZipLimits) (entryCapacity archiveSize endOffset : Nat)
    (bytes : Bytes) : Except OpenFailure EndRecord := do
  let record := EndRecord.parse bytes
  ensure (bytes.take 4 = endSignature) .endRecordInvalid
  ensure ((addWithoutOverflow endOffset endRecordSize).bind
    (addWithoutOverflow · record.commentLength) = some archiveSize) .endRecordInvalid
  ensure (record.commentLength = 0 ∨ reader.lenientArchive = true) .archiveCommentForbidden
  ensure (record.diskNumber = 0 ∧ record.centralDisk = 0 ∧ record.entriesOnDisk = record.entryCount)
    .multiDiskForbidden
  ensure (record.entryCount ≠ 0 ∧ record.entryCount ≠ uint16Max ∧
    record.entryCount ≤ limits.maximumEntries) .entryCountInvalid
  ensure (record.centralSize ≠ uint32Max ∧ record.centralOffset ≠ uint32Max) .zip64Forbidden
  ensure (record.entryCount ≤ entryCapacity) .storageTooSmall
  ensure (addWithoutOverflow record.centralOffset record.centralSize = some endOffset)
    .centralDirectoryInvalid
  pure record

/-! ### Central directory -/

structure CentralHeader where
  signature : Nat
  versionMade : Nat
  versionNeeded : Nat
  flags : Nat
  method : Nat
  crc32 : Nat
  compressedSize : Nat
  size : Nat
  nameLength : Nat
  extraLength : Nat
  memberCommentLength : Nat
  diskStart : Nat
  externalAttributes : Nat
  localOffset : Nat

def CentralHeader.parse (bytes : Bytes) : CentralHeader :=
  ⟨readU32 bytes 0, readU16 bytes 4, readU16 bytes 6, readU16 bytes 8, readU16 bytes 10,
    readU32 bytes 16, readU32 bytes 20, readU32 bytes 24, readU16 bytes 28, readU16 bytes 30,
    readU16 bytes 32, readU16 bytes 34, readU32 bytes 38, readU32 bytes 42⟩

def CentralHeader.creatorSystem (header : CentralHeader) : Nat := header.versionMade >>> 8

def CentralHeader.recordSize (header : CentralHeader) : Nat :=
  centralHeaderSize + header.nameLength + header.extraLength + header.memberCommentLength

def compressionOf (method : Nat) : Option ZipCompression :=
  if method = ZipCompression.store.method then some .store
  else if method = ZipCompression.deflate.method then some .deflate
  else none

/-- General-purpose flags the reader tolerates. -/
def allowedFlags (reader : ZipReader) : Nat :=
  if reader.lenientPaths then utf8Flag ||| lenientFlagMask else utf8Flag

def checkCentralHeader (reader : ZipReader) (limits : ZipLimits) (cursor centralEnd : Nat)
    (header : CentralHeader) : Except OpenFailure ZipCompression := do
  ensure (header.signature = centralSignature) .centralDirectoryInvalid
  ensure (header.versionNeeded ≤ 20) .unsupportedVersion
  ensure (header.flags &&& (uint16Max ^^^ allowedFlags reader) = 0) .unsupportedFlags
  let compression ← orFail (compressionOf header.method) .unsupportedCompression
  ensure (header.diskStart = 0) .multiDiskForbidden
  ensure (header.compressedSize ≠ uint32Max ∧ header.size ≠ uint32Max ∧
    header.localOffset ≠ uint32Max) .zip64Forbidden
  ensure (header.extraLength = 0 ∨ reader.lenientExtraFields = true) .extraFieldForbidden
  ensure (header.memberCommentLength = 0) .memberCommentForbidden
  ensure (header.nameLength ≠ 0) .pathInvalid
  ensure (rangeWithin cursor header.recordSize centralEnd = true) .centralDirectoryInvalid
  ensure (header.nameLength ≤ limits.maximumPathBytes + 1 ∧
    header.nameLength ≤ zipMaximumPathBytes + 1) .pathTooLong
  pure compression

/-- Whether the name as it stands in the archive names a directory. -/
def nameIsDirectory (name : Bytes) : Bool := name.getLast? == some slash

/-- The name that is validated: in the lenient mode the normalized one, cut at a NUL. -/
def checkedName (reader : ZipReader) (rawName : Bytes) : Except OpenFailure (Bytes × Bool) :=
  if reader.lenientPaths = true ∧ rawName.length ≤ zipMaximumPathBytes then
    match normalizeLenientPath (zipMaximumPathBytes + 1) rawName with
    | none => .error ⟨.pathInvalid, some (noteFailurePath (rawName.take 240))⟩
    | some (name, isDirectory) => .ok (name.takeWhile (· != 0), isDirectory)
  else .ok (rawName, nameIsDirectory rawName)

/-- The path of an entry, with the name as read noted when it is refused. -/
def checkedPath (limits : ZipLimits) (flags : Nat) (rawName name : Bytes) (isDirectory : Bool) :
    Except OpenFailure Bytes :=
  match validateAndCopyPath name flags isDirectory limits.maximumPathBytes with
  | .ok path => .ok path
  | .error status => .error ⟨status, some (noteFailurePath (rawName.take 240))⟩

/-- The duplicate checks against the entries before this one, in directory order. -/
def checkDuplicates (path : Bytes) : List ZipEntry → Except OpenFailure Unit
  | [] => .ok ()
  | previous :: rest =>
    if path = previous.path then .error ⟨.duplicatePath, some (noteFailurePath path)⟩
    else if foldEqual path previous.path then
      .error ⟨.fatCaseCollision, some (noteFailurePath path)⟩
    else checkDuplicates path rest

def ratioExceeded (reader : ZipReader) (limits : ZipLimits) (entry : ZipEntry) : Bool :=
  let denominator := if entry.compressedSize = 0 then 1 else entry.compressedSize
  !reader.lenientRatio && (entry.size / denominator > limits.maximumCompressionRatio ||
    (entry.size / denominator == limits.maximumCompressionRatio && entry.size % denominator != 0))

/-- The size checks of a directory and of a file. -/
def checkSizes (reader : ZipReader) (limits : ZipLimits) (entry : ZipEntry) :
    Except OpenFailure Unit :=
  if entry.isDirectory then
    ensure (entry.compression = .store ∧ entry.compressedSize = 0 ∧ entry.size = 0 ∧
      entry.crc32 = 0) .directoryMetadataInvalid
  else do
    ensure (entry.size ≤ limits.maximumFileBytes ∧ (entry.size = 0 ∨ entry.compressedSize ≠ 0))
      .memberSizeInvalid
    ensure (ratioExceeded reader limits entry = false) .compressionRatioInvalid

/-- The entry a central header and a validated name describe; its data offset comes later. -/
def centralEntry (header : CentralHeader) (compression : ZipCompression) (path : Bytes)
    (isDirectory : Bool) : ZipEntry :=
  ⟨path, isDirectory, compression, header.flags, header.crc32, header.compressedSize, header.size,
    header.localOffset, 0, header.externalAttributes, header.creatorSystem⟩

/-- `IsDirectoryMetadata` for the name as read. -/
def checkMetadata (header : CentralHeader) (rawName : Bytes) : Except OpenFailure Unit :=
  match directoryMetadataStatus header.creatorSystem header.externalAttributes
      (nameIsDirectory rawName) with
  | .ok => .ok ()
  | status => .error (.of status)

/-- The checks on a central entry once its name is read. -/
def checkCentralEntry (reader : ZipReader) (limits : ZipLimits) (header : CentralHeader)
    (compression : ZipCompression) (rawName : Bytes) (previous : List ZipEntry) :
    Except OpenFailure ZipEntry := do
  checkMetadata header rawName
  let (name, isDirectory) ← checkedName reader rawName
  let path ← checkedPath limits header.flags rawName name isDirectory
  checkDuplicates path previous
  let entry := centralEntry header compression path isDirectory
  checkSizes reader limits entry
  pure entry

/-- An optional progress hook, asked every 256 entries. -/
def openProgress (hasProgress : Bool) (index produced total : Nat) : OpenM Unit :=
  if hasProgress ∧ index % 256 = 0 then
    (Fallible.ask (S := zipSignature) (.progress .opening produced total)) >>= fun answer =>
      OpenM.require (answer = true) .cancelled
  else pure ()

/-- One central record: its header, its name and their checks. -/
def readCentralEntry (reader : ZipReader) (limits : ZipLimits) (centralEnd cursor : Nat)
    (previous : List ZipEntry) : OpenM (ZipEntry × Nat) := do
  OpenM.require (rangeWithin cursor centralHeaderSize centralEnd = true) .centralDirectoryInvalid
  let bytes ← OpenM.readAt cursor centralHeaderSize
  let header := CentralHeader.parse bytes
  let compression ← OpenM.check (checkCentralHeader reader limits cursor centralEnd header)
  let rawName ← OpenM.readAt (cursor + centralHeaderSize) header.nameLength
  let entry ← OpenM.check (checkCentralEntry reader limits header compression rawName previous)
  pure (entry, cursor + header.recordSize)

/-- The state of the central loop. -/
structure CentralScan where
  entries : List ZipEntry
  cursor : Nat
  fileCount : Nat
  directoryCount : Nat

def CentralScan.add (scan : CentralScan) (entry : ZipEntry) (cursor : Nat) : CentralScan where
  entries := scan.entries ++ [entry]
  cursor := cursor
  fileCount := if entry.isDirectory then scan.fileCount else scan.fileCount + 1
  directoryCount := if entry.isDirectory then scan.directoryCount + 1 else scan.directoryCount

def readCentral (reader : ZipReader) (limits : ZipLimits) (hasProgress : Bool)
    (centralEnd entryCount : Nat) : (remaining : Nat) → CentralScan → OpenM CentralScan
  | 0, scan => pure scan
  | remaining + 1, scan => do
    let (entry, next) ← readCentralEntry reader limits centralEnd scan.cursor scan.entries
    openProgress hasProgress scan.entries.length scan.entries.length entryCount
    readCentral reader limits hasProgress centralEnd entryCount remaining (scan.add entry next)

/-- A file that is a path-ancestor of another entry. The loop of the source skips the entry
itself; a path is never its own ancestor. -/
def fileUsedAsDirectory (entries : List ZipEntry) : Bool :=
  entries.any fun file => !file.isDirectory &&
    entries.any fun child => fatPrefixDirectory file.path child.path

/-! ### Local headers -/

structure LocalHeader where
  signature : Nat
  version : Nat
  flags : Nat
  method : Nat
  crc32 : Nat
  compressedSize : Nat
  size : Nat
  nameLength : Nat
  extraLength : Nat

def LocalHeader.parse (bytes : Bytes) : LocalHeader :=
  ⟨readU32 bytes 0, readU16 bytes 4, readU16 bytes 6, readU16 bytes 8, readU32 bytes 14,
    readU32 bytes 18, readU32 bytes 22, readU16 bytes 26, readU16 bytes 28⟩

/-- With a data descriptor the local CRC and sizes are zero or postponed. -/
def sizesPostponed (reader : ZipReader) (header : LocalHeader) : Bool :=
  reader.lenientPaths && header.flags &&& descriptorFlag != 0

def checkLocalHeader (reader : ZipReader) (entry : ZipEntry) (header : LocalHeader) :
    Except OpenFailure Unit := do
  ensure (header.signature = localSignature) .localHeaderMismatch
  ensure (header.version ≤ 20) .unsupportedVersion
  ensure (header.flags = entry.flags ∧ header.method = entry.compression.method ∧
    (sizesPostponed reader header = true ∨ (header.crc32 = entry.crc32 ∧
      header.compressedSize = entry.compressedSize ∧ header.size = entry.size))) .localHeaderMismatch
  ensure (header.extraLength = 0 ∨ reader.lenientExtraFields = true) .extraFieldForbidden
  ensure (header.nameLength ≤ zipMaximumPathBytes + 1) .localHeaderMismatch

/-- The local name that is compared: in the lenient mode the normalized one, cut at a NUL. -/
def comparedName (reader : ZipReader) (localName : Bytes) : Except OpenFailure Bytes :=
  if reader.lenientPaths = true ∧ localName.length ≤ zipMaximumPathBytes then
    match normalizeLenientPath (zipMaximumPathBytes + 1) localName with
    | none => .error (.of .localHeaderMismatch)
    | some (name, _) => .ok (name.takeWhile (· != 0))
  else .ok localName

/-- The name of a local header against its central entry, and where the data starts. -/
def checkLocalName (reader : ZipReader) (entry : ZipEntry) (header : LocalHeader)
    (centralOffset : Nat) (localName : Bytes) : Except OpenFailure Nat := do
  let name ← comparedName reader localName
  ensure (name.length = entry.path.length + (if entry.isDirectory then 1 else 0)) .localHeaderMismatch
  let dataOffset ← orFail (((addWithoutOverflow entry.localHeaderOffset localHeaderSize).bind
    (addWithoutOverflow · header.nameLength)).bind (addWithoutOverflow · header.extraLength))
    .offsetInvalid
  ensure (rangeWithin dataOffset entry.compressedSize centralOffset = true) .offsetInvalid
  ensure (name.take entry.path.length = entry.path ∧
    (entry.isDirectory = true → name.getLast? = some slash)) .localHeaderMismatch
  pure dataOffset

/-- A data descriptor must repeat the central values. -/
def descriptorMatches (entry : ZipEntry) (payload : Bytes) : Bool :=
  readU32 payload 0 == entry.crc32 && readU32 payload 4 == entry.compressedSize &&
    readU32 payload 8 == entry.size

/-- The data descriptor after a member's data, tolerated by the lenient mode only. -/
def skipDescriptor (reader : ZipReader) (entry : ZipEntry) (centralOffset offset : Nat) :
    OpenM Nat :=
  if entry.isDirectory = false ∧ reader.lenientPaths = true ∧ entry.flags &&& descriptorFlag ≠ 0 then do
    OpenM.require (rangeWithin offset 4 centralOffset = true) .sourceIo
    let signature ← OpenM.readAt offset 4
    if readU32 signature 0 = localSignature then pure offset
    else if rangeWithin offset 16 centralOffset = true then do
      let descriptor ← OpenM.readAt offset 16
      let signed := readU32 descriptor 0 == descriptorSignature
      OpenM.require (descriptorMatches entry (if signed then descriptor.drop 4 else descriptor) = true)
        .offsetInvalid
      OpenM.check (orFail (addWithoutOverflow offset (if signed then 16 else 12)) .offsetInvalid)
    else do
      OpenM.require (rangeWithin offset 12 centralOffset = true) .offsetInvalid
      let answer ← Fallible.ask (S := zipSignature) (.readAt offset 12)
      match answer with
      | none => throw (.of .offsetInvalid)
      | some descriptor =>
        OpenM.require (descriptorMatches entry descriptor.1 = true) .offsetInvalid
        OpenM.check (orFail (addWithoutOverflow offset 12) .offsetInvalid)
  else pure offset

/-- One local record: the entry with its data offset, and where the next record must start. -/
def readLocalEntry (reader : ZipReader) (centralOffset expectedOffset : Nat) (entry : ZipEntry) :
    OpenM (ZipEntry × Nat) := do
  OpenM.require (entry.localHeaderOffset = expectedOffset ∧
    rangeWithin entry.localHeaderOffset localHeaderSize centralOffset = true) .offsetInvalid
  let bytes ← OpenM.readAt entry.localHeaderOffset localHeaderSize
  let header := LocalHeader.parse bytes
  OpenM.check (checkLocalHeader reader entry header)
  let localName ← OpenM.readAt (entry.localHeaderOffset + localHeaderSize) header.nameLength
  let dataOffset ← OpenM.check (checkLocalName reader entry header centralOffset localName)
  let dataEnd ← OpenM.check (orFail (addWithoutOverflow dataOffset entry.compressedSize) .offsetInvalid)
  let next ← skipDescriptor reader entry centralOffset dataEnd
  pure ({ entry with dataOffset := dataOffset }, next)

def addInstalled (limits : ZipLimits) (entry : ZipEntry) (installed : Nat) :
    Except OpenFailure Nat :=
  if entry.isDirectory then .ok installed
  else do
    let total ← orFail (addWithoutOverflow installed entry.size) .installedSizeInvalid
    ensure (total ≤ limits.maximumInstalledBytes) .installedSizeInvalid
    pure total

/-- The state of the local loop. -/
structure LocalScan where
  done : List ZipEntry
  expectedOffset : Nat
  installed : Nat

def readLocal (reader : ZipReader) (limits : ZipLimits) (hasProgress : Bool)
    (centralOffset entryCount : Nat) : (rest : List ZipEntry) → LocalScan → OpenM LocalScan
  | [], scan => pure scan
  | entry :: rest, scan => do
    openProgress hasProgress scan.done.length (entryCount + scan.done.length) (entryCount * 2)
    let (entry, next) ← readLocalEntry reader centralOffset scan.expectedOffset entry
    let installed ← OpenM.check (addInstalled limits entry scan.installed)
    readLocal reader limits hasProgress centralOffset entryCount rest
      ⟨scan.done ++ [entry], next, installed⟩

/-! ### Open -/

def limitsValid (limits : ZipLimits) : Bool :=
  limits.maximumEntries != 0 && limits.maximumEntries ≤ zipMaximumEntries &&
    limits.maximumPathBytes != 0 && limits.maximumPathBytes ≤ zipMaximumPathBytes &&
    endRecordSize ≤ limits.maximumArchiveBytes && limits.maximumFileBytes != 0 &&
    limits.maximumInstalledBytes != 0 && limits.maximumCompressionRatio != 0

/-- The end record and its offset: found in the tail, read and checked, with no Zip64 record
before it. -/
def readEndRecord (reader : ZipReader) (limits : ZipLimits) (entryCapacity archiveSize : Nat) :
    OpenM (EndRecord × Nat) := do
  let tailBegin := archiveSize - min archiveSize tailBytes
  let found ← findLastSignature endSignature archiveSize (searchFuel tailBegin archiveSize) tailBegin
    [] none
  let endOffset ← OpenM.check (orFail found .endRecordInvalid)
  OpenM.require (rangeWithin endOffset endRecordSize archiveSize = true) .endRecordInvalid
  let bytes ← OpenM.readAt endOffset endRecordSize
  let record ← OpenM.check (checkEndRecord reader limits entryCapacity archiveSize endOffset bytes)
  let zip64End ← containsSignature zip64EndSignature endOffset (searchFuel tailBegin endOffset)
    tailBegin []
  OpenM.require (zip64End = false) .zip64Forbidden
  let zip64Locator ← containsSignature zip64LocatorSignature endOffset
    (searchFuel tailBegin endOffset) tailBegin []
  OpenM.require (zip64Locator = false) .zip64Forbidden
  pure (record, endOffset)

/-- Everything `Open` does after its argument checks: the inventory it establishes. -/
def openInventory (reader : ZipReader) (limits : ZipLimits) (hasProgress : Bool)
    (entryCapacity : Nat) : OpenM ZipInventory := do
  let size ← Fallible.ask (S := zipSignature) .getSize
  let archiveSize ← OpenM.check (orFail size .sourceIo)
  OpenM.require (endRecordSize ≤ archiveSize ∧ archiveSize ≤ limits.maximumArchiveBytes)
    .archiveSizeInvalid
  let (record, centralEnd) ← readEndRecord reader limits entryCapacity archiveSize
  let central ← readCentral reader limits hasProgress centralEnd record.entryCount
    record.entryCount ⟨[], record.centralOffset, 0, 0⟩
  OpenM.require (central.cursor = centralEnd) .centralDirectoryInvalid
  OpenM.require (fileUsedAsDirectory central.entries = false) .fileUsedAsDirectory
  let scan ← readLocal reader limits hasProgress record.centralOffset record.entryCount
    central.entries ⟨[], 0, 0⟩
  OpenM.require (scan.expectedOffset = record.centralOffset) .offsetInvalid
  pure ⟨scan.done, central.fileCount, central.directoryCount, archiveSize, scan.installed,
    record.centralOffset, record.centralSize⟩

/-- The reader with everything an earlier `Open` established forgotten. -/
def ZipReader.closed (reader : ZipReader) : ZipReader :=
  { reader with inventory := .empty, isOpen := false, validatedContents := none }

/-- `Open`, with storage for `entryCapacity` entries. -/
def ZipReader.open (reader : ZipReader) (entryCapacity : Nat) (limits : ZipLimits)
    (hasProgress : Bool) : Program zipSignature (ZipStatus × ZipReader) :=
  if limitsValid limits = false then pure (.invalidArgument, reader.closed)
  else
    (openInventory reader limits hasProgress entryCapacity).run >>= fun result =>
      match result with
      | .ok inventory =>
        pure (.ok, { reader.closed with inventory := inventory, limits := limits, isOpen := true })
      | .error failure =>
        pure (failure.status,
          { reader.closed with firstFailurePath := failure.note.getD reader.firstFailurePath })

end Bmx.Zip
