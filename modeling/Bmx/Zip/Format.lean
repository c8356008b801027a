import Bmx.Interaction.Fallible
import Bmx.Update.FatPathPolicy
import Bmx.Update.Sha256

/-!
# The bmx-zip32-v1 format

The records, limits and pure checks of the archive reader, and the interface through which it
reaches its source, the inflater and its sinks. The lenient modes of the archive browser are part
of the same code and are kept.
-/

namespace Bmx.Zip

open Interaction Update

/-! ### Numbers -/

def readU16 (bytes : Bytes) (offset : Nat) : Nat := littleEndian ((bytes.drop offset).take 2)

def readU32 (bytes : Bytes) (offset : Nat) : Nat := littleEndian ((bytes.drop offset).take 4)

def rangeWithin (offset length boundary : Nat) : Bool :=
  match addWithoutOverflow offset length with
  | none => false
  | some last => last ≤ boundary

theorem rangeWithin_iff {offset length boundary : Nat} :
    rangeWithin offset length boundary = true ↔
      addWithoutOverflow offset length = some (offset + length) ∧ offset + length ≤ boundary := by
  unfold rangeWithin
  cases hsum : addWithoutOverflow offset length with
  | none => simp
  | some last =>
    rw [addWithoutOverflow_eq_some hsum]
    simp

def uint16Max : Nat := 2 ^ 16 - 1
def uint32Max : Nat := 2 ^ 32 - 1

/-! ### CRC-32 -/

def crc32Shift (value : UInt32) : UInt32 :=
  if value &&& 1 ≠ 0 then (value >>> 1) ^^^ 0xedb88320 else value >>> 1

def crc32TableEntry (index : UInt32) : UInt32 :=
  crc32Shift (crc32Shift (crc32Shift (crc32Shift
    (crc32Shift (crc32Shift (crc32Shift (crc32Shift index)))))))

def crc32Byte (crc : UInt32) (value : UInt8) : UInt32 :=
  crc32TableEntry ((crc ^^^ value.toUInt32) &&& 0xff) ^^^ (crc >>> 8)

def updateCrc32 (crc : UInt32) (bytes : Bytes) : UInt32 := bytes.foldl crc32Byte crc

theorem updateCrc32_append (crc : UInt32) (first second : Bytes) :
    updateCrc32 crc (first ++ second) = updateCrc32 (updateCrc32 crc first) second :=
  List.foldl_append

/-- The CRC-32 of a whole member, as the headers declare it. -/
def crc32 (bytes : Bytes) : Nat := (updateCrc32 0xffffffff bytes ^^^ 0xffffffff).toNat

example : crc32 (ascii "123456789") = 0xcbf43926 := by decide +kernel

/-! ### Constants and statuses -/

def endSignature : Bytes := [0x50, 0x4b, 0x05, 0x06]
def centralSignature : Nat := 0x02014b50
def localSignature : Nat := 0x04034b50
def descriptorSignature : Nat := 0x08074b50
def zip64EndSignature : Bytes := [0x50, 0x4b, 0x06, 0x06]
def zip64LocatorSignature : Bytes := [0x50, 0x4b, 0x06, 0x07]
def utf8Flag : Nat := 1 <<< 11
def descriptorFlag : Nat := 1 <<< 3
def lenientFlagMask : Nat := (1 <<< 1) ||| (1 <<< 2) ||| (1 <<< 3)
def endRecordSize : Nat := 22
def centralHeaderSize : Nat := 46
def localHeaderSize : Nat := 30
def zipMaximumEntries : Nat := 32768
def zipMaximumPathBytes : Nat := 240
def zipInputBufferBytes : Nat := 32768
def zipInflateDictionaryBytes : Nat := 32768

inductive ZipStatus
  | ok | invalidArgument | notOpen | sourceIo | archiveSizeInvalid | endRecordInvalid
  | archiveCommentForbidden | multiDiskForbidden | zip64Forbidden | entryCountInvalid
  | storageTooSmall | centralDirectoryInvalid | unsupportedVersion | unsupportedFlags
  | unsupportedCompression | extraFieldForbidden | memberCommentForbidden | specialFileForbidden
  | directoryMetadataInvalid | pathInvalid | pathTooLong | pathEncodingInvalid
  | nonAsciiPathUnsupported | duplicatePath | fatCaseCollision | fileUsedAsDirectory
  | memberSizeInvalid | compressionRatioInvalid | offsetInvalid | localHeaderMismatch
  | installedSizeInvalid | expectedInventoryInvalid | inventoryMismatch | entryNotFound
  | hashSinkRequired | hashSinkError | hashMismatch | sinkError | workspaceRequired | crcMismatch
  | uncompressedSizeMismatch | deflateInvalid | cancelled
  deriving DecidableEq

structure ZipLimits where
  maximumArchiveBytes : Nat := 512 * 1024 * 1024
  maximumEntries : Nat := zipMaximumEntries
  maximumPathBytes : Nat := zipMaximumPathBytes
  maximumFileBytes : Nat := 128 * 1024 * 1024
  maximumInstalledBytes : Nat := 512 * 1024 * 1024
  maximumCompressionRatio : Nat := 200

inductive ZipCompression
  | store | deflate
  deriving DecidableEq

def ZipCompression.method : ZipCompression → Nat
  | .store => 0
  | .deflate => 8

/-- A member of the archive; the path of a directory has lost its slash. -/
structure ZipEntry where
  path : Bytes
  isDirectory : Bool
  compression : ZipCompression
  flags : Nat
  crc32 : Nat
  compressedSize : Nat
  size : Nat
  localHeaderOffset : Nat
  dataOffset : Nat
  externalAttributes : Nat
  creatorSystem : Nat
  deriving DecidableEq

structure ZipInventory where
  entries : List ZipEntry
  fileCount : Nat
  directoryCount : Nat
  archiveSize : Nat
  installedSize : Nat
  centralDirectoryOffset : Nat
  centralDirectorySize : Nat

def ZipInventory.empty : ZipInventory := ⟨[], 0, 0, 0, 0, 0, 0⟩

/-- What a manifest expects of a file; `none` skips the digest comparison. -/
structure ZipExpectedFile where
  path : Bytes
  size : Nat
  compression : ZipCompression
  sha256 : Option Digest
  deriving DecidableEq

structure ZipExpectedInventory where
  files : List ZipExpectedFile
  directories : List Bytes

/-! ### Collaborators -/

/-- The bytes of a read that filled the whole requested range. -/
abbrev Filled (count : Nat) := { bytes : Bytes // bytes.length = count }

/-- `tinfl_status`: failures are negative, then done, needs more input, has more output. -/
inductive TinflStatus
  | failed | done | needsMoreInput | hasMoreOutput
  deriving DecidableEq

/-- One `tinfl_decompress` call: how much input it took and what it wrote to the dictionary. -/
structure Inflated (input : Bytes) (capacity : Nat) where
  status : TinflStatus
  consumed : Nat
  output : Bytes
  consumed_le : consumed ≤ input.length
  output_le : output.length ≤ capacity

/-- A call that takes nothing and fails. -/
def Inflated.refused (input : Bytes) (capacity : Nat) : Inflated input capacity :=
  ⟨.failed, 0, [], Nat.zero_le _, Nat.zero_le _⟩

/-- The three progress hooks, of opening, of checking an inventory and of streaming. -/
inductive ProgressHook
  | opening | verify | stream
  deriving DecidableEq

/-- The calls of the reader: its source, the inflater, the hash sink, the extraction sink and the
progress hooks. -/
inductive ZipOp
  | getSize
  | readAt (offset count : Nat)
  | inflateInit
  | inflate (input : Bytes) (capacity : Nat) (hasMoreInput : Bool)
  | hashBegin (path : Bytes) (size : Nat)
  | hashUpdate (bytes : Bytes)
  | hashFinish
  | hashAbort
  | sinkBegin (entry : ZipEntry)
  | sinkWrite (bytes : Bytes)
  | sinkCommit (entry : ZipEntry)
  | sinkAbort (entry : ZipEntry)
  | progress (hook : ProgressHook) (produced total : Nat)
  deriving DecidableEq

@[reducible] def ZipOp.Answer : ZipOp → Type
  | .getSize => Option Nat
  | .readAt _ count => Option (Filled count)
  | .inflateInit => Unit
  | .inflate input capacity _ => Inflated input capacity
  | .hashBegin _ _ | .hashUpdate _ => Bool
  | .hashFinish => Option Digest
  | .hashAbort => Unit
  | .sinkBegin _ | .sinkWrite _ | .sinkCommit _ => Bool
  | .sinkAbort _ => Unit
  | .progress _ _ _ => Bool

@[reducible] def zipSignature : Signature := ⟨ZipOp, ZipOp.Answer⟩

/-! ### Paths -/

/-- `FatPrefixDirectory`: the child lies below the parent, up to case. -/
def fatPrefixDirectory : (parent child : Bytes) → Bool
  | [], [] => false
  | [], value :: _ => value == slash
  | _ :: _, [] => false
  | a :: parent, b :: child => asciiLower a == asciiLower b && fatPrefixDirectory parent child

/-- One code point of UTF-8 after its first byte: the continuation count and the leading bits. -/
def utf8First (first : UInt8) : Option (Nat × Nat) :=
  if 0xc2 ≤ first ∧ first ≤ 0xdf then some (1, (first &&& 0x1f).toNat)
  else if 0xe0 ≤ first ∧ first ≤ 0xef then some (2, (first &&& 0x0f).toNat)
  else if 0xf0 ≤ first ∧ first ≤ 0xf4 then some (3, (first &&& 0x07).toNat)
  else none

def utf8CodePointValid (continuationCount codePoint : Nat) : Bool :=
  !((continuationCount == 1 && codePoint < 0x80) || (continuationCount == 2 && codePoint < 0x800) ||
    (continuationCount == 3 && codePoint < 0x10000) ||
    (0xd800 ≤ codePoint && codePoint ≤ 0xdfff) || codePoint > 0x10ffff)

/-- `IsValidUtf8`, with the continuation bytes still due and the code point so far. -/
def isValidUtf8 : (due continuationCount codePoint : Nat) → Bytes → Bool
  | 0, _, _, [] => true
  | _ + 1, _, _, [] => false
  | 0, _, _, first :: rest =>
    if first < 0x80 then isValidUtf8 0 0 0 rest
    else
      match utf8First first with
      | none => false
      | some (count, bits) => isValidUtf8 count count bits rest
  | due + 1, count, codePoint, next :: rest =>
    if next &&& 0xc0 ≠ 0x80 then false
    else
      let codePoint := codePoint * 64 + (next &&& 0x3f).toNat
      if due = 0 ∧ utf8CodePointValid count codePoint = false then false
      else isValidUtf8 due count codePoint rest

/-- `ValidateAndCopyPath`: the stored path, without a directory's slash. -/
def validateAndCopyPath (raw : Bytes) (flags : Nat) (isDirectory : Bool) (maximumPathBytes : Nat) :
    Except ZipStatus Bytes :=
  if raw.length = 0 ∨ 0 ∈ raw then .error .pathInvalid
  else if raw.any (0x80 ≤ ·) then
    if flags &&& utf8Flag = 0 ∨ isValidUtf8 0 0 0 raw = false then .error .pathEncodingInvalid
    else .error .nonAsciiPathUnsupported
  else
    let trailingSlash := raw.getLast? == some slash
    if trailingSlash ≠ isDirectory then .error .directoryMetadataInvalid
    else
      let normalized := if trailingSlash then raw.dropLast else raw
      match validateFatRelativePathBytes normalized maximumPathBytes with
      | .pathTooLong => .error .pathTooLong
      | .ok => .ok normalized
      | _ => .error .pathInvalid

def isSeparator (value : UInt8) : Bool := value == slash || value == 92

/-- The component loop of `NormalizeLenientPath` for a destination of `capacity` bytes. -/
def normalizeComponents (capacity : Nat) : (fuel : Nat) → (out rest : Bytes) → Option Bytes
  | 0, out, rest => if rest.isEmpty then some out else none
  | fuel + 1, out, rest =>
    if rest.isEmpty then some out
    else
      let component := rest.takeWhile (!isSeparator ·)
      let body := ((component.dropWhile (· == 32)).reverse.dropWhile
        (fun c => c == 32 || c == 46)).reverse
      let joined := if out.isEmpty then out else out ++ [slash]
      if body.isEmpty ∨ (¬ out.isEmpty ∧ out.length + 1 ≥ capacity) ∨
          joined.length + body.length ≥ capacity then none
      else normalizeComponents capacity fuel (joined ++ body)
        ((rest.dropWhile (!isSeparator ·)).dropWhile isSeparator)

/-- `NormalizeLenientPath`: the normalized path and whether the name ended in a separator. -/
def normalizeLenientPath (capacity : Nat) (raw : Bytes) : Option (Bytes × Bool) :=
  if raw.isEmpty then none
  else
    let trailingSlash := (raw.getLast?.map isSeparator).getD false
    match normalizeComponents capacity raw.length [] (raw.dropWhile isSeparator) with
    | none => none
    | some out =>
      if out.isEmpty then none
      else if trailingSlash then
        if out.length + 1 ≥ capacity then none else some (out ++ [slash], true)
      else some (out, false)

/-- `NoteFailurePath`: the offending name with unprintable bytes replaced. -/
def noteFailurePath (raw : Bytes) : Bytes :=
  (raw.take 255).map fun c => if 0x20 ≤ c ∧ c < 0x7f then c else 63

/-! ### Metadata -/

def unixTypeMask : Nat := 0o170000
def unixSymlink : Nat := 0o120000
def unixRegular : Nat := 0o100000
def unixDirectory : Nat := 0o040000

/-- `IsDirectoryMetadata`: the status of the check. -/
def directoryMetadataStatus (creatorSystem externalAttributes : Nat) (nameIsDirectory : Bool) :
    ZipStatus :=
  let unixType := (externalAttributes >>> 16) &&& uint16Max &&& unixTypeMask
  if creatorSystem = 3 ∧ unixType = unixSymlink then .specialFileForbidden
  else if creatorSystem = 3 ∧ unixType ≠ 0 ∧ unixType ≠ unixRegular ∧ unixType ≠ unixDirectory then
    .specialFileForbidden
  else
    let byUnixMode := creatorSystem == 3 && unixType == unixDirectory
    let byDosAttribute := externalAttributes &&& 0x10 != 0
    if (byUnixMode || byDosAttribute) ≠ nameIsDirectory then .directoryMetadataInvalid else .ok

end Bmx.Zip
