import Bmx.Zip.Open

/-!
# Archives of stored members

The release builder's side of the format, for members that are stored: what it writes, and a source
that serves it. The reader is run on such archives.
-/

namespace Bmx.Zip

open Interaction Update

/-- A number as `count` little-endian bytes. -/
def littleEndianBytes : (count value : Nat) → Bytes
  | 0, _ => []
  | count + 1, value => UInt8.ofNat value :: littleEndianBytes count (value / 256)

/-- A member to be stored; the data of a directory is empty. -/
structure StoredMember where
  path : Bytes
  isDirectory : Bool
  content : Bytes

namespace StoredMember

variable (member : StoredMember)

def name : Bytes := if member.isDirectory then member.path ++ [slash] else member.path

/-- The fields both headers share, from the flags to the name length. -/
def metadata : Bytes :=
  littleEndianBytes 2 0 ++ littleEndianBytes 2 ZipCompression.store.method ++ littleEndianBytes 4 0 ++
    littleEndianBytes 4 (crc32 member.content) ++ littleEndianBytes 4 member.content.length ++
    littleEndianBytes 4 member.content.length ++ littleEndianBytes 2 member.name.length ++
    littleEndianBytes 2 0

def localRecord : Bytes :=
  littleEndianBytes 4 localSignature ++ littleEndianBytes 2 20 ++ member.metadata ++ member.name ++
    member.content

def centralRecord (offset : Nat) : Bytes :=
  littleEndianBytes 4 centralSignature ++ littleEndianBytes 2 20 ++ littleEndianBytes 2 20 ++
    member.metadata ++ littleEndianBytes 6 0 ++
    littleEndianBytes 4 (if member.isDirectory then 0x10 else 0) ++ littleEndianBytes 4 offset ++
    member.name

end StoredMember

/-- The central records of members whose local records start at `offset`. -/
def storedDirectory : (offset : Nat) → List StoredMember → Bytes
  | _, [] => []
  | offset, member :: rest =>
    member.centralRecord offset ++ storedDirectory (offset + member.localRecord.length) rest

def storedArchive (members : List StoredMember) : Bytes :=
  let locals := members.flatMap (·.localRecord)
  let directory := storedDirectory 0 members
  locals ++ directory ++ endSignature ++ littleEndianBytes 4 0 ++
    littleEndianBytes 2 members.length ++ littleEndianBytes 2 members.length ++
    littleEndianBytes 4 directory.length ++ littleEndianBytes 4 locals.length ++ littleEndianBytes 2 0

def readBytes (source : Bytes) (offset count : Nat) : Option (Filled count) :=
  let bytes := (source.drop offset).take count
  if h : bytes.length = count then some ⟨bytes, h⟩ else none

/-- A source that serves an archive, sinks that accept everything and an inflater that fails. -/
def served (archive : Bytes) : Handler zipSignature Unit
  | .getSize, s => (some archive.length, s)
  | .readAt offset count, s => (readBytes archive offset count, s)
  | .inflateInit, s => ((), s)
  | .inflate _ _ _, s => (.refused _ _, s)
  | .hashBegin _ _, s => (true, s)
  | .hashUpdate _, s => (true, s)
  | .hashFinish, s => (none, s)
  | .hashAbort, s => ((), s)
  | .sinkBegin _, s => (true, s)
  | .sinkWrite _, s => (true, s)
  | .sinkCommit _, s => (true, s)
  | .sinkAbort _, s => ((), s)
  | .progress _ _ _, s => (true, s)

end Bmx.Zip
