import Bmx.Remote.DeveloperFileTransaction
import Bmx.Zip.Extract

/-!
# Archives as folders

The file browser shows an archive like a folder. Every level of it is listed anew from the inventory of the
opened archive, and a picked file is extracted to a cache of its own next to the snapshots, from where the
usual attach flow takes it.
-/

namespace Bmx.Zip

open Interaction Update

def zipbrowseMaxEntries : Nat := 32768
def zipbrowseMaxDirs : Nat := 2048
def zipbrowseDirLen : Nat := 64
def maxStrValLen : Nat := 256
def maxMenuStr : Nat := 36
def cachePathLen : Nat := 256
def cacheVolumeLen : Nat := 8
def zipBaseLen : Nat := 64

/-- `snprintf` into a buffer: what does not fit is cut off. -/
def snprintf (size : Nat) (text : Bytes) : Bytes := text.take (size - 1)

/-! ### The open archive -/

/-- The reader of the browser: archives of all tools are welcome. -/
def browseReader : ZipReader :=
  { ZipReader.initial with
    hasWorkspace := true, lenientExtraFields := true, lenientPaths := true, lenientArchive := true,
    lenientRatio := true }

def browseLimits : ZipLimits := { maximumEntries := zipbrowseMaxEntries }

/-- `zipbrowse_open`: the archive that is picked from is opened for every level and for every pick. -/
def zipbrowseOpen : Program zipSignature (ZipStatus × ZipReader) :=
  browseReader.open zipbrowseMaxEntries browseLimits true

/-- The loop of `zipbrowse_list`, with the directories and the number of names it has passed on. -/
def listFrom (pathPrefix : Bytes) : List ZipEntry → (dirs : List Bytes) → (count : Nat) → List (Bytes × Bool)
  | [], _, _ => []
  | entry :: rest, dirs, count =>
    let name := entry.path.drop pathPrefix.length
    let component := name.takeWhile (· ≠ slash)
    if pathPrefix.isPrefixOf entry.path = false ∨ name = [] then listFrom pathPrefix rest dirs count
    else if slash ∈ name then
      if component = [] ∨ component.length ≥ zipbrowseDirLen ∨ component ∈ dirs ∨
          dirs.length ≥ zipbrowseMaxDirs then
        listFrom pathPrefix rest dirs count
      else (component, true) :: listFrom pathPrefix rest (dirs ++ [component]) (count + 1)
    else if entry.isDirectory then listFrom pathPrefix rest dirs count
    else if count + 1 ≥ zipbrowseMaxEntries then [(name, false)]
    else (name, false) :: listFrom pathPrefix rest dirs (count + 1)

/-- `zipbrowse_list`: the names that are passed on, and which of them are directories. -/
def zipbrowseList (inventory : ZipInventory) (pathPrefix : Bytes) : List (Bytes × Bool) :=
  listFrom pathPrefix inventory.entries [] 0

/-- What `zipbrowse_extract` expects of the archive: all that is in it. -/
def manifest (inventory : ZipInventory) : ZipExpectedInventory where
  files := (inventory.entries.filter (!·.isDirectory)).map fun entry =>
    ⟨entry.path, entry.size, entry.compression, none⟩
  directories := (inventory.entries.filter (·.isDirectory)).map (·.path)

/-- `zipbrowse_extract` into a file that `fopen` opens or not: the file, if it is left behind. The sink is the
file, and it has accepted the commit of every extraction that succeeds. -/
def zipbrowseExtract (reader : ZipReader) (fopen : Bytes → Bool) (entryPath outAbsPath : Bytes) :
    Program zipSignature (Option Bytes) :=
  match reader.inventory.findFile entryPath with
  | none => pure none
  | some found =>
    if fopen outAbsPath then
      reader.extractOneSinglePass found.path (manifest reader.inventory) true true true >>= fun result =>
        pure (if result.1 = .ok then some outAbsPath else none)
    else pure none

/-! ### The menu -/

inductive ZipSubId
  | enterZipdir | pickZipfile
  deriving DecidableEq

/-- A row of the archive browser. -/
structure ZipRow where
  subId : ZipSubId
  name : Bytes
  strValue : Bytes
  deriving DecidableEq

def zipEntryBasename (path : Bytes) : Bytes := (path.reverse.takeWhile (· ≠ slash)).reverse

/-- `zip_list_visit` under a prefix, with the filter of the browser. -/
def zipListVisit (pathPrefix : Bytes) (filterMatchesFile : Bytes → Bool) (visited : Bytes × Bool) :
    Option ZipRow :=
  let full := snprintf maxStrValLen (pathPrefix ++ visited.1)
  if visited.2 then
    some ⟨.enterZipdir, snprintf maxMenuStr visited.1, snprintf maxStrValLen full⟩
  else if filterMatchesFile visited.1 then
    some ⟨.pickZipfile, snprintf maxMenuStr (zipEntryBasename full), snprintf maxStrValLen full⟩
  else none

/-! ### The cache -/

/-- Where the cache is kept: the volume and the directory of the snapshots, and the machine's own directory. -/
structure SnapshotsDir where
  volume : Bytes
  directory : Bytes
  machineSubDir : Bytes

def zipFnv1a (text : Bytes) : UInt32 :=
  text.foldl (fun hash c => (hash ^^^ c.toUInt32) * 16777619) 2166136261

/-- The sanitiser of `zip_cache_out`, with what it has kept. -/
def sanitizeBase : (kept rest : Bytes) → Bytes
  | kept, [] => kept
  | kept, c :: rest =>
    if kept.length ≥ zipBaseLen - 12 then kept
    else if (97 ≤ c ∧ c ≤ 122) ∨ (65 ≤ c ∧ c ≤ 90) ∨ (48 ≤ c ∧ c ≤ 57) then
      sanitizeBase (kept ++ [c]) rest
    else if kept ≠ [] ∧ kept.getLast? ≠ some 95 then sanitizeBase (kept ++ [95]) rest
    else sanitizeBase kept rest

/-- The directory of the cache that `zip_cache_out` names after an archive, with a slash at its end. -/
def cacheDirectory (snapshots : SnapshotsDir) (zipAbs : Bytes) : Bytes :=
  let cacheRoot := snprintf cachePathLen (snprintf cacheVolumeLen snapshots.volume ++ snapshots.directory ++
    snapshots.machineSubDir ++ ascii "/.zcache")
  let zbase := sanitizeBase [] (snprintf zipBaseLen (zipEntryBasename zipAbs))
  cacheRoot ++ slash :: zbase ++ 95 :: Remote.hex8 (zipFnv1a zipAbs) ++ [slash]

def zipCacheOut (snapshots : SnapshotsDir) (zipAbs entry : Bytes) : Bytes :=
  snprintf cachePathLen (cacheDirectory snapshots zipAbs ++ entry)

/-- `zip_do_extract`, once the archive has been opened again: the file with the entry, unless it is refused. -/
def zipDoExtract (snapshots : SnapshotsDir) (zipAbs : Bytes) (fopen : Bytes → Bool)
    (reopened : ZipStatus × ZipReader) (entry : Bytes) : Program zipSignature (Option Bytes) :=
  if reopened.1 = .ok then
    zipbrowseExtract reopened.2 fopen entry (zipCacheOut snapshots zipAbs entry)
  else pure none

/-- `zip_extract_pick`: the path that the attach flow is given. -/
def zipExtractPick (snapshots : SnapshotsDir) (zipAbs : Bytes) (fopen : Bytes → Bool)
    (reopened : ZipStatus × ZipReader) (item : ZipRow) : Program zipSignature (Option Bytes) :=
  zipDoExtract snapshots zipAbs fopen reopened item.strValue >>= fun out =>
    pure (out.map (snprintf cachePathLen))

end Bmx.Zip
