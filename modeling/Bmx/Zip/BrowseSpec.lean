import Bmx.Zip.Browse
import Bmx.Zip.ExtractSpec
import Mathlib.Data.List.Nodup
import Mathlib.Data.List.TakeDrop

/-!
# Picks from an archive

A row of the archive browser keeps the whole path of its entry, and a pick looks that path up. The output path
is built in a buffer that entry paths do not always fit.
-/

namespace Bmx.Zip

open Interaction Update List

variable {inventory : ZipInventory} {pathPrefix zipAbs : Bytes} {snapshots : SnapshotsDir} {entry : ZipEntry}
  {row : ZipRow}

/-! ### Rows -/

theorem snprintf_eq {size : Nat} {text : Bytes} (h : text.length < size) : snprintf size text = text :=
  take_of_length_le (by omega)

/-- A row of some level of the archive is the row of this entry. -/
structure Lists (inventory : ZipInventory) (entry : ZipEntry) (row : ZipRow) : Prop where
  member : entry ∈ inventory.entries
  file : entry.isDirectory = false
  visited : ∃ pathPrefix filterMatchesFile name, (name, false) ∈ zipbrowseList inventory pathPrefix ∧
    entry.path = pathPrefix ++ name ∧ zipListVisit pathPrefix filterMatchesFile (name, false) = some row

theorem Lists.strValue (h : Lists inventory entry row) (hlength : entry.path.length < maxStrValLen) :
    row.strValue = entry.path := by
  obtain ⟨pathPrefix, filterMatchesFile, name, -, hpath, hrow⟩ := h.visited
  rw [hpath] at hlength
  simp only [zipListVisit, Bool.false_eq_true, if_false] at hrow
  split at hrow
  · rw [Option.some.injEq] at hrow
    rw [← hrow, snprintf_eq hlength, snprintf_eq hlength, hpath]
  · cases hrow

/-! ### The entries of an opened archive -/

variable {opening : List (Event zipSignature)} {opened : ZipStatus × ZipReader} {entries : List ZipEntry}
  {fopen : Bytes → Bool}

theorem portable_of_open (hopened : AnyRun zipbrowseOpen opening opened) (hok : opened.1 = .ok) :
    Portable browseLimits opened.2.inventory.entries :=
  ((hopened.holds (open_holds browseReader zipbrowseMaxEntries browseLimits true [])).1 hok).2.2.1

theorem Portable.length_path (h : Portable browseLimits entries)
    (hentry : entry ∈ entries) : entry.path.length < maxStrValLen :=
  Nat.lt_of_le_of_lt (h.path entry hentry).length_pos.2 (by decide)

theorem Portable.eq_of_path {limits : ZipLimits} (h : Portable limits entries)
    {first second : ZipEntry} (hfirst : first ∈ entries) (hsecond : second ∈ entries)
    (hpath : fold first.path = fold second.path) : first = second := by
  have hnodup : (entries.map fun entry => fold entry.path).Nodup := pairwise_map.2 h.distinct
  exact inj_on_of_nodup_map hnodup hfirst hsecond hpath

/-! ### The run of a pick -/

/-- A file is left behind only for a file of the archive with the path that was looked up, and it is fed from
that one. -/
theorem zipbrowseExtract_holds {reader : ZipReader} {entryPath outAbsPath : Bytes} :
    (zipbrowseExtract reader fopen entryPath outAbsPath).Holds
      (protocolContract (manifest reader.inventory) fun _ _ => True)
      (fun result s => result = none ∨ result = some outAbsPath ∧
        ∃ found, reader.inventory.findFile entryPath = some found ∧ s.log = [.begun found, .committed found])
      .start := by
  unfold zipbrowseExtract
  split
  · exact .inl rfl
  rename_i found hfound
  split
  · refine Program.Holds.bind (extractOneSinglePass_holds ⟨rfl, rfl⟩ fun _ _ => trivial) fun result s hresult => ?_
    obtain ⟨-, -, hcommitted, -⟩ := hresult
    by_cases hok : result.1 = .ok
    · obtain ⟨entry, hentry, hlog⟩ := hcommitted hok
      have hpath := (findFile_eq_some hfound).2.2
      rw [hpath] at hentry
      rw [if_pos hok]
      exact .inr ⟨rfl, entry, hentry, hlog⟩
    · rw [if_neg hok]
      exact .inl rfl
  · exact .inl rfl

/-- A pick from the row of an entry is refused, or leaves in the file at `out` what the archive, which is
opened again, has under the entry's whole path: the entry itself, unless the archive has changed. -/
def PicksEntry (snapshots : SnapshotsDir) (zipAbs : Bytes) (inventory : ZipInventory) (entry : ZipEntry)
    (row : ZipRow) (out : Bytes) : Prop :=
  ∀ fopen reopening reopened events result, AnyRun zipbrowseOpen reopening reopened →
    AnyRun (zipExtractPick snapshots zipAbs fopen reopened row) events result →
    result = none ∨ result = some out ∧ ∃ found, reopened.2.inventory.findFile entry.path = some found ∧
      (events.foldl Protocol.observe .start).log = [.begun found, .committed found] ∧
      (reopened.2.inventory = inventory → found = entry)

theorem zipExtractPick_holds {reopened : ZipStatus × ZipReader} :
    (zipExtractPick snapshots zipAbs fopen reopened row).Holds
      (protocolContract (manifest reopened.2.inventory) fun _ _ => True)
      (fun result s => result = none ∨ result = some (zipCacheOut snapshots zipAbs row.strValue) ∧
        ∃ found, reopened.2.inventory.findFile row.strValue = some found ∧
          s.log = [.begun found, .committed found]) .start := by
  unfold zipExtractPick zipDoExtract
  split
  · refine Program.Holds.bind zipbrowseExtract_holds fun out s hout => ?_
    rcases hout with rfl | ⟨rfl, hfound⟩
    · exact .inl rfl
    · refine .inr ⟨congrArg some (snprintf_eq ?_), hfound⟩
      exact Nat.lt_of_le_of_lt (length_take_le _ _) (by decide)
  · exact .inl rfl

theorem picksEntry_of_lists (hopened : AnyRun zipbrowseOpen opening opened) (hok : opened.1 = .ok)
    (h : Lists opened.2.inventory entry row) :
    PicksEntry snapshots zipAbs opened.2.inventory entry row (zipCacheOut snapshots zipAbs entry.path) := by
  intro fopen reopening reopened events result _ hrun
  have hportable := portable_of_open hopened hok
  have hpick := (hrun.monitored zipExtractPick_holds).2
  rw [h.strValue (hportable.length_path h.member)] at hpick
  obtain hnone | ⟨hsome, found, hfound, hlog⟩ := hpick
  · exact .inl hnone
  refine .inr ⟨hsome, found, hfound, hlog, fun hsame => ?_⟩
  rw [hsame] at hfound
  obtain ⟨hmember, -, hpath⟩ := findFile_eq_some hfound
  exact hportable.eq_of_path hmember h.member (congrArg fold hpath)

/-! ### Cache paths -/

def CachePathFits (snapshots : SnapshotsDir) (zipAbs : Bytes) (entry : ZipEntry) : Prop :=
  (cacheDirectory snapshots zipAbs).length + entry.path.length < cachePathLen

theorem zipCacheOut_complete_iff :
    zipCacheOut snapshots zipAbs entry.path = cacheDirectory snapshots zipAbs ++ entry.path ↔
      CachePathFits snapshots zipAbs entry := by
  unfold zipCacheOut CachePathFits snprintf
  rw [take_eq_self_iff, length_append]
  have hlen : 0 < cachePathLen := by decide
  omega

/-- Two picks each get the whole of their own entry, under a cache path that is complete, and FAT does not take
one path for the other. -/
structure PicksOwn (snapshots : SnapshotsDir) (zipAbs : Bytes) (inventory : ZipInventory)
    (first : ZipEntry) (firstRow : ZipRow) (second : ZipEntry) (secondRow : ZipRow) : Prop where
  firstPick : PicksEntry snapshots zipAbs inventory first firstRow (cacheDirectory snapshots zipAbs ++ first.path)
  secondPick : PicksEntry snapshots zipAbs inventory second secondRow
    (cacheDirectory snapshots zipAbs ++ second.path)
  firstComplete : zipCacheOut snapshots zipAbs firstRow.strValue =
    cacheDirectory snapshots zipAbs ++ first.path
  secondComplete : zipCacheOut snapshots zipAbs secondRow.strValue =
    cacheDirectory snapshots zipAbs ++ second.path
  apart : fold (zipCacheOut snapshots zipAbs firstRow.strValue) ≠
    fold (zipCacheOut snapshots zipAbs secondRow.strValue)

/-- Different entries of an archive that the browser lists are picked to paths of their own exactly if both
cache paths fit the buffer they are built in. -/
theorem picks_own_iff_fit {opening : List (Event zipSignature)} {opened : ZipStatus × ZipReader}
    {first second : ZipEntry} {firstRow secondRow : ZipRow}
    (hopened : AnyRun zipbrowseOpen opening opened) (hok : opened.1 = .ok)
    (hfirst : Lists opened.2.inventory first firstRow) (hsecond : Lists opened.2.inventory second secondRow)
    (hne : first ≠ second) :
    PicksOwn snapshots zipAbs opened.2.inventory first firstRow second secondRow ↔
      CachePathFits snapshots zipAbs first ∧ CachePathFits snapshots zipAbs second := by
  have hportable := portable_of_open hopened hok
  have hfirstValue := hfirst.strValue (hportable.length_path hfirst.member)
  have hsecondValue := hsecond.strValue (hportable.length_path hsecond.member)
  constructor
  · intro h
    have hfirstComplete := h.firstComplete
    have hsecondComplete := h.secondComplete
    rw [hfirstValue] at hfirstComplete
    rw [hsecondValue] at hsecondComplete
    exact ⟨zipCacheOut_complete_iff.1 hfirstComplete, zipCacheOut_complete_iff.1 hsecondComplete⟩
  · rintro ⟨hfirstFits, hsecondFits⟩
    have hfirstComplete := zipCacheOut_complete_iff.2 hfirstFits
    have hsecondComplete := zipCacheOut_complete_iff.2 hsecondFits
    exact
      { firstPick := hfirstComplete ▸ picksEntry_of_lists hopened hok hfirst
        secondPick := hsecondComplete ▸ picksEntry_of_lists hopened hok hsecond
        firstComplete := hfirstValue.symm ▸ hfirstComplete
        secondComplete := hsecondValue.symm ▸ hsecondComplete
        apart := by
          rw [hfirstValue, hsecondValue, hfirstComplete, hsecondComplete, fold_append, fold_append]
          intro hsame
          have hpaths := append_cancel_left hsame
          exact hne (hportable.eq_of_path hfirst.member hsecond.member hpaths) }

/-! ### Two disks in an archive -/

section Disks

/-- The two sides of a game, in a directory of an archive. -/
def diskArchive (directory : Bytes) : Bytes :=
  storedArchive [⟨directory ++ ascii "Long-name-1.d64", false, ascii "1"⟩,
    ⟨directory ++ ascii "Long-name-2.d64", false, ascii "2"⟩]

def openedDisks (directory : Bytes) : List (Event zipSignature) × (ZipStatus × ZipReader) × Unit :=
  zipbrowseOpen.run (served (diskArchive directory)) ()

def diskEntry (directory name content : Bytes) (offset : Nat) : ZipEntry :=
  ⟨directory ++ name, false, .store, 0, crc32 content, 1, 1, offset,
    offset + localHeaderSize + (directory ++ name).length, 0, 0⟩

def firstDisk (directory : Bytes) : ZipEntry :=
  diskEntry directory (ascii "Long-name-1.d64") (ascii "1") 0

def secondDisk (directory : Bytes) : ZipEntry :=
  diskEntry directory (ascii "Long-name-2.d64") (ascii "2") (localHeaderSize + directory.length + 16)

def diskRow (directory name : Bytes) : ZipRow := ⟨.pickZipfile, name, directory ++ name⟩

def sdSnapshots : SnapshotsDir := ⟨ascii "SD:", ascii "/snapshots", ascii "/C64"⟩

def gamesZip : Bytes := ascii "SD:/disks/C64/games.zip"

/-- The archive itself. -/
def topDirectory : Bytes := []

/-- A directory four levels down. -/
def deepDirectory : Bytes := (List.replicate 4 (List.replicate 50 97 ++ [slash])).flatten

theorem openedDisks_run (directory : Bytes) :
    AnyRun zipbrowseOpen (openedDisks directory).1 (openedDisks directory).2.1 :=
  run_anyRun (served (diskArchive directory)) zipbrowseOpen ()

theorem openedDisks_lists (directory : Bytes)
    (hentries : (openedDisks directory).2.1.2.inventory.entries = [firstDisk directory, secondDisk directory])
    (hlist : zipbrowseList (openedDisks directory).2.1.2.inventory directory =
      [(ascii "Long-name-1.d64", false), (ascii "Long-name-2.d64", false)])
    (hvisit : ∀ name ∈ [ascii "Long-name-1.d64", ascii "Long-name-2.d64"],
      zipListVisit directory (fun _ => true) (name, false) = some (diskRow directory name)) :
    Lists (openedDisks directory).2.1.2.inventory (firstDisk directory)
        (diskRow directory (ascii "Long-name-1.d64")) ∧
      Lists (openedDisks directory).2.1.2.inventory (secondDisk directory)
        (diskRow directory (ascii "Long-name-2.d64")) := by
  constructor
  · refine ⟨by simp [hentries], rfl, directory, fun _ => true, ascii "Long-name-1.d64", by simp [hlist], rfl, ?_⟩
    exact hvisit _ mem_cons_self
  · refine ⟨by simp [hentries], rfl, directory, fun _ => true, ascii "Long-name-2.d64", by simp [hlist], rfl, ?_⟩
    exact hvisit _ (mem_cons_of_mem _ mem_cons_self)

theorem picks_own_shallow :
    PicksOwn sdSnapshots gamesZip (openedDisks topDirectory).2.1.2.inventory
      (firstDisk topDirectory) (diskRow topDirectory (ascii "Long-name-1.d64"))
      (secondDisk topDirectory) (diskRow topDirectory (ascii "Long-name-2.d64")) := by
  have hlists := openedDisks_lists topDirectory (by decide +kernel) (by decide +kernel) (by decide +kernel)
  have hok : (openedDisks topDirectory).2.1.1 = .ok := by decide +kernel
  have hne : firstDisk topDirectory ≠ secondDisk topDirectory := by decide +kernel
  exact (picks_own_iff_fit (openedDisks_run topDirectory) hok hlists.1 hlists.2 hne).2
    ⟨by unfold CachePathFits; decide, by unfold CachePathFits; decide⟩

/-- Two sides of a game deep in an archive are picked to one file, and its name has lost the extension. -/
theorem deep_disks_share_path : ∃ first second firstRow secondRow,
    AnyRun zipbrowseOpen (openedDisks deepDirectory).1 (openedDisks deepDirectory).2.1 ∧
      (openedDisks deepDirectory).2.1.1 = .ok ∧
      Lists (openedDisks deepDirectory).2.1.2.inventory first firstRow ∧
      Lists (openedDisks deepDirectory).2.1.2.inventory second secondRow ∧ first ≠ second ∧
      zipCacheOut sdSnapshots gamesZip firstRow.strValue =
        cacheDirectory sdSnapshots gamesZip ++ deepDirectory ++ ascii "Long-n" ∧
      zipCacheOut sdSnapshots gamesZip firstRow.strValue = zipCacheOut sdSnapshots gamesZip secondRow.strValue ∧
      ¬ PicksOwn sdSnapshots gamesZip (openedDisks deepDirectory).2.1.2.inventory
        first firstRow second secondRow := by
  have hlists := openedDisks_lists deepDirectory (by decide +kernel) (by decide +kernel)
    (by decide +kernel)
  refine ⟨_, _, _, _, openedDisks_run deepDirectory, by decide +kernel, hlists.1, hlists.2, by decide +kernel,
    by decide +kernel, by decide +kernel, fun h => h.apart ?_⟩
  exact congrArg fold (by decide +kernel)

end Disks

end Bmx.Zip
