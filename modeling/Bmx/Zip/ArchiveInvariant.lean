import Bmx.Zip.OpenSpec
import Bmx.Zip.Stored

/-!
# The archive invariant

Each of the two walks of `Open` carries an invariant of the entries it has passed. The central walk
makes them distinct, portable and counted; the local walk lays their records end to end from the
first byte of the archive to the central directory.
-/

namespace Bmx.Zip

open Interaction Update Fallible ZipEntry List

/-! ### The central walk -/

/-- The central record of an entry, from its first byte to the next record. -/
def CentralRecord (events : List (Event zipSignature)) (entry : ZipEntry) (first next : Nat) : Prop :=
  ∃ bytes name, bytes.length = centralHeaderSize ∧ Answered events first bytes ∧
    Answered events (first + centralHeaderSize) name ∧
    DescribesCentral (.parse bytes) name entry ∧ next = first + (CentralHeader.parse bytes).recordSize

variable {now : List (Event zipSignature)} {entry : ZipEntry} {first next centralOffset : Nat}
  {entries : List ZipEntry} {scan : CentralScan}

theorem CentralRecord.mono {past : List (Event zipSignature)}
    (h : CentralRecord past entry first next) (hnow : past ⊆ now) : CentralRecord now entry first next := by
  obtain ⟨bytes, name, hlength, hbytes, hname, hrest⟩ := h
  exact ⟨bytes, name, hlength, hnow hbytes, hnow hname, hrest⟩

/-- The entries any mode of the reader lets through. -/
structure Portable (limits : ZipLimits) (entries : List ZipEntry) : Prop where
  distinct : entries.Pairwise fun a b => fold a.path ≠ fold b.path
  path : ∀ entry ∈ entries, FatRelativePath entry.path limits.maximumPathBytes
  directory : ∀ entry ∈ entries, entry.isDirectory = true →
    entry.compression = .store ∧ entry.compressedSize = 0 ∧ entry.size = 0 ∧ entry.crc32 = 0
  file : ∀ entry ∈ entries, entry.isDirectory = false → entry.size ≤ limits.maximumFileBytes

theorem Portable.append {limits : ZipLimits}
    (h : Portable limits entries) (hentry : AdmittedEntry limits entries entry) :
    Portable limits (entries ++ [entry]) where
  distinct := by
    rw [pairwise_append]
    refine ⟨h.distinct, pairwise_singleton _ _, fun a ha b hb => ?_⟩
    rw [mem_singleton.1 hb]
    exact hentry.fresh a ha
  path other hother := by
    rcases mem_append.1 hother with hother | hother
    · exact h.path other hother
    · rw [mem_singleton.1 hother]
      exact hentry.path
  directory other hother := by
    rcases mem_append.1 hother with hother | hother
    · exact h.directory other hother
    · rw [mem_singleton.1 hother]
      exact hentry.directory
  file other hother := by
    rcases mem_append.1 hother with hother | hother
    · exact h.file other hother
    · rw [mem_singleton.1 hother]
      exact hentry.file

def fileEntries (entries : List ZipEntry) : List ZipEntry := entries.filter (!·.isDirectory)

def directoryEntries (entries : List ZipEntry) : List ZipEntry := entries.filter (·.isDirectory)

/-- The central walk, having started at `centralOffset`, after some of its records. -/
structure CentralWalk (reader : ZipReader) (limits : ZipLimits) (centralOffset : Nat)
    (events : List (Event zipSignature)) (scan : CentralScan) : Prop where
  portable : Portable limits scan.entries
  files : scan.fileCount = (fileEntries scan.entries).length
  directories : scan.directoryCount = (directoryEntries scan.entries).length
  records : reader.Strict → Laid (CentralRecord events) scan.entries centralOffset scan.cursor

theorem CentralWalk.start (reader : ZipReader) (limits : ZipLimits) (centralOffset : Nat)
    (events : List (Event zipSignature)) :
    CentralWalk reader limits centralOffset events ⟨[], centralOffset, 0, 0⟩ where
  portable := ⟨.nil, fun _ h => absurd h not_mem_nil, fun _ h => absurd h not_mem_nil,
    fun _ h => absurd h not_mem_nil⟩
  files := rfl
  directories := rfl
  records _ := rfl

theorem CentralWalk.add {reader : ZipReader} {limits : ZipLimits} {past : List (Event zipSignature)}
    (h : CentralWalk reader limits centralOffset past scan) (hnow : past ⊆ now)
    (hentry : AdmittedEntry limits scan.entries entry)
    (hrecord : reader.Strict → CentralRecord now entry scan.cursor next) :
    CentralWalk reader limits centralOffset now (scan.add entry next) where
  portable := h.portable.append hentry
  files := by
    change (if entry.isDirectory then _ else _) = _
    rw [h.files]
    cases hdirectory : entry.isDirectory <;> simp [CentralScan.add, fileEntries, hdirectory]
  directories := by
    change (if entry.isDirectory then _ else _) = _
    rw [h.directories]
    cases hdirectory : entry.isDirectory <;> simp [CentralScan.add, directoryEntries, hdirectory]
  records hstrict :=
    ((h.records hstrict).mono fun _ _ _ hrecord => hrecord.mono hnow).append (hrecord hstrict)

variable {reader : ZipReader} {limits : ZipLimits} {past : List (Event zipSignature)}

variable {centralEnd entryCount entryCapacity archiveSize : Nat} {hasProgress : Bool}

theorem opens_readCentralEntry {cursor : Nat} {previous : List ZipEntry} :
    Opens (readCentralEntry reader limits centralEnd cursor previous) past fun result now =>
      AdmittedEntry limits previous result.1 ∧
        (reader.Strict → CentralRecord now result.1 cursor result.2) := by
  unfold readCentralEntry
  refine (opens_require (by decide)).bind fun _ _ _ _ => ?_
  refine opens_readAt.bind fun bytes now _ hbytes => ?_
  obtain ⟨hlength, hbytes⟩ := hbytes
  refine (opens_check checkCentralHeader_honest).bind fun compression _ hnow hheader => ?_
  refine opens_readAt.bind fun rawName later hlater hname => ?_
  obtain ⟨hnameLength, hname⟩ := hname
  refine (opens_checkName checkCentralEntry_honest hname).bind fun entry last hlast hentry => ?_
  obtain ⟨hadmitted, hdescribed, hraw⟩ := checkCentralEntry_ok hentry
  obtain ⟨hsignature, hmethod⟩ := checkCentralHeader_ok hheader
  refine opens_pure ⟨hadmitted, fun hstrict => ?_⟩
  refine ⟨bytes, rawName, hlength, hlast (hlater (hnow hbytes)), hlast hname, ?_, rfl⟩
  rw [hdescribed]
  exact ⟨hsignature, rfl, hmethod, rfl, rfl, rfl, hnameLength.symm, rfl, by
    rw [hraw hstrict.2.1, hdescribed]; rfl⟩

theorem opens_readCentral {remaining : Nat} (hscan : CentralWalk reader limits centralOffset past scan) :
    Opens (readCentral reader limits hasProgress centralEnd entryCount remaining scan) past
      fun scan' now => CentralWalk reader limits centralOffset now scan' ∧
        scan'.entries.length = scan.entries.length + remaining := by
  induction remaining generalizing past scan with
  | zero => exact opens_pure ⟨hscan, rfl⟩
  | succ remaining ih =>
    unfold readCentral
    refine opens_readCentralEntry.bind fun result now hnow hentry => ?_
    refine opens_openProgress.bind fun _ later hlater _ => ?_
    have hadded := hscan.add (Subset.trans hnow hlater) hentry.1 fun hstrict =>
      (hentry.2 hstrict).mono hlater
    refine (ih hadded).mono fun scan' _ _ h => ⟨h.1, ?_⟩
    rw [h.2]
    simp only [CentralScan.add, length_append, length_singleton]
    omega

/-! ### The local walk

It changes nothing of an entry but the offset of its data. -/

def ZipEntry.described (entry : ZipEntry) : ZipEntry := { entry with dataOffset := 0 }

section Described

variable {events : List (Event zipSignature)} {entries central : List ZipEntry}

theorem portable_described : Portable limits (entries.map described) ↔ Portable limits entries := by
  constructor
  · intro h
    have hdistinct := h.distinct
    have hpath := h.path
    have hdirectory := h.directory
    have hfile := h.file
    rw [pairwise_map] at hdistinct
    rw [forall_mem_map] at hpath hdirectory hfile
    exact ⟨hdistinct, hpath, hdirectory, hfile⟩
  · intro h
    exact ⟨pairwise_map.2 h.distinct, forall_mem_map.2 h.path, forall_mem_map.2 h.directory, forall_mem_map.2 h.file⟩

theorem fileEntries_described : fileEntries (entries.map described) = (fileEntries entries).map described :=
  filter_map

theorem directoryEntries_described :
    directoryEntries (entries.map described) =
      (directoryEntries entries).map described := filter_map

theorem fileUsedAsDirectory_described :
    fileUsedAsDirectory (entries.map described) = fileUsedAsDirectory entries := by
  simp only [fileUsedAsDirectory, any_map, Function.comp_def, described]

theorem laid_described {first last : Nat} :
    Laid (CentralRecord events) (entries.map described) first last ↔
      Laid (CentralRecord events) entries first last := by
  have hrecord : ∀ entry first next, CentralRecord events (described entry) first next ↔
      CentralRecord events entry first next := by
    intro entry first next
    have hnames : ∀ header name, DescribesCentral header name (described entry) ↔
        DescribesCentral header name entry := fun header name =>
      ⟨fun h => ⟨h.1, h.2, h.3, h.4, h.5, h.6, h.7, h.8, h.9⟩,
        fun h => ⟨h.1, h.2, h.3, h.4, h.5, h.6, h.7, h.8, h.9⟩⟩
    simp only [CentralRecord, hnames]
  induction entries generalizing first with
  | nil => rfl
  | cons entry rest ih => simp only [map_cons, Laid, hrecord, ih]

end Described

/-- Where the local record of an entry begins and ends. -/
def ZipEntry.record (entry : ZipEntry) : Nat × Nat :=
  (entry.localHeaderOffset, entry.dataOffset + entry.compressedSize)

/-- The local record of an entry: header, name and data, one after the other. -/
structure LocalRecord (events : List (Event zipSignature)) (entry : ZipEntry) (first next : Nat) :
    Prop where
  offset : entry.localHeaderOffset = first
  data : entry.dataOffset = first + localHeaderSize + (storedName entry).length
  last : next = entry.dataOffset + entry.compressedSize
  header : ∃ bytes name, bytes.length = localHeaderSize ∧ Answered events first bytes ∧
    Answered events (first + localHeaderSize) name ∧ DescribesLocal (.parse bytes) name entry

theorem LocalRecord.mono {past : List (Event zipSignature)}
    (h : LocalRecord past entry first next) (hnow : past ⊆ now) : LocalRecord now entry first next := by
  obtain ⟨bytes, name, hlength, hbytes, hname, hdescribes⟩ := h.header
  exact ⟨h.offset, h.data, h.last, bytes, name, hlength, hnow hbytes, hnow hname, hdescribes⟩

/-- The local walk, before the entries `rest` of the central directory. -/
structure LocalWalk (reader : ZipReader) (limits : ZipLimits) (central rest : List ZipEntry)
    (events : List (Event zipSignature)) (scan : LocalScan) : Prop where
  described : scan.done.map described ++ rest.map described =
    central.map described
  installed : scan.installed = ((fileEntries scan.done).map size).sum
  within : scan.installed ≤ limits.maximumInstalledBytes
  records : reader.Strict → Laid (LocalRecord events) scan.done 0 scan.expectedOffset

theorem LocalWalk.start (reader : ZipReader) (limits : ZipLimits) (central : List ZipEntry)
    (events : List (Event zipSignature)) :
    LocalWalk reader limits central central events ⟨[], 0, 0⟩ where
  described := rfl
  installed := rfl
  within := Nat.zero_le _
  records _ := rfl

theorem opens_skipDescriptor {offset : Nat} :
    Opens (skipDescriptor reader entry centralOffset offset) past fun next _ =>
      reader.Strict → next = offset := by
  unfold skipDescriptor
  split
  · rename_i hlenient
    -- outside the strict mode nothing is claimed but that failures are failures
    have hnot : ¬ reader.Strict := fun hstrict => by simp [hstrict.2.1] at hlenient
    refine (opens_require (by decide)).bind fun _ _ _ _ => ?_
    refine opens_readAt.bind fun signature _ _ _ => ?_
    split
    · exact opens_pure fun _ => rfl
    split
    · refine opens_readAt.bind fun descriptor _ _ _ => ?_
      refine (opens_require (by decide)).bind fun _ _ _ _ => ?_
      exact (opens_check (honest_orFail (by decide))).mono fun _ _ _ _ hstrict => absurd hstrict hnot
    · refine (opens_require (by decide)).bind fun _ _ _ _ => ?_
      refine (opens_ask (.readAt _ _) trivial).bind fun answer _ _ _ => ?_
      cases answer with
      | none => exact opens_throw (by decide)
      | some descriptor =>
        refine (opens_require (by decide)).bind fun _ _ _ _ => ?_
        exact (opens_check (honest_orFail (by decide))).mono fun _ _ _ _ hstrict =>
          absurd hstrict hnot
  · exact opens_pure fun _ => rfl

theorem opens_readLocalEntry {expectedOffset : Nat} :
    Opens (readLocalEntry reader centralOffset expectedOffset entry) past fun result now =>
      result.1.described = entry.described ∧
        (reader.Strict → LocalRecord now result.1 expectedOffset result.2) := by
  unfold readLocalEntry
  refine (opens_require (by decide)).bind fun _ _ _ hstart => ?_
  obtain ⟨rfl, -⟩ := hstart
  refine opens_readAt.bind fun bytes now _ hbytes => ?_
  obtain ⟨hlength, hbytes⟩ := hbytes
  refine (opens_check checkLocalHeader_honest).bind fun _ _ hnow hheader => ?_
  refine opens_readAt.bind fun localName later hlater hname => ?_
  obtain ⟨hnameLength, hname⟩ := hname
  refine (opens_check checkLocalName_honest).bind fun dataOffset _ hlast hdata => ?_
  refine (opens_check (honest_orFail (by decide))).bind fun dataEnd _ hend hsum => ?_
  refine opens_skipDescriptor.bind fun next last hskip hnext => ?_
  refine opens_pure ⟨rfl, fun hstrict => ?_⟩
  obtain ⟨hsignature, hflags, hmethod, hcrc, hcompressed, hsize, hextra⟩ :=
    checkLocalHeader_ok hheader hstrict
  obtain ⟨hoffset, -, hstored⟩ := checkLocalName_ok hdata
  have hstored := hstored hstrict.2.1
  have hlengths : (LocalHeader.parse bytes).nameLength = (storedName entry).length := by
    rw [← hnameLength, hstored]
  refine ⟨rfl, ?_, ?_, bytes, localName, hlength, hskip (hend (hlast (hlater (hnow hbytes)))),
    hskip (hend (hlast hname)), hsignature, hflags, hmethod, hcrc, hcompressed, hsize,
    hnameLength.symm, hstored⟩
  · change dataOffset = _
    rw [hoffset, hextra, Nat.add_zero, hlengths]
    rfl
  · rw [hnext hstrict, addWithoutOverflow_eq_some (orFail_eq_ok.1 hsum)]

theorem addInstalled_ok {installed total : Nat} (h : addInstalled limits entry installed = .ok total)
    (hbefore : installed ≤ limits.maximumInstalledBytes) :
    total = installed + ((fileEntries [entry]).map size).sum ∧
      total ≤ limits.maximumInstalledBytes := by
  unfold addInstalled at h
  cases hdirectory : entry.isDirectory with
  | true =>
    rw [hdirectory, if_pos rfl] at h
    cases h
    exact ⟨by simp [fileEntries, hdirectory], hbefore⟩
  | false =>
    rw [hdirectory, if_neg (by decide)] at h
    simp only [bind_eq_ok, orFail_eq_ok, ensure_eq_ok, exists_const] at h
    obtain ⟨sum, hsum, hle, hpure⟩ := h
    cases hpure
    exact ⟨by simp [fileEntries, hdirectory, addWithoutOverflow_eq_some hsum], hle⟩

theorem opens_readLocal {central rest : List ZipEntry} {scan : LocalScan}
    (hscan : LocalWalk reader limits central rest past scan) :
    Opens (readLocal reader limits hasProgress centralOffset entryCount rest scan) past
      fun scan' now => LocalWalk reader limits central [] now scan' := by
  induction rest generalizing past scan with
  | nil => exact opens_pure hscan
  | cons entry rest ih =>
    unfold readLocal
    refine opens_openProgress.bind fun _ now hnow _ => ?_
    refine opens_readLocalEntry.bind fun result later hlater hentry => ?_
    obtain ⟨hdescribed, hrecord⟩ := hentry
    refine (opens_check addInstalled_honest).bind fun installed last hlast hinstalled => ?_
    obtain ⟨htotal, hwithin⟩ := addInstalled_ok hinstalled hscan.within
    refine ih ⟨?_, ?_, hwithin, fun hstrict => ?_⟩
    · rw [← hscan.described]
      simpa using hdescribed
    · rw [htotal, hscan.installed]
      simp only [fileEntries, filter_append, map_append, sum_append]
    · exact ((hscan.records hstrict).mono fun _ _ _ h =>
        (h.mono hnow).mono (Subset.trans hlater hlast)).append ((hrecord hstrict).mono hlast)

/-! ### The whole of `Open` -/

theorem checkEndRecord_ok {endOffset : Nat} {bytes : Bytes} {record : EndRecord}
    (h : checkEndRecord reader limits entryCapacity archiveSize endOffset bytes = .ok record) :
    record.entryCount ≤ limits.maximumEntries ∧ record.entryCount ≤ entryCapacity ∧
      endOffset = record.centralOffset + record.centralSize := by
  simp only [checkEndRecord, bind_eq_ok, ensure_eq_ok, exists_const] at h
  obtain ⟨-, -, -, -, ⟨-, -, hentries⟩, -, hcapacity, hcentral, hpure⟩ := h
  cases hpure
  exact ⟨hentries, hcapacity, addWithoutOverflow_eq_some hcentral⟩

theorem opens_readEndRecord :
    Opens (readEndRecord reader limits entryCapacity archiveSize) past fun result _ =>
      result.1.entryCount ≤ limits.maximumEntries ∧ result.1.entryCount ≤ entryCapacity ∧
        result.2 = result.1.centralOffset + result.1.centralSize ∧ result.2 ≤ archiveSize := by
  unfold readEndRecord
  refine (opens_findLastSignature _ _ _ _).bind fun found _ _ _ => ?_
  refine (opens_check (honest_orFail (by decide))).bind fun endOffset _ _ _ => ?_
  refine (opens_require (by decide)).bind fun _ _ _ hrange => ?_
  refine opens_readAt.bind fun bytes _ _ _ => ?_
  refine (opens_check checkEndRecord_honest).bind fun record _ _ hrecord => ?_
  refine (opens_containsSignature _ _ _).bind fun zip64End _ _ _ => ?_
  refine (opens_require (by decide)).bind fun _ _ _ _ => ?_
  refine (opens_containsSignature _ _ _).bind fun zip64Locator _ _ _ => ?_
  refine (opens_require (by decide)).bind fun _ _ _ _ => ?_
  obtain ⟨hentries, hcapacity, hcentral⟩ := checkEndRecord_ok hrecord
  have hend := (rangeWithin_iff.1 hrange).2
  exact opens_pure ⟨hentries, hcapacity, hcentral, by dsimp only; omega⟩

/-- The archive invariant of an inventory, with the exchanges in which its headers were read. -/
structure ArchiveInvariant (events : List (Event zipSignature)) (limits : ZipLimits)
    (inventory : ZipInventory) : Prop extends Portable limits inventory.entries where
  ancestors : ∀ entry ∈ inventory.entries, entry.isDirectory = false →
    ∀ other ∈ inventory.entries, ¬ IsAncestor entry.path other.path
  tiled : Tiles (inventory.entries.map record) 0 inventory.centralDirectoryOffset
  data : ∀ entry ∈ inventory.entries,
    entry.record.1 + localHeaderSize + (storedName entry).length = entry.dataOffset ∧
      entry.dataOffset + entry.compressedSize = entry.record.2
  localRecords : Laid (LocalRecord events) inventory.entries 0 inventory.centralDirectoryOffset
  centralRecords : Laid (CentralRecord events) inventory.entries inventory.centralDirectoryOffset
    (inventory.centralDirectoryOffset + inventory.centralDirectorySize)
  files : inventory.fileCount = (fileEntries inventory.entries).length
  directories : inventory.directoryCount = (directoryEntries inventory.entries).length
  installed : inventory.installedSize = ((fileEntries inventory.entries).map size).sum
  entryLimit : inventory.entries.length ≤ limits.maximumEntries
  archiveLimit : inventory.archiveSize ≤ limits.maximumArchiveBytes
  installedLimit : inventory.installedSize ≤ limits.maximumInstalledBytes
  archiveEnd : inventory.centralDirectoryOffset + inventory.centralDirectorySize ≤ inventory.archiveSize

theorem fileUsedAsDirectory_eq_false :
    fileUsedAsDirectory entries = false ↔ ∀ entry ∈ entries, entry.isDirectory = false →
      ∀ other ∈ entries, ¬ IsAncestor entry.path other.path := by
  simp only [fileUsedAsDirectory, ← fatPrefixDirectory_iff, any_eq_false, Bool.and_eq_true,
    Bool.not_eq_true', any_eq_true, not_and, not_exists]

structure Counted (inventory : ZipInventory) : Prop where
  files : inventory.fileCount = (fileEntries inventory.entries).length
  directories : inventory.directoryCount = (directoryEntries inventory.entries).length

theorem opens_openInventory :
    Opens (openInventory reader limits hasProgress entryCapacity) past fun inventory now =>
      Portable limits inventory.entries ∧ Counted inventory ∧
        (reader.Strict → ArchiveInvariant now limits inventory) := by
  unfold openInventory
  refine (opens_ask .getSize trivial).bind fun size _ _ _ => ?_
  refine (opens_check (honest_orFail (by decide))).bind fun archiveSize _ _ _ => ?_
  refine (opens_require (by decide)).bind fun _ _ _ hsize => ?_
  refine opens_readEndRecord.bind fun result _ _ hresult => ?_
  obtain ⟨record, centralEnd⟩ := result
  obtain ⟨hentries, -, hend, harchive⟩ := hresult
  dsimp only at hentries hend harchive ⊢
  refine (opens_readCentral (CentralWalk.start reader limits record.centralOffset _)).bind
    fun central walked _ hcentral => ?_
  obtain ⟨hcentral, hcount⟩ := hcentral
  refine (opens_require (by decide)).bind fun _ _ hwalked hcursor => ?_
  refine (opens_require (by decide)).bind fun _ _ hused hancestors => ?_
  refine (opens_readLocal (LocalWalk.start reader limits central.entries _)).bind
    fun scan now hlocal hscan => ?_
  refine (opens_require (by decide)).bind fun _ _ hnow htiled => ?_
  have hentriesEq : scan.done.map described = central.entries.map described := by
    rw [← hscan.described, map_nil, append_nil]
  have hportable : Portable limits scan.done := by
    rw [← portable_described, hentriesEq, portable_described]
    exact hcentral.portable
  have hcounted : Counted ⟨scan.done, central.fileCount, central.directoryCount, archiveSize,
      scan.installed, record.centralOffset, record.centralSize⟩ := by
    constructor
    · have hlengths := congrArg (fun entries => (fileEntries entries).length) hentriesEq
      simp only [fileEntries_described, length_map] at hlengths
      exact hcentral.files.trans hlengths.symm
    · have hlengths := congrArg (fun entries => (directoryEntries entries).length) hentriesEq
      simp only [directoryEntries_described, length_map] at hlengths
      exact hcentral.directories.trans hlengths.symm
  refine opens_pure ⟨hportable, hcounted, fun hstrict => ⟨hportable, ?_, ?_, ?_, ?_, ?_,
    hcounted.files, hcounted.directories, hscan.installed, ?_, hsize.2, hscan.within, ?_⟩⟩
  · rw [← fileUsedAsDirectory_eq_false, ← fileUsedAsDirectory_described, hentriesEq, fileUsedAsDirectory_described]
    exact hancestors
  · refine (htiled ▸ hscan.records hstrict).tiles fun entry first next hrecord => ?_
    have hdata := hrecord.data
    have hnext := hrecord.last
    exact ⟨Prod.ext hrecord.offset hnext.symm, by omega⟩
  · intro entry hmem
    obtain ⟨first, next, hrecord⟩ := (hscan.records hstrict).of_mem hmem
    exact ⟨by rw [hrecord.data, ← hrecord.offset]; rfl, rfl⟩
  · exact htiled ▸ (hscan.records hstrict).mono fun _ _ _ hrecord => hrecord.mono hnow
  · have hrecords := hcentral.records hstrict
    rw [hcursor, hend] at hrecords
    rw [← laid_described, hentriesEq, laid_described]
    exact hrecords.mono fun _ _ _ hrecord =>
      ((hrecord.mono hwalked).mono hused).mono (Subset.trans hlocal hnow)
  · have hlengths := congrArg List.length hentriesEq
    simp only [length_map] at hlengths
    dsimp only [length_nil] at hcount ⊢
    omega
  · change record.centralOffset + record.centralSize ≤ archiveSize
    omega

/-- What `Open` leaves behind, in every mode of the reader and for every source. -/
theorem open_holds (reader : ZipReader) (entryCapacity : Nat) (limits : ZipLimits)
    (hasProgress : Bool) (past : List (Event zipSignature)) :
    (reader.open entryCapacity limits hasProgress).Holds (historyContract zipSignature ReadsArchive)
      (fun result now => (result.1 = .ok → result.2.isOpen = true ∧ result.2.limits = limits ∧
          Portable limits result.2.inventory.entries ∧
          (reader.Strict → ArchiveInvariant now limits result.2.inventory) ∧
          Counted result.2.inventory) ∧
        (result.1 ≠ .ok → result.2.isOpen = false ∧ result.2.inventory = .empty)) past := by
  unfold ZipReader.open
  split
  · exact ⟨(fun h => by cases h), fun _ => ⟨rfl, rfl⟩⟩
  · refine Program.Holds.bind opens_openInventory fun result now hresult => ?_
    cases result with
    | ok inventory =>
      exact ⟨fun _ => ⟨rfl, rfl, hresult.2.1, hresult.2.2.2, hresult.2.2.1⟩, fun h => absurd rfl h⟩
    | error failure => exact ⟨fun h => absurd h hresult.1, fun _ => ⟨rfl, rfl⟩⟩

/-- Strict `Open` establishes the archive invariant, and no failed `Open` leaves anything behind. -/
theorem open_establishes_archiveInvariant {reader : ZipReader} {entryCapacity : Nat}
    {limits : ZipLimits} {hasProgress : Bool} {events : List (Event zipSignature)}
    {result : ZipStatus × ZipReader}
    (hrun : AnyRun (reader.open entryCapacity limits hasProgress) events result) :
    (reader.Strict → result.1 = .ok →
      result.2.isOpen = true ∧ ArchiveInvariant events limits result.2.inventory) ∧
    (result.1 ≠ .ok → result.2.isOpen = false ∧ result.2.inventory = .empty) := by
  have h := hrun.holds (open_holds reader entryCapacity limits hasProgress [])
  exact ⟨fun hstrict hok => ⟨(h.1 hok).1, (h.1 hok).2.2.2.1 hstrict⟩, h.2⟩

/-- A directory and a file in it. -/
def sampleArchive : Bytes :=
  storedArchive [⟨ascii "D", true, []⟩, ⟨ascii "D/A", false, ascii "x"⟩]

def sampleReader : ZipReader := { ZipReader.initial with hasWorkspace := true }

def openedSample : List (Event zipSignature) × (ZipStatus × ZipReader) × Unit :=
  (sampleReader.open 8 {} false).run (served sampleArchive) ()

theorem openedSample_archiveInvariant :
    openedSample.2.1.2.inventory.entries.map (·.path) = [ascii "D", ascii "D/A"] ∧
      ArchiveInvariant openedSample.1 {} openedSample.2.1.2.inventory := by
  have hok : openedSample.2.1.1 = .ok := by decide +kernel
  have hrun : AnyRun (sampleReader.open 8 {} false) openedSample.1 openedSample.2.1 :=
    run_anyRun _ _ _
  exact ⟨by decide +kernel,
    ((open_establishes_archiveInvariant hrun).1 ⟨rfl, rfl, rfl, rfl⟩ hok).2⟩

end Bmx.Zip
