import Bmx.Zip.ExtractSpec
import Mathlib.Data.List.Nodup
import Mathlib.Data.List.Perm.Subperm

/-!
# The check of an expected inventory

The reader accepts an expected inventory when it names, without repeating a path, just the files and
directories of the archive, the files with their sizes and compressions. The binding it remembers is
the digest of a message that fixes the digests the files are expected to have.
-/

namespace Bmx.Zip

open Interaction Update Fallible List Option

/-! ### Equal inventories -/

/-- The files that an archive has, as far as its headers tell of them. -/
def ZipInventory.HasFile (inventory : ZipInventory) (path : Bytes) (size : Nat)
    (compression : ZipCompression) : Prop :=
  ∃ entry ∈ inventory.entries, entry.isDirectory = false ∧ entry.path = path ∧ entry.size = size ∧
    entry.compression = compression

def ZipInventory.HasDirectory (inventory : ZipInventory) (path : Bytes) : Prop :=
  ∃ entry ∈ inventory.entries, entry.isDirectory = true ∧ entry.path = path

/-- What `VerifyExpectedInventory` is to find out. -/
structure ZipReader.Accepts (reader : ZipReader) (expected : ZipExpectedInventory) : Prop where
  isOpen : reader.isOpen = true
  filesDistinct : expected.files.Pairwise fun a b => a.path ≠ b.path
  files : ∀ path size compression, (∃ file ∈ expected.files, file.path = path ∧ file.size = size ∧
    file.compression = compression) ↔ reader.inventory.HasFile path size compression
  directoriesDistinct : expected.directories.Nodup
  directories : ∀ path, path ∈ expected.directories ↔ reader.inventory.HasDirectory path

/-- What opening an archive leaves, in every mode of the reader. -/
structure ZipReader.Regular (reader : ZipReader) : Prop where
  portable : reader.isOpen = true → Portable reader.limits reader.inventory.entries
  counted : reader.isOpen = true → Counted reader.inventory

section Counting

variable {reader : ZipReader} {expected : ZipExpectedInventory}

def filePaths (inventory : ZipInventory) : List Bytes := (fileEntries inventory.entries).map (·.path)

def directoryPaths (inventory : ZipInventory) : List Bytes :=
  (directoryEntries inventory.entries).map (·.path)

variable {entries : List ZipEntry} {entry : ZipEntry} {inventory : ZipInventory} {path : Bytes} {limits : ZipLimits}
  {file : ZipExpectedFile}

theorem mem_fileEntries : entry ∈ fileEntries entries ↔ entry ∈ entries ∧ entry.isDirectory = false := by
  unfold fileEntries
  rw [mem_filter, Bool.not_eq_true']

theorem mem_directoryEntries :
    entry ∈ directoryEntries entries ↔ entry ∈ entries ∧ entry.isDirectory = true := mem_filter

theorem mem_directoryPaths : path ∈ directoryPaths inventory ↔ inventory.HasDirectory path := by
  unfold directoryPaths ZipInventory.HasDirectory
  simp only [List.mem_map, mem_directoryEntries, and_assoc]

theorem mem_filePaths :
    path ∈ filePaths inventory ↔ ∃ size compression, inventory.HasFile path size compression := by
  unfold filePaths
  constructor
  · intro h
    obtain ⟨entry, hentry, rfl⟩ := mem_map.1 h
    obtain ⟨hmem, hfile⟩ := mem_fileEntries.1 hentry
    exact ⟨_, _, entry, hmem, hfile, rfl, rfl, rfl⟩
  · rintro ⟨size, compression, entry, hmem, hfile, rfl, -⟩
    exact mem_map.2 ⟨entry, mem_fileEntries.2 ⟨hmem, hfile⟩, rfl⟩

theorem Portable.distinctPaths (h : Portable limits entries) : entries.Pairwise fun a b => a.path ≠ b.path :=
  h.distinct.imp fun hne heq => hne (by rw [heq])

theorem nodup_paths (h : Portable limits entries)
    {part : List ZipEntry} (hpart : part.Sublist entries) : (part.map (·.path)).Nodup := by
  rw [List.Nodup, pairwise_map]
  exact h.distinctPaths.sublist hpart

theorem Portable.entry_eq (h : Portable limits entries)
    {other : ZipEntry} (hentry : entry ∈ entries) (hother : other ∈ entries)
    (hpath : entry.path = other.path) : entry = other := by
  exact inj_on_of_nodup_map (nodup_paths h (Sublist.refl _)) hentry hother hpath

theorem Present.hasFile (h : Present inventory file) : inventory.HasFile file.path file.size file.compression := by
  obtain ⟨entry, hfind, hsize, hcompression⟩ := h
  obtain ⟨hmem, hfile, hpath⟩ := findFile_eq_some hfind
  exact ⟨entry, hmem, hfile, hpath, hsize, hcompression⟩

theorem present_of_hasFile (hportable : Portable limits inventory.entries)
    (h : inventory.HasFile file.path file.size file.compression) : Present inventory file := by
  obtain ⟨entry, hmem, hfile, hpath, hsize, hcompression⟩ := h
  cases hfind : inventory.findFile file.path with
  | none =>
    refine absurd (find?_eq_none.1 hfind entry hmem) ?_
    simp [hfile, hpath]
  | some found =>
    obtain ⟨hfound, -, hfoundPath⟩ := findFile_eq_some hfind
    obtain rfl := hportable.entry_eq hfound hmem (hfoundPath.trans hpath.symm)
    exact ⟨found, hfind, hsize, hcompression⟩

/-- A list without repetitions that is as long as one that contains it has all of it. -/
theorem mem_iff_of_length {α : Type} {part whole : List α} (hpart : part.Nodup) (hsub : part ⊆ whole)
    (hlength : part.length = whole.length) (a : α) : a ∈ part ↔ a ∈ whole :=
  ((subperm_of_subset hpart hsub).perm_of_length_le (Nat.le_of_eq hlength.symm)).mem_iff

theorem nodup_expectedPaths (h : expected.files.Pairwise fun a b => a.path ≠ b.path) :
    (expected.files.map (·.path)).Nodup := by
  rw [List.Nodup, pairwise_map]
  exact h

/-- What the check finds is that the two inventories are equal: it counts, and looks up. -/
theorem accepts_of_matches (hreader : reader.Regular) (hopen : reader.isOpen = true)
    (hmatches : Matches reader.inventory expected) (hdirectories : expected.directories.Nodup) :
    reader.Accepts expected := by
  have hportable := hreader.portable hopen
  have hcounted := hreader.counted hopen
  have hpaths : ∀ path, path ∈ expected.files.map (·.path) ↔ path ∈ filePaths reader.inventory := by
    refine mem_iff_of_length (nodup_expectedPaths hmatches.distinct) (fun path hpath => ?_) ?_
    · obtain ⟨file, hfile, rfl⟩ := mem_map.1 hpath
      exact mem_filePaths.2 ⟨_, _, (hmatches.files file hfile).hasFile⟩
    · unfold filePaths
      rw [length_map, length_map, hmatches.fileCount, hcounted.files]
  have hnames : ∀ path, path ∈ expected.directories ↔ path ∈ directoryPaths reader.inventory := by
    refine mem_iff_of_length hdirectories (fun path hpath => ?_) ?_
    · exact mem_directoryPaths.2 (hmatches.directories path hpath)
    · unfold directoryPaths
      rw [length_map, hmatches.directoryCount, hcounted.directories]
  refine ⟨hopen, hmatches.distinct, fun path size compression => ⟨?_, fun hhas => ?_⟩, hdirectories,
    fun path => (hnames path).trans mem_directoryPaths⟩
  · rintro ⟨file, hfile, rfl, rfl, rfl⟩
    exact (hmatches.files file hfile).hasFile
  · obtain ⟨file, hfile, rfl⟩ := mem_map.1 ((hpaths path).2 (mem_filePaths.2 ⟨_, _, hhas⟩))
    obtain ⟨entry, hmem, -, hpath, hsize, hcompression⟩ := hhas
    obtain ⟨entry', hmem', -, hpath', hsize', hcompression'⟩ := (hmatches.files file hfile).hasFile
    obtain rfl := hportable.entry_eq hmem hmem' (hpath.trans hpath'.symm)
    exact ⟨file, hfile, rfl, hsize'.symm.trans hsize, hcompression'.symm.trans hcompression⟩

theorem ZipReader.Accepts.matches (hreader : reader.Regular) (h : reader.Accepts expected) :
    Matches reader.inventory expected := by
  have hportable := hreader.portable h.isOpen
  have hcounted := hreader.counted h.isOpen
  have hfile : ∀ file ∈ expected.files,
      reader.inventory.HasFile file.path file.size file.compression :=
    fun file hfile => (h.files _ _ _).1 ⟨file, hfile, rfl, rfl, rfl⟩
  have hpaths : (expected.files.map (·.path)).Perm (filePaths reader.inventory) := by
    refine (perm_ext_iff_of_nodup (nodup_expectedPaths h.filesDistinct)
      (nodup_paths hportable filter_sublist)).2 fun path => ⟨fun hpath => ?_, fun hpath => ?_⟩
    · obtain ⟨file, hmem, rfl⟩ := mem_map.1 hpath
      exact mem_filePaths.2 ⟨_, _, hfile file hmem⟩
    · obtain ⟨size, compression, hhas⟩ := mem_filePaths.1 hpath
      obtain ⟨file, hmem, rfl, -⟩ := (h.files _ _ _).2 hhas
      exact mem_map.2 ⟨file, hmem, rfl⟩
  have hnames : expected.directories.Perm (directoryPaths reader.inventory) :=
    (perm_ext_iff_of_nodup h.directoriesDistinct (nodup_paths hportable filter_sublist)).2
      fun path => (h.directories path).trans mem_directoryPaths.symm
  refine ⟨?_, ?_, h.filesDistinct, fun file hmem => present_of_hasFile hportable (hfile file hmem),
    fun path hpath => (h.directories path).1 hpath⟩
  · have hlength := hpaths.length_eq
    unfold filePaths at hlength
    rw [length_map, length_map] at hlength
    rw [hlength, hcounted.files]
  · have hlength := hnames.length_eq
    unfold directoryPaths at hlength
    rw [length_map] at hlength
    rw [hlength, hcounted.directories]

end Counting

/-! ### Verification -/

section Verification

variable {reader : ZipReader} {expected : ZipExpectedInventory}

/-- A stage that does not fail when `P` holds, unless a progress hook declines. -/
def Judges {α : Type} (hasProgress : Bool) (P : Prop) (p : ZipM α) : Prop :=
  Upholds (anyContract zipSignature) (fun _ _ => True)
    (fun status _ => P → hasProgress = true ∧ status = .cancelled) p ()

variable {P : Prop} {hasProgress : Bool}

theorem Judges.bind {α β : Type} {p : ZipM α} {f : α → ZipM β} (hp : Judges hasProgress P p)
    (hf : ∀ a, Judges hasProgress P (f a)) : Judges hasProgress P (p >>= f) :=
  Upholds.bind hp fun a _ _ => hf a

theorem judges_require {condition : Prop} [Decidable condition] {status : ZipStatus}
    (h : P → condition) : Judges hasProgress P (Fallible.require condition status) :=
  upholds_require.2 ⟨fun _ => trivial, fun hfails hP => absurd (h hP) hfails⟩

variable {total : Nat}

theorem judges_reportProgress {hook : ProgressHook} {produced : Nat} :
    Judges hasProgress P (reportProgress hasProgress hook produced total) := by
  unfold reportProgress
  split
  · rename_i hpresent
    refine upholds_ask_bind.2 ⟨trivial, fun answer _ _ => ?_⟩
    exact upholds_require.2 ⟨fun _ => trivial, fun _ _ => ⟨hpresent, rfl⟩⟩
  · exact trivial

theorem judges_verifyFiles (hreader : reader.Regular) {requiresHash : Bool}
    (previous rest : List ZipExpectedFile) (hfiles : expected.files = previous ++ rest) :
    Judges hasProgress (reader.Accepts expected)
      (verifyFiles reader.inventory hasProgress total previous rest requiresHash) := by
  induction rest generalizing previous requiresHash with
  | nil => exact trivial
  | cons wanted rest ih =>
    have hmem : wanted ∈ expected.files := by
      rw [hfiles]
      exact mem_append_right _ mem_cons_self
    unfold verifyFiles checkExpectedFile
    refine Judges.bind (Judges.bind (judges_require fun h => ?_) fun _ =>
      Judges.bind (judges_require fun h => ?_) fun _ => judges_require fun h => ?_) fun _ =>
        Judges.bind judges_reportProgress fun _ => ih _ (by rw [hfiles, append_assoc]; rfl)
    · obtain ⟨entry, hentry, -, hpath, -⟩ := (h.files _ _ _).1 ⟨wanted, hmem, rfl, rfl, rfl⟩
      have hlength := ((hreader.portable h.isOpen).path entry hentry).length_pos.1
      rw [hpath] at hlength
      exact ne_nil_of_length_pos hlength
    · have hdistinct := h.filesDistinct
      rw [hfiles, pairwise_append] at hdistinct
      exact fun other hother => (hdistinct.2.2 other hother wanted mem_cons_self).symm
    · obtain ⟨entry, hfind, hsize, hcompression⟩ := (h.matches hreader).files wanted hmem
      rw [hfind, any_some, hsize, hcompression, beq_self_eq_true, beq_self_eq_true]
      rfl

theorem judges_verifyDirectories (hreader : reader.Regular) (previous rest : List Bytes)
    (hdirectories : expected.directories = previous ++ rest) :
    Judges hasProgress (reader.Accepts expected)
      (verifyDirectories reader.inventory previous rest) := by
  induction rest generalizing previous with
  | nil => exact trivial
  | cons wanted rest ih =>
    have hmem : wanted ∈ expected.directories := by
      rw [hdirectories]
      exact mem_append_right _ mem_cons_self
    unfold verifyDirectories
    refine Judges.bind (judges_require fun h => ?_) fun _ => Judges.bind (judges_require fun h => ?_)
      fun _ => Judges.bind (judges_require fun h => ?_) fun _ =>
        ih _ (by rw [hdirectories, append_assoc]; rfl)
    · obtain ⟨entry, hentry, -, hpath⟩ := (h.directories _).1 hmem
      have hlength := ((hreader.portable h.isOpen).path entry hentry).length_pos.1
      rw [hpath] at hlength
      exact ne_nil_of_length_pos hlength
    · have hdistinct := h.directoriesDistinct
      rw [hdirectories, List.Nodup, pairwise_append] at hdistinct
      exact fun hold => hdistinct.2.2 wanted hold wanted mem_cons_self rfl
    · obtain ⟨entry, hentry, hdirectory, hpath⟩ := (h.directories _).1 hmem
      refine any_eq_true.2 ⟨entry, hentry, ?_⟩
      rw [hdirectory, hpath, beq_self_eq_true]
      rfl

theorem judges_verifyExpectedInventory (hreader : reader.Regular) :
    Judges hasProgress (reader.Accepts expected)
      (reader.verifyExpectedInventory expected hasProgress) := by
  unfold ZipReader.verifyExpectedInventory
  refine Judges.bind (judges_require fun h => h.isOpen) fun _ => Judges.bind (judges_require fun h => ?_)
    fun _ => Judges.bind (judges_verifyFiles hreader [] _ rfl) fun _ =>
      Judges.bind (judges_verifyDirectories hreader [] _ rfl) fun _ => trivial
  exact ⟨(h.matches hreader).fileCount, (h.matches hreader).directoryCount⟩

theorem indifferent_anyContract : Indifferent (anyContract zipSignature) :=
  fun _ _ _ _ => ⟨trivial, fun _ _ _ => rfl⟩

/-- The check ends well just when the inventories are equal and no progress hook declines. -/
theorem verifyExpectedInventory_iff (hreader : reader.Regular)
    {events : List (Event zipSignature)} {result : Except ZipStatus Bool}
    (hrun : AnyRun (reader.verifyExpectedInventory expected hasProgress).run events result) :
    (∃ requiresHash, result = .ok requiresHash) ↔
      reader.Accepts expected ∧ ¬ (hasProgress = true ∧ result = .error .cancelled) := by
  constructor
  · rintro ⟨requiresHash, rfl⟩
    have hmatches := anyRun_holds hrun (keeps_verifyExpectedInventory indifferent_anyContract)
    exact ⟨accepts_of_matches hreader hmatches.2.2.1 hmatches.2.1 hmatches.2.2.2, fun h => nomatch h.2⟩
  · rintro ⟨haccepts, hcancelled⟩
    have hjudged := anyRun_holds hrun (judges_verifyExpectedInventory hreader)
    cases result with
    | ok requiresHash => exact ⟨requiresHash, rfl⟩
    | error status =>
      obtain ⟨hpresent, rfl⟩ := hjudged haccepts
      exact absurd ⟨hpresent, rfl⟩ hcancelled

end Verification

/-! ### The binding -/

section Binding

def u64Bytes (value : Nat) : Bytes := (List.range 8).map fun index => UInt8.ofNat (value >>> (index * 8))

def sizedBytes (bytes : Bytes) : Bytes := u64Bytes bytes.length ++ bytes

def digestMessage : Option Digest → Bytes
  | none => [0]
  | some digest => 1 :: digest.1

def fileMessage (wanted : ZipExpectedFile) : Bytes :=
  u64Bytes wanted.size ++ UInt8.ofNat wanted.compression.method :: digestMessage wanted.sha256

/-- What the binding hashes of one entry. -/
def entryMessage (expected : ZipExpectedInventory) (entry : ZipEntry) : Option Bytes :=
  if entry.isDirectory then some (0x44 :: sizedBytes entry.path)
  else (findExpectedFile expected entry.path).map fun wanted =>
    0x46 :: sizedBytes entry.path ++ fileMessage wanted

def entriesMessage (expected : ZipExpectedInventory) : List ZipEntry → Option Bytes
  | [] => some []
  | entry :: rest =>
    (entryMessage expected entry).bind fun first =>
      (entriesMessage expected rest).map fun others => first ++ others

/-- The message whose digest the binding is. -/
def inventoryMessage (inventory : ZipInventory) (expected : ZipExpectedInventory) : Option Bytes :=
  (entriesMessage expected inventory.entries).map fun entries =>
    sizedBytes inventoryDomain ++ u64Bytes expected.files.length ++
      u64Bytes expected.directories.length ++ entries

theorem length_u64Bytes (value : Nat) : (u64Bytes value).length = 8 := by
  unfold u64Bytes
  rw [length_map, length_range]

variable {hash next : Sha256} {message : Bytes}

theorem fed_hashU64 {value : Nat} (hfed : hash.Fed message) (h : hashU64 hash value = some next) :
    next.Fed (message ++ u64Bytes value) := hfed.update h

theorem fed_hashSizedBytes {bytes : Bytes} (hfed : hash.Fed message)
    (h : hashSizedBytes hash bytes = some next) : next.Fed (message ++ sizedBytes bytes) := by
  obtain ⟨middle, hlength, hbytes⟩ := bind_eq_some_iff.1 h
  have hnext := (fed_hashU64 hfed hlength).update hbytes
  rwa [append_assoc] at hnext

variable {expected first second : ZipExpectedInventory} {entry : ZipEntry} {entries : List ZipEntry}
  {reader : ZipReader} {later later' : Bytes}

theorem fed_hashEntry (hfed : hash.Fed message) (h : hashEntry expected hash entry = some next) :
    ∃ record, entryMessage expected entry = some record ∧ next.Fed (message ++ record) := by
  obtain ⟨kind, hkind, h⟩ := bind_eq_some_iff.1 h
  obtain ⟨path, hpath, h⟩ := bind_eq_some_iff.1 h
  have hfed' := fed_hashSizedBytes (hfed.update hkind) hpath
  unfold entryMessage
  split at h
  · rename_i hdirectory
    rw [if_pos hdirectory] at hfed'
    cases h
    rw [if_pos hdirectory]
    exact ⟨_, rfl, by rwa [append_assoc] at hfed'⟩
  · rename_i hfile
    rw [if_neg hfile] at hfed'
    obtain ⟨wanted, hwanted, h⟩ := bind_eq_some_iff.1 h
    obtain ⟨size, hsize, h⟩ := bind_eq_some_iff.1 h
    obtain ⟨compression, hcompression, h⟩ := bind_eq_some_iff.1 h
    have hsized := (fed_hashU64 hfed' hsize).update hcompression
    rw [if_neg hfile, hwanted]
    unfold fileMessage
    cases hdigest : wanted.sha256 with
    | none =>
      rw [hdigest] at h
      have hnext := hsized.update h
      simpa [digestMessage, hdigest] using hnext
    | some digest =>
      rw [hdigest] at h
      obtain ⟨flag, hflag, hbytes⟩ := bind_eq_some_iff.1 h
      have hnext := (hsized.update hflag).update hbytes
      simpa [digestMessage, hdigest] using hnext

theorem fed_hashEntries (hfed : hash.Fed message) (h : entries.foldlM (hashEntry expected) hash = some next) :
    ∃ records, entriesMessage expected entries = some records ∧ next.Fed (message ++ records) := by
  induction entries generalizing hash message with
  | nil =>
    cases h
    exact ⟨[], rfl, by rwa [append_nil]⟩
  | cons entry rest ih =>
    obtain ⟨middle, hentry, hrest⟩ := bind_eq_some_iff.1 h
    obtain ⟨record, hrecord, hfed'⟩ := fed_hashEntry hfed hentry
    obtain ⟨records, hrecords, hnext⟩ := ih hfed' hrest
    refine ⟨record ++ records, ?_, by rwa [append_assoc] at hnext⟩
    rw [entriesMessage, hrecord, hrecords]
    rfl

theorem binding_message {binding : Digest} (h : reader.computeExpectedInventoryBinding expected = some binding) :
    ∃ message, inventoryMessage reader.inventory expected = some message ∧
      sha256Digest message = some binding := by
  unfold ZipReader.computeExpectedInventoryBinding at h
  split at h
  · cases h
  obtain ⟨domain, hdomain, h⟩ := bind_eq_some_iff.1 h
  obtain ⟨files, hfiles, h⟩ := bind_eq_some_iff.1 h
  obtain ⟨directories, hdirectories, h⟩ := bind_eq_some_iff.1 h
  obtain ⟨entries, hentries, hfinal⟩ := bind_eq_some_iff.1 h
  have hfed := fed_hashU64 (fed_hashU64 (fed_hashSizedBytes Sha256.fed_reset hdomain) hfiles)
    hdirectories
  obtain ⟨records, hrecords, hall⟩ := fed_hashEntries hfed hentries
  refine ⟨_, by rw [inventoryMessage, hrecords]; rfl, ?_⟩
  exact hall.final hfinal

theorem digestMessage_inj {first second : Option Digest}
    (h : digestMessage first ++ later = digestMessage second ++ later') : first = second ∧ later = later' := by
  cases first with
  | none =>
    cases second with
    | none => exact ⟨rfl, (cons.inj h).2⟩
    | some digest' => exact absurd (cons.inj h).1 (by decide)
  | some digest =>
    cases second with
    | none => exact absurd (cons.inj h).1 (by decide)
    | some digest' =>
      obtain ⟨hdigest, hlater⟩ :=
        append_inj (cons.inj h).2 (digest.2.trans digest'.2.symm)
      exact ⟨congrArg some (Subtype.ext hdigest), hlater⟩

theorem fileMessage_inj {first second : ZipExpectedFile}
    (h : fileMessage first ++ later = fileMessage second ++ later') :
    first.sha256 = second.sha256 ∧ later = later' := by
  unfold fileMessage at h
  rw [append_assoc, append_assoc] at h
  have hrest := (append_inj h ((length_u64Bytes _).trans (length_u64Bytes _).symm)).2
  exact digestMessage_inj (cons.inj hrest).2

theorem entryMessage_inj {record record' : Bytes} (hfirst : entryMessage first entry = some record)
    (hsecond : entryMessage second entry = some record') (h : record ++ later = record' ++ later') :
    (entry.isDirectory = false → (findExpectedFile first entry.path).map (·.sha256) =
      (findExpectedFile second entry.path).map (·.sha256)) ∧ later = later' := by
  unfold entryMessage at hfirst hsecond
  split at hfirst
  · rename_i hdirectory
    rw [if_pos hdirectory] at hsecond
    obtain rfl := some.inj (hfirst.symm.trans hsecond)
    refine ⟨fun hfile => ?_, append_cancel_left h⟩
    rw [hdirectory] at hfile
    cases hfile
  · rename_i hfile
    rw [if_neg hfile] at hsecond
    obtain ⟨wanted, hwanted, rfl⟩ := map_eq_some_iff.1 hfirst
    obtain ⟨wanted', hwanted', rfl⟩ := map_eq_some_iff.1 hsecond
    rw [append_assoc, append_assoc] at h
    obtain ⟨hdigest, hlater⟩ := fileMessage_inj (append_cancel_left h)
    rw [hwanted, hwanted', map_some, map_some, hdigest]
    exact ⟨fun _ => rfl, hlater⟩

theorem entriesMessage_inj {message : Bytes} (hfirst : entriesMessage first entries = some message)
    (hsecond : entriesMessage second entries = some message) :
    ∀ entry ∈ entries, entry.isDirectory = false →
      (findExpectedFile first entry.path).map (·.sha256) =
        (findExpectedFile second entry.path).map (·.sha256) := by
  induction entries generalizing message with
  | nil => exact fun entry hentry => by cases hentry
  | cons entry rest ih =>
    obtain ⟨record, hrecord, hothers⟩ := bind_eq_some_iff.1 hfirst
    obtain ⟨record', hrecord', hothers'⟩ := bind_eq_some_iff.1 hsecond
    obtain ⟨others, hrest, rfl⟩ := map_eq_some_iff.1 hothers
    obtain ⟨others', hrest', heq⟩ := map_eq_some_iff.1 hothers'
    obtain ⟨hdigest, rfl⟩ := entryMessage_inj hrecord' hrecord heq
    intro other hother
    rcases mem_cons.1 hother with rfl | hother
    · exact fun hfile => (hdigest hfile).symm
    · exact ih hrest hrest' other hother

theorem findExpectedFile_eq {file : ZipExpectedFile}
    (hdistinct : expected.files.Pairwise fun a b => a.path ≠ b.path) (hfile : file ∈ expected.files) :
    findExpectedFile expected file.path = some file := by
  unfold findExpectedFile
  cases hfind : expected.files.find? (·.path == file.path) with
  | none => exact absurd (find?_eq_none.1 hfind file hfile) (by simp)
  | some found =>
    have hpath := find?_some hfind
    exact congrArg some (inj_on_of_nodup_map (nodup_expectedPaths hdistinct)
      (mem_of_find?_eq_some hfind) hfile (eq_of_beq hpath))

/-- Two inventories with the same files and the same directories, in any order. -/
def ZipExpectedInventory.SameAs (first second : ZipExpectedInventory) : Prop :=
  (∀ file, file ∈ first.files ↔ file ∈ second.files) ∧
    ∀ path, path ∈ first.directories ↔ path ∈ second.directories

/-- Inventories that the same archive is checked against are the same when their messages are. -/
theorem sameAs_of_message {message : Bytes} (hfirst : reader.Accepts first) (hsecond : reader.Accepts second)
    (hmessage : inventoryMessage reader.inventory first = some message)
    (hmessage' : inventoryMessage reader.inventory second = some message) : first.SameAs second := by
  have hdigests : ∀ entry ∈ reader.inventory.entries, entry.isDirectory = false →
      (findExpectedFile first entry.path).map (·.sha256) =
        (findExpectedFile second entry.path).map (·.sha256) := by
    obtain ⟨records, hrecords, rfl⟩ := map_eq_some_iff.1 hmessage
    obtain ⟨records', hrecords', heq⟩ := map_eq_some_iff.1 hmessage'
    have hlength : ∀ a b c d : Nat, (sizedBytes inventoryDomain ++ u64Bytes a ++ u64Bytes b).length =
        (sizedBytes inventoryDomain ++ u64Bytes c ++ u64Bytes d).length := by
      intro a b c d
      simp only [length_append, length_u64Bytes]
    obtain ⟨-, rfl⟩ := append_inj heq (hlength _ _ _ _)
    exact entriesMessage_inj hrecords hrecords'
  have hsubset : ∀ {left right : ZipExpectedInventory}, reader.Accepts left → reader.Accepts right →
      (∀ entry ∈ reader.inventory.entries, entry.isDirectory = false →
        (findExpectedFile left entry.path).map (·.sha256) =
          (findExpectedFile right entry.path).map (·.sha256)) →
      ∀ file ∈ left.files, file ∈ right.files := by
    intro left right hleft hright hsame file hfile
    have hhas := (hleft.files _ _ _).1 ⟨file, hfile, rfl, rfl, rfl⟩
    obtain ⟨other, hother, hpath, hsize, hcompression⟩ := (hright.files _ _ _).2 hhas
    obtain ⟨entry, hentry, hregular, hentryPath, -⟩ := hhas
    have hdigest := hsame entry hentry hregular
    rw [hentryPath, findExpectedFile_eq hleft.filesDistinct hfile, ← hpath,
      findExpectedFile_eq hright.filesDistinct hother] at hdigest
    have heq : file = other := by
      obtain ⟨path, size, compression, sha256⟩ := file
      obtain ⟨path', size', compression', sha256'⟩ := other
      obtain rfl : path' = path := hpath
      obtain rfl : size' = size := hsize
      obtain rfl : compression' = compression := hcompression
      obtain rfl : sha256 = sha256' := some.inj hdigest
      rfl
    rwa [heq]
  refine ⟨fun file => ⟨hsubset hfirst hsecond hdigests file,
    hsubset hsecond hfirst (fun entry hentry hregular => (hdigests entry hentry hregular).symm) file⟩,
    fun path => (hfirst.directories path).trans (hsecond.directories path).symm⟩

end Binding

end Bmx.Zip
