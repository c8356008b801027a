import Bmx.Base.Tiling
import Bmx.Zip.Open

/-!
# What an opened archive is known to satisfy

`Open` trusts nothing it reads. Its checks, spread over two walks of the archive, add up to one
invariant of the inventory: distinct portable paths, no file above another entry, local records
that tile the bytes before the central directory, and two copies of the metadata that agree.
-/

namespace Bmx.Zip

open Interaction Update Fallible List

/-! ### Paths -/

/-- The child lies below the parent, in FAT's eyes. -/
def IsAncestor (parent child : Bytes) : Prop := ∃ rest, fold child = fold parent ++ slash :: rest

theorem asciiLower_eq_slash {value : UInt8} : asciiLower value = slash ↔ value = slash := by
  unfold asciiLower slash
  split
  · rename_i hupper
    simp only [UInt8.le_iff_toNat_le, UInt8.reduceToNat] at hupper
    constructor
    · intro h
      have := congrArg UInt8.toNat h
      simp only [UInt8.toNat_add, UInt8.reduceSub, UInt8.reduceToNat] at this
      omega
    · rintro rfl
      simp at hupper
  · rfl

theorem fatPrefixDirectory_iff {parent child : Bytes} :
    fatPrefixDirectory parent child = true ↔ IsAncestor parent child := by
  induction parent generalizing child with
  | nil =>
    cases child with
    | nil => simp [fatPrefixDirectory, IsAncestor]
    | cons value rest =>
      simp only [fatPrefixDirectory, IsAncestor, beq_iff_eq, fold, map_cons, map_nil, nil_append, cons.injEq]
      rw [← asciiLower_eq_slash]
      constructor
      · intro h
        exact ⟨_, h, rfl⟩
      · rintro ⟨_, h, -⟩
        exact h
  | cons a parent ih =>
    cases child with
    | nil => simp [fatPrefixDirectory, IsAncestor]
    | cons b child =>
      have hrest := @ih child
      simp only [fatPrefixDirectory, Bool.and_eq_true, beq_iff_eq, hrest, IsAncestor, fold,
        map_cons, cons_append, cons.injEq, eq_comm (a := asciiLower b)]
      constructor
      · rintro ⟨h, rest, hrest⟩
        exact ⟨rest, h, hrest⟩
      · rintro ⟨rest, h, hrest⟩
        exact ⟨h, rest, hrest⟩

/-! ### What the checks say -/

/-- The name of an entry as it stands in the archive. -/
def storedName (entry : ZipEntry) : Bytes :=
  if entry.isDirectory then entry.path ++ [slash] else entry.path

structure DescribesCentral (header : CentralHeader) (name : Bytes) (entry : ZipEntry) : Prop where
  signature : header.signature = centralSignature
  flags : header.flags = entry.flags
  method : header.method = entry.compression.method
  crc32 : header.crc32 = entry.crc32
  compressedSize : header.compressedSize = entry.compressedSize
  size : header.size = entry.size
  nameLength : header.nameLength = name.length
  localOffset : header.localOffset = entry.localHeaderOffset
  name : name = storedName entry

structure DescribesLocal (header : LocalHeader) (name : Bytes) (entry : ZipEntry) : Prop where
  signature : header.signature = localSignature
  flags : header.flags = entry.flags
  method : header.method = entry.compression.method
  crc32 : header.crc32 = entry.crc32
  compressedSize : header.compressedSize = entry.compressedSize
  size : header.size = entry.size
  nameLength : header.nameLength = name.length
  name : name = storedName entry

variable {compression : ZipCompression} {raw path rawName localName : Bytes}
  {flags maximum cursor centralEnd centralOffset : Nat} {isDirectory : Bool} {previous : List ZipEntry}
  {reader : ZipReader} {limits : ZipLimits} {header : CentralHeader} {entry : ZipEntry} {α : Type}
  {status : ZipStatus}

theorem compressionOf_method {method : Nat}
    (h : compressionOf method = some compression) : method = compression.method := by
  unfold compressionOf at h
  split at h
  · rename_i hstore
    cases h
    exact hstore
  · split at h
    · rename_i hdeflate
      cases h
      exact hdeflate
    · cases h

theorem validateAndCopyPath_ok (h : validateAndCopyPath raw flags isDirectory maximum = .ok path) :
    FatRelativePath path maximum ∧ raw = if isDirectory then path ++ [slash] else path := by
  unfold validateAndCopyPath at h
  split at h
  · cases h
  split at h
  · split at h <;> cases h
  dsimp only at h
  split at h
  · cases h
  rename_i htrailing
  split at h
  · cases h
  · rename_i hvalid
    cases h
    refine ⟨hvalid, ?_⟩
    rw [not_not] at htrailing
    rw [← htrailing]
    split
    · rename_i hslash
      have hlast := beq_iff_eq.1 hslash
      exact (dropLast_append_getLast? _ hlast).symm
    · rfl
  · cases h

theorem checkDuplicates_ok
    (h : checkDuplicates path previous = .ok ()) : ∀ entry ∈ previous, fold entry.path ≠ fold path := by
  induction previous with
  | nil => intro entry hentry; cases hentry
  | cons first rest ih =>
    unfold checkDuplicates at h
    split at h
    · cases h
    · split at h
      · cases h
      · rename_i hfold
        intro entry hentry
        rcases mem_cons.1 hentry with rfl | hrest
        · intro heq
          exact hfold (foldEqual_iff.2 heq.symm)
        · exact ih h entry hrest

theorem checkCentralHeader_ok
    (h : checkCentralHeader reader limits cursor centralEnd header = .ok compression) :
    header.signature = centralSignature ∧ header.method = compression.method := by
  simp only [checkCentralHeader, bind_eq_ok, ensure_eq_ok, orFail_eq_ok, exists_const] at h
  obtain ⟨hsignature, -, -, found, hmethod, -, -, -, -, -, -, -, hpure⟩ := h
  cases hpure
  exact ⟨hsignature, compressionOf_method hmethod⟩

/-- What every mode of the reader guarantees of an entry of the central directory. -/
structure AdmittedEntry (limits : ZipLimits) (previous : List ZipEntry) (entry : ZipEntry) :
    Prop where
  path : FatRelativePath entry.path limits.maximumPathBytes
  fresh : ∀ other ∈ previous, fold other.path ≠ fold entry.path
  directory : entry.isDirectory = true →
    entry.compression = .store ∧ entry.compressedSize = 0 ∧ entry.size = 0 ∧ entry.crc32 = 0
  file : entry.isDirectory = false → entry.size ≤ limits.maximumFileBytes

theorem checkSizes_ok (h : checkSizes reader limits entry = .ok ()) :
    (entry.isDirectory = true →
      entry.compression = .store ∧ entry.compressedSize = 0 ∧ entry.size = 0 ∧ entry.crc32 = 0) ∧
    (entry.isDirectory = false → entry.size ≤ limits.maximumFileBytes) := by
  unfold checkSizes at h
  split at h
  · rename_i hdirectory
    unfold ensure at h
    split at h
    · rename_i hzero
      exact ⟨fun _ => hzero, fun hfile => by rw [hdirectory] at hfile; cases hfile⟩
    · cases h
  · rename_i hfile
    simp only [bind_eq_ok, ensure_eq_ok, exists_const] at h
    exact ⟨fun hdirectory => absurd hdirectory hfile, fun _ => h.1.1⟩

theorem checkCentralEntry_ok
    (h : checkCentralEntry reader limits header compression rawName previous = .ok entry) :
    AdmittedEntry limits previous entry ∧
      entry = centralEntry header compression entry.path entry.isDirectory ∧
      (reader.lenientPaths = false → rawName = storedName entry) := by
  simp only [checkCentralEntry, bind_eq_ok] at h
  obtain ⟨_, _, ⟨name, isDirectory⟩, hname, path, hpath, _, hduplicates, _, hsizes, hpure⟩ := h
  cases hpure
  unfold checkedPath at hpath
  split at hpath
  · rename_i copied hcopied
    cases hpath
    obtain ⟨hvalid, hraw⟩ := validateAndCopyPath_ok hcopied
    refine ⟨⟨hvalid, checkDuplicates_ok hduplicates, (checkSizes_ok hsizes).1,
      (checkSizes_ok hsizes).2⟩, rfl, fun hstrict => ?_⟩
    unfold checkedName at hname
    rw [if_neg (by simp [hstrict])] at hname
    cases hname
    exact hraw
  · cases hpath

theorem checkLocalHeader_ok {header : LocalHeader}
    (h : checkLocalHeader reader entry header = .ok ()) (hstrict : reader.Strict) :
    header.signature = localSignature ∧ header.flags = entry.flags ∧
      header.method = entry.compression.method ∧ header.crc32 = entry.crc32 ∧
      header.compressedSize = entry.compressedSize ∧ header.size = entry.size ∧
      header.extraLength = 0 := by
  simp only [checkLocalHeader, bind_eq_ok, ensure_eq_ok, exists_const] at h
  obtain ⟨hsignature, -, ⟨hflags, hmethod, hsizes⟩, hextra, -⟩ := h
  have hsizes := hsizes.resolve_left (by simp [sizesPostponed, hstrict.2.1])
  exact ⟨hsignature, hflags, hmethod, hsizes.1, hsizes.2.1, hsizes.2.2, hextra.resolve_right (by simp [hstrict.1])⟩

theorem checkLocalName_ok {header : LocalHeader} {dataOffset : Nat}
    (h : checkLocalName reader entry header centralOffset localName = .ok dataOffset) :
    dataOffset = entry.localHeaderOffset + localHeaderSize + header.nameLength + header.extraLength ∧
      dataOffset + entry.compressedSize ≤ centralOffset ∧
      (reader.lenientPaths = false → localName = storedName entry) := by
  simp only [checkLocalName, bind_eq_ok, ensure_eq_ok, orFail_eq_ok, exists_const] at h
  obtain ⟨name, hname, hlength, found, hoffset, hrange, ⟨htake, hslash⟩, hpure⟩ := h
  cases hpure
  obtain ⟨middle, hmiddle, hextra⟩ := Option.bind_eq_some_iff.1 hoffset
  obtain ⟨first, hfirst, hname'⟩ := Option.bind_eq_some_iff.1 hmiddle
  refine ⟨?_, (rangeWithin_iff.1 hrange).2, fun hstrict => ?_⟩
  · rw [addWithoutOverflow_eq_some hextra, addWithoutOverflow_eq_some hname', addWithoutOverflow_eq_some hfirst]
  · unfold comparedName at hname
    rw [if_neg (by simp [hstrict])] at hname
    cases hname
    unfold storedName
    split
    · rename_i hdirectory
      rw [if_pos hdirectory] at hlength
      -- the name is the path and one more byte, which is its last
      have hlast := dropLast_append_getLast? _ (hslash hdirectory)
      have hdrop : localName.dropLast = entry.path := by
        rw [dropLast_eq_take, hlength, Nat.add_sub_cancel, htake]
      rw [← hlast, hdrop]
    · rename_i hfile
      rw [if_neg hfile, Nat.add_zero] at hlength
      rw [← hlength, take_length] at htake
      exact htake

/-! ### Failures name a failure -/

/-- What is noted of an entry with this name: the name as it was read, or the path it stands for. -/
def NameNoted (rawName note : Bytes) : Prop :=
  note = noteFailurePath (rawName.take 240) ∨ ∃ (reader : ZipReader) (name : Bytes) (isDirectory : Bool)
    (flags maximum : Nat) (path : Bytes), checkedName reader rawName = .ok (name, isDirectory) ∧
      validateAndCopyPath name flags isDirectory maximum = .ok path ∧ note = noteFailurePath path

/-- An early return carries a status other than `ok`, and notes no name. -/
def Honest {α : Type} (result : Except OpenFailure α) : Prop :=
  ∀ failure, result = .error failure → failure.status ≠ .ok ∧ failure.note = none

/-- An early return carries a status other than `ok`, and notes no name but this entry's. -/
def HonestName {α : Type} (rawName : Bytes) (result : Except OpenFailure α) : Prop :=
  ∀ failure, result = .error failure →
    failure.status ≠ .ok ∧ ∀ note, failure.note = some note → NameNoted rawName note

theorem honest_ok (value : α) : Honest (.ok value) := fun _ h => by cases h

theorem honest_error (h : status ≠ .ok) : Honest (.error (.of status) : Except OpenFailure α) := by
  rintro other heq
  cases heq
  exact ⟨h, rfl⟩

theorem Honest.named {result : Except OpenFailure α} (h : Honest result) : HonestName rawName result :=
  fun failure heq => ⟨(h failure heq).1, fun note hnote => by
    rw [(h failure heq).2] at hnote
    cases hnote⟩

theorem honestName_error {note : Bytes} (h : status ≠ .ok) (hnote : NameNoted rawName note) :
    HonestName rawName (.error ⟨status, some note⟩ : Except OpenFailure α) := by
  rintro other heq
  cases heq
  exact ⟨h, fun noted heq => Option.some.inj heq ▸ hnote⟩

theorem honest_ensure {condition : Prop} [Decidable condition]
    (h : status ≠ .ok) : Honest (ensure condition status) := by
  unfold ensure
  split
  · exact honest_ok _
  · exact honest_error h

theorem honest_orFail {option : Option α} (h : status ≠ .ok) : Honest (orFail option status) := by
  unfold orFail
  split
  · exact honest_ok _
  · exact honest_error h

theorem Honest.bind {β : Type} {result : Except OpenFailure α} {next : α → Except OpenFailure β}
    (hresult : Honest result) (hnext : ∀ a, Honest (next a)) : Honest (result >>= next) := by
  cases result with
  | error failure =>
    rintro other heq
    cases heq
    exact hresult failure rfl
  | ok a => exact hnext a

theorem HonestName.bind {β : Type} {result : Except OpenFailure α} {next : α → Except OpenFailure β}
    (hresult : HonestName rawName result) (hnext : ∀ a, result = .ok a → HonestName rawName (next a)) :
    HonestName rawName (result >>= next) := by
  cases result with
  | error failure =>
    rintro other heq
    cases heq
    exact hresult failure rfl
  | ok a => exact hnext a rfl

theorem checkEndRecord_honest {entryCapacity archiveSize endOffset : Nat} {bytes : Bytes} :
    Honest (checkEndRecord reader limits entryCapacity archiveSize endOffset bytes) := by
  unfold checkEndRecord
  repeat refine (honest_ensure (by decide)).bind fun _ => ?_
  exact honest_ok _

theorem checkCentralHeader_honest : Honest (checkCentralHeader reader limits cursor centralEnd header) := by
  unfold checkCentralHeader
  repeat refine (honest_ensure (by decide)).bind fun _ => ?_
  refine (honest_orFail (by decide)).bind fun compression => ?_
  repeat refine (honest_ensure (by decide)).bind fun _ => ?_
  exact honest_ok _

theorem checkDuplicates_honest (hpath : NameNoted rawName (noteFailurePath path)) :
    HonestName rawName (checkDuplicates path previous) := by
  induction previous with
  | nil => exact (honest_ok _).named
  | cons first rest ih =>
    unfold checkDuplicates
    split
    · exact honestName_error (by decide) hpath
    · split
      · exact honestName_error (by decide) hpath
      · exact ih

theorem validateAndCopyPath_honest (h : validateAndCopyPath raw flags isDirectory maximum = .error status) :
    status ≠ .ok := by
  unfold validateAndCopyPath at h
  split at h
  · cases h; decide
  split at h
  · split at h <;> cases h <;> decide
  dsimp only at h
  split at h
  · cases h; decide
  split at h <;> cases h <;> decide

theorem checkCentralEntry_honest :
    HonestName rawName (checkCentralEntry reader limits header compression rawName previous) := by
  unfold checkCentralEntry
  refine HonestName.bind ?_ fun _ _ => HonestName.bind ?_ fun name hname => HonestName.bind ?_ fun path hpath => ?_
  · unfold checkMetadata
    split
    · exact (honest_ok _).named
    · rename_i status hstatus
      exact (honest_error hstatus).named
  · unfold checkedName
    split
    · split
      · exact honestName_error (by decide) (.inl rfl)
      · exact (honest_ok _).named
    · exact (honest_ok _).named
  · unfold checkedPath
    split
    · exact (honest_ok _).named
    · rename_i status hstatus
      exact honestName_error (validateAndCopyPath_honest hstatus) (.inl rfl)
  · have hcopied : validateAndCopyPath name.1 header.flags name.2 limits.maximumPathBytes = .ok path := by
      unfold checkedPath at hpath
      split at hpath
      · rename_i copied hcopied
        exact Except.ok.inj hpath ▸ hcopied
      · cases hpath
    refine (checkDuplicates_honest (.inr ⟨reader, name.1, name.2, _, _, path, hname, hcopied, rfl⟩)).bind fun _ _ => ?_
    refine HonestName.bind (Honest.named ?_) fun _ _ => (honest_ok _).named
    unfold checkSizes
    split
    · exact honest_ensure (by decide)
    · exact (honest_ensure (by decide)).bind fun _ => honest_ensure (by decide)

theorem checkLocalHeader_honest {header : LocalHeader} : Honest (checkLocalHeader reader entry header) := by
  unfold checkLocalHeader
  refine (honest_ensure (by decide)).bind fun _ => (honest_ensure (by decide)).bind fun _ =>
    (honest_ensure (by decide)).bind fun _ => (honest_ensure (by decide)).bind fun _ =>
    honest_ensure (by decide)

theorem checkLocalName_honest {header : LocalHeader} :
    Honest (checkLocalName reader entry header centralOffset localName) := by
  unfold checkLocalName
  refine Honest.bind ?_ fun name => (honest_ensure (by decide)).bind fun _ =>
    (honest_orFail (by decide)).bind fun _ => (honest_ensure (by decide)).bind fun _ =>
    (honest_ensure (by decide)).bind fun _ => honest_ok _
  unfold comparedName
  split
  · split
    · exact honest_error (by decide)
    · exact honest_ok _
  · exact honest_ok _

theorem addInstalled_honest {installed : Nat} : Honest (addInstalled limits entry installed) := by
  unfold addInstalled
  split
  · exact honest_ok _
  · exact (honest_orFail (by decide)).bind fun _ => (honest_ensure (by decide)).bind fun _ => honest_ok _

/-! ### Walking the archive -/

/-- The source answered a read of these bytes at this offset. -/
def Answered (events : List (Event zipSignature)) (offset : Nat) (bytes : Bytes) : Prop :=
  (⟨.readAt offset bytes.length, some ⟨bytes, rfl⟩⟩ : Event zipSignature) ∈ events

/-- The calls `Open` makes: it touches neither the inflater nor a sink. -/
def ReadsArchive (op : zipSignature.Op) : Prop :=
  match op with
  | .getSize | .readAt _ _ | .progress _ _ _ => True
  | _ => False

/-- An early return has a failure status, and the name that it notes is one that was read. -/
def Returned (failure : OpenFailure) (events : List (Event zipSignature)) : Prop :=
  failure.status ≠ .ok ∧ ∀ note, failure.note = some note →
    ∃ offset rawName, Answered events offset rawName ∧ NameNoted rawName note

/-- A stage of `Open`, against a source that answers anything: every success satisfies `Q`, every
early return has a failure status and a name that was read, and no exchange is forgotten. -/
def Opens {α : Type} (p : OpenM α) (past : List (Event zipSignature))
    (Q : α → List (Event zipSignature) → Prop) : Prop :=
  Upholds (historyContract zipSignature ReadsArchive) (fun a now => past ⊆ now ∧ Q a now)
    Returned p past

section Stages

variable {α β : Type} {past : List (Event zipSignature)}

variable {p : OpenM α} {P Q : α → List (Event zipSignature) → Prop} {signature : Bytes} {last : Nat}

theorem Opens.bind {f : α → OpenM β} {Q : β → List (Event zipSignature) → Prop} (hp : Opens p past P)
    (hf : ∀ a now, past ⊆ now → P a now → Opens (f a) now Q) : Opens (p >>= f) past Q := by
  refine Upholds.bind hp fun a now ha => ?_
  refine (hf a now ha.1 ha.2).mono (fun b later hb => ⟨Subset.trans ha.1 hb.1, hb.2⟩) fun _ _ h => h

theorem Opens.mono (hp : Opens p past P) (h : ∀ a now, past ⊆ now → P a now → Q a now) : Opens p past Q :=
  Upholds.mono hp (fun a now ha => ⟨ha.1, h a now ha.1 ha.2⟩) fun _ _ h => h

theorem opens_pure {value : α} (h : Q value past) :
    Opens (pure value) past Q := ⟨Subset.refl _, h⟩

theorem returned_of {status : ZipStatus} (h : status ≠ .ok) : Returned (.of status) past :=
  ⟨h, fun _ hnote => by cases hnote⟩

theorem opens_throw {status : ZipStatus} (h : status ≠ .ok) : Opens (throw (.of status)) past Q := returned_of h

theorem opens_require {condition : Prop} [Decidable condition] {status : ZipStatus}
    (hstatus : status ≠ .ok) : Opens (OpenM.require condition status) past fun _ _ => condition :=
  upholds_require.2 ⟨fun h => ⟨Subset.refl _, h⟩, fun _ => returned_of hstatus⟩

theorem opens_check {result : Except OpenFailure α} (h : Honest result) :
    Opens (OpenM.check result) past fun a _ => result = .ok a := by
  cases result with
  | ok a => exact ⟨Subset.refl _, rfl⟩
  | error failure =>
    obtain ⟨hstatus, hnote⟩ := h failure rfl
    exact ⟨hstatus, fun note hsome => by rw [hnote] at hsome; cases hsome⟩

theorem opens_checkName {result : Except OpenFailure α} {offset : Nat} {rawName : Bytes}
    (h : HonestName rawName result) (hread : Answered past offset rawName) :
    Opens (OpenM.check result) past fun a _ => result = .ok a := by
  cases result with
  | ok a => exact ⟨Subset.refl _, rfl⟩
  | error failure => exact ⟨(h failure rfl).1, fun note hnote => ⟨offset, rawName, hread, (h failure rfl).2 note hnote⟩⟩

theorem opens_ask (op : ZipOp) (hop : ReadsArchive op) :
    Opens (Fallible.ask (S := zipSignature) op) past fun answer now => ⟨op, answer⟩ ∈ now := by
  refine upholds_ask.2 ⟨hop, fun answer now hnow => ?_⟩
  subst hnow
  exact ⟨subset_append_left _ _, mem_append_right _ (mem_singleton.2 rfl)⟩

theorem opens_readAt {offset count : Nat} :
    Opens (OpenM.readAt offset count) past fun bytes now =>
      bytes.length = count ∧ Answered now offset bytes := by
  unfold OpenM.readAt
  refine (opens_ask (.readAt offset count) trivial).bind fun answer now _ hanswer => ?_
  cases answer with
  | none => exact opens_throw (by decide)
  | some bytes =>
    obtain ⟨bytes, rfl⟩ := bytes
    exact opens_pure ⟨rfl, hanswer⟩

theorem opens_findLastSignature (fuel offset : Nat) (carried : Bytes) (found : Option Nat) :
    Opens (findLastSignature signature last fuel offset carried found) past fun _ _ => True := by
  induction fuel generalizing past offset carried found with
  | zero => exact opens_pure trivial
  | succ fuel ih =>
    unfold findLastSignature
    split
    · exact opens_readAt.bind fun bytes now _ _ => ih _ _ _
    · exact opens_pure trivial

theorem opens_containsSignature (fuel offset : Nat) (carried : Bytes) :
    Opens (containsSignature signature last fuel offset carried) past fun _ _ => True := by
  induction fuel generalizing past offset carried with
  | zero => exact opens_pure trivial
  | succ fuel ih =>
    unfold containsSignature
    split
    · refine opens_readAt.bind fun bytes now _ _ => ?_
      dsimp only
      split
      · exact opens_pure trivial
      · exact ih _ _
    · exact opens_pure trivial

theorem opens_openProgress {hasProgress : Bool} {index produced total : Nat} :
    Opens (openProgress hasProgress index produced total) past fun _ _ => True := by
  unfold openProgress
  split
  · exact (opens_ask (.progress _ _ _) trivial).bind fun answer now _ _ =>
      (opens_require (by decide)).mono fun _ _ _ _ => trivial
  · exact opens_pure trivial

end Stages

end Bmx.Zip
