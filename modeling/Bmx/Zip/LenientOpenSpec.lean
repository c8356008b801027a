import Bmx.Zip.ArchiveInvariant
import Bmx.Zip.LenientName

/-!
# The lenient modes take every strict archive

Each lenient flag only drops or widens checks, and a name that the strict reader takes is normalized already. So whatever the
flags, `Open` goes through the same exchanges as the strict one and ends with the same inventory.
-/

namespace Bmx.Zip

open Interaction Update Fallible

section Checks

variable {strict : ZipReader} (lenient : ZipReader) {limits : ZipLimits}

theorem checkEndRecord_lenient (hstrict : strict.Strict) {entryCapacity archiveSize endOffset : Nat} {bytes : Bytes}
    {record : EndRecord}
    (h : checkEndRecord strict limits entryCapacity archiveSize endOffset bytes = .ok record) :
    checkEndRecord lenient limits entryCapacity archiveSize endOffset bytes = .ok record := by
  simp only [checkEndRecord, bind_eq_ok, ensure_eq_ok, exists_const] at h ⊢
  obtain ⟨hsignature, hend, hcomment, hrest⟩ := h
  exact ⟨hsignature, hend, .inl (hcomment.resolve_right (by simp [hstrict.2.2.1])), hrest⟩

theorem and_eq_zero_of_mask {flags wide narrow : Nat} (hmask : wide &&& narrow = narrow) (h : flags &&& wide = 0) :
    flags &&& narrow = 0 := by
  rw [← hmask, ← Nat.and_assoc, h, Nat.zero_and]

variable {header : CentralHeader} {compression : ZipCompression} {entry : ZipEntry} {maximum : Nat} {u : Unit}

theorem checkCentralHeader_lenient (hstrict : strict.Strict) {cursor centralEnd : Nat}
    (h : checkCentralHeader strict limits cursor centralEnd header = .ok compression) :
    checkCentralHeader lenient limits cursor centralEnd header = .ok compression ∧
      header.flags &&& descriptorFlag = 0 := by
  simp only [checkCentralHeader, bind_eq_ok, ensure_eq_ok, orFail_eq_ok, exists_const] at h ⊢
  obtain ⟨hsignature, hversion, hflags, found, hmethod, hdisk, hsizes, hextra, hrest⟩ := h
  have hallowed : allowedFlags strict = utf8Flag := by rw [allowedFlags, hstrict.2.1]; rfl
  rw [hallowed] at hflags
  refine ⟨⟨hsignature, hversion, ?_, found, hmethod, hdisk, hsizes,
    .inl (hextra.resolve_right (by simp [hstrict.1])), hrest⟩, and_eq_zero_of_mask (by decide) hflags⟩
  unfold allowedFlags
  split
  · exact and_eq_zero_of_mask (by decide) hflags
  · exact hflags

theorem storedName_takeWhile (h : FatRelativePath entry.path maximum) :
    (storedName entry).takeWhile (· != 0) = storedName entry := by
  refine List.takeWhile_eq_self_iff.2 fun c hc => ?_
  have hpath : ∀ c ∈ entry.path, c ≠ 0 := by
    rintro c hc rfl
    rcases scanComponents_characters h.scan hc with hslash | hportable
    · exact absurd hslash (by decide)
    · exact absurd hportable (by decide)
  have hchar : c ∈ entry.path ∨ c = slash := by
    unfold storedName at hc
    split at hc
    · simpa using hc
    · exact .inl hc
  rcases hchar with hc | rfl
  · simpa using hpath c hc
  · decide

theorem nameIsDirectory_stored (h : FatRelativePath entry.path maximum) :
    nameIsDirectory (storedName entry) = entry.isDirectory := by
  unfold storedName nameIsDirectory
  cases entry.isDirectory with
  | true => simp
  | false =>
    have hends := endsInSeparator_of_valid h
    rw [if_neg Bool.false_ne_true, beq_eq_false_iff_ne]
    intro hslash
    rw [endsInSeparator, hslash] at hends
    cases hends

theorem checkedName_stored (h : FatRelativePath entry.path maximum) :
    checkedName lenient (storedName entry) = .ok (storedName entry, entry.isDirectory) := by
  unfold checkedName
  split
  · rename_i hlenient
    rw [normalizeLenientPath_stored h (Nat.lt_succ_of_le hlenient.2)]
    dsimp only
    rw [storedName_takeWhile h]
  · rw [nameIsDirectory_stored h]

theorem comparedName_stored (h : FatRelativePath entry.path maximum) :
    comparedName lenient (storedName entry) = .ok (storedName entry) := by
  unfold comparedName
  split
  · rename_i hlenient
    rw [normalizeLenientPath_stored h (Nat.lt_succ_of_le hlenient.2)]
    dsimp only
    rw [storedName_takeWhile h]
  · rfl

theorem ratioExceeded_lenient (hstrict : strict.Strict)
    (h : ratioExceeded strict limits entry = false) : ratioExceeded lenient limits entry = false := by
  have hratio : strict.lenientRatio = false := hstrict.2.2.2
  simp only [ratioExceeded, hratio, Bool.not_false, Bool.true_and] at h
  simp only [ratioExceeded, h, Bool.and_false]

theorem checkSizes_lenient (hstrict : strict.Strict)
    (h : checkSizes strict limits entry = .ok u) : checkSizes lenient limits entry = .ok u := by
  unfold checkSizes at h ⊢
  split at h
  · rename_i hdirectory
    rw [if_pos hdirectory]
    exact h
  · rename_i hfile
    rw [if_neg hfile]
    simp only [bind_eq_ok, ensure_eq_ok, exists_const] at h ⊢
    exact ⟨h.1, ratioExceeded_lenient lenient hstrict h.2⟩

theorem checkCentralEntry_lenient (hstrict : strict.Strict) {rawName : Bytes} {previous : List ZipEntry}
    (h : checkCentralEntry strict limits header compression rawName previous = .ok entry) :
    checkCentralEntry lenient limits header compression rawName previous = .ok entry := by
  obtain ⟨hadmitted, -, hraw⟩ := checkCentralEntry_ok h
  obtain rfl := hraw hstrict.2.1
  have hname : checkedName lenient (storedName entry) = checkedName strict (storedName entry) :=
    (checkedName_stored lenient hadmitted.path).trans (checkedName_stored strict hadmitted.path).symm
  simp only [checkCentralEntry, bind_eq_ok] at h ⊢
  obtain ⟨u, hmetadata, name, hchecked, path, hpath, u', hduplicates, u'', hsizes, hentry⟩ := h
  exact ⟨u, hmetadata, name, hname.trans hchecked, path, hpath, u', hduplicates, u'',
    checkSizes_lenient lenient hstrict hsizes, hentry⟩

theorem checkLocalHeader_lenient (hstrict : strict.Strict) {header : LocalHeader}
    (h : checkLocalHeader strict entry header = .ok u) : checkLocalHeader lenient entry header = .ok u := by
  simp only [checkLocalHeader, bind_eq_ok, ensure_eq_ok, exists_const] at h ⊢
  obtain ⟨hsignature, hversion, ⟨hflags, hmethod, hsizes⟩, hextra, hlength⟩ := h
  exact ⟨hsignature, hversion, ⟨hflags, hmethod, .inr (hsizes.resolve_left (by simp [sizesPostponed, hstrict.2.1]))⟩,
    .inl (hextra.resolve_right (by simp [hstrict.1])), hlength⟩

theorem checkLocalName_lenient (hstrict : strict.Strict) {header : LocalHeader}
    {centralOffset dataOffset : Nat} {localName : Bytes} (hpath : FatRelativePath entry.path maximum)
    (h : checkLocalName strict entry header centralOffset localName = .ok dataOffset) :
    checkLocalName lenient entry header centralOffset localName = .ok dataOffset := by
  obtain rfl := (checkLocalName_ok h).2.2 hstrict.2.1
  unfold checkLocalName at h ⊢
  rwa [comparedName_stored lenient hpath, ← comparedName_stored strict hpath]

end Checks

/-! ### Stages -/

section Stages

variable {strict : ZipReader} (lenient : ZipReader) {limits : ZipLimits} {α : Type}

theorem extends_check {P : α → Prop} {result wider : Except OpenFailure α}
    (h : ∀ value, result = .ok value → wider = .ok value ∧ P value) :
    Extends P (OpenM.check result).run (OpenM.check wider).run := by
  cases result with
  | ok value =>
    obtain ⟨hwider, hvalue⟩ := h value rfl
    rw [hwider]
    exact .ok hvalue
  | error failure => exact .error _

/-- What the walks know of an entry that the strict reader took. -/
def Plain (limits : ZipLimits) (entry : ZipEntry) : Prop :=
  FatRelativePath entry.path limits.maximumPathBytes ∧ entry.flags &&& descriptorFlag = 0

variable {centralEnd entryCount centralOffset entryCapacity : Nat} {hasProgress : Bool} {entry : ZipEntry}

theorem extends_readCentralEntry (hstrict : strict.Strict) {cursor : Nat} {previous : List ZipEntry} :
    Extends (fun result => Plain limits result.1) (readCentralEntry strict limits centralEnd cursor previous).run
      (readCentralEntry lenient limits centralEnd cursor previous).run := by
  unfold readCentralEntry
  refine (extends_refl _).bind fun _ _ => (extends_refl _).bind fun bytes _ => ?_
  refine (extends_check fun _ h => checkCentralHeader_lenient lenient hstrict h).bind fun compression hflags => ?_
  refine (extends_refl _).bind fun rawName _ => ?_
  refine (extends_check fun entry h => ⟨checkCentralEntry_lenient lenient hstrict h, checkCentralEntry_ok h⟩).bind
    fun entry hentry => .ok ⟨hentry.1.path, ?_⟩
  rw [hentry.2.1]
  exact hflags

theorem extends_readCentral (hstrict : strict.Strict) {remaining : Nat}
    {scan : CentralScan} (hscan : ∀ entry ∈ scan.entries, Plain limits entry) :
    Extends (fun scan => ∀ entry ∈ scan.entries, Plain limits entry)
      (readCentral strict limits hasProgress centralEnd entryCount remaining scan).run
      (readCentral lenient limits hasProgress centralEnd entryCount remaining scan).run := by
  induction remaining generalizing scan with
  | zero => exact .ok hscan
  | succ remaining ih =>
    refine (extends_readCentralEntry lenient hstrict).bind fun result hresult => ?_
    refine (extends_refl _).bind fun _ _ => ih fun entry hentry => ?_
    rcases List.mem_append.1 hentry with hentry | hentry
    · exact hscan entry hentry
    · rw [List.mem_singleton.1 hentry]
      exact hresult

theorem skipDescriptor_plain (reader : ZipReader) (h : Plain limits entry)
    (centralOffset offset : Nat) : skipDescriptor reader entry centralOffset offset = pure offset :=
  if_neg fun hdescriptor => hdescriptor.2.2 h.2

theorem extends_readLocalEntry (hstrict : strict.Strict) {expectedOffset : Nat} (hentry : Plain limits entry) :
    Extends (fun _ => True) (readLocalEntry strict centralOffset expectedOffset entry).run
      (readLocalEntry lenient centralOffset expectedOffset entry).run := by
  unfold readLocalEntry
  refine (extends_refl _).bind fun _ _ => (extends_refl _).bind fun bytes _ => ?_
  refine (extends_check fun _ h => ⟨checkLocalHeader_lenient lenient hstrict h, trivial⟩).bind fun _ _ => ?_
  refine (extends_refl _).bind fun localName _ => ?_
  refine (extends_check fun _ h => ⟨checkLocalName_lenient lenient hstrict hentry.1 h, trivial⟩).bind
    fun dataOffset _ => (extends_refl _).bind fun dataEnd _ => ?_
  rw [skipDescriptor_plain strict hentry, skipDescriptor_plain lenient hentry]
  exact extends_refl _

theorem extends_readLocal (hstrict : strict.Strict)
    {rest : List ZipEntry} (hrest : ∀ entry ∈ rest, Plain limits entry) {scan : LocalScan} :
    Extends (fun _ => True) (readLocal strict limits hasProgress centralOffset entryCount rest scan).run
      (readLocal lenient limits hasProgress centralOffset entryCount rest scan).run := by
  induction rest generalizing scan with
  | nil => exact extends_refl _
  | cons entry rest ih =>
    obtain ⟨hentry, hrest⟩ := List.forall_mem_cons.1 hrest
    refine (extends_refl _).bind fun _ _ => (extends_readLocalEntry lenient hstrict hentry).bind fun result _ => ?_
    exact (extends_refl _).bind fun installed _ => ih hrest

theorem extends_readEndRecord (hstrict : strict.Strict) {archiveSize : Nat} :
    Extends (fun _ => True) (readEndRecord strict limits entryCapacity archiveSize).run
      (readEndRecord lenient limits entryCapacity archiveSize).run := by
  unfold readEndRecord
  refine (extends_refl _).bind fun found _ => (extends_refl _).bind fun endOffset _ => ?_
  refine (extends_refl _).bind fun _ _ => (extends_refl _).bind fun bytes _ => ?_
  exact (extends_check fun _ h => ⟨checkEndRecord_lenient lenient hstrict h, trivial⟩).bind fun record _ => extends_refl _

theorem extends_openInventory (hstrict : strict.Strict) :
    Extends (fun _ => True) (openInventory strict limits hasProgress entryCapacity).run
      (openInventory lenient limits hasProgress entryCapacity).run := by
  unfold openInventory
  refine (extends_refl _).bind fun size _ => (extends_refl _).bind fun archiveSize _ => ?_
  refine (extends_refl _).bind fun _ _ => (extends_readEndRecord lenient hstrict).bind fun result _ => ?_
  refine (extends_readCentral lenient hstrict fun entry h => absurd h List.not_mem_nil).bind fun central hcentral => ?_
  refine (extends_refl _).bind fun _ _ => (extends_refl _).bind fun _ _ => ?_
  exact (extends_readLocal lenient hstrict hcentral).bind fun scan _ => extends_refl _

end Stages

theorem ZipReader.open_eq (reader : ZipReader) {entryCapacity : Nat} {limits : ZipLimits} {hasProgress : Bool}
    (hlimits : limitsValid limits ≠ false) :
    reader.open entryCapacity limits hasProgress =
      (openInventory reader limits hasProgress entryCapacity).run >>= fun result => .done <| match result with
        | .ok inventory => (.ok, { reader.closed with inventory := inventory, limits := limits, isOpen := true })
        | .error failure =>
          (failure.status, { reader.closed with firstFailurePath := failure.note.getD reader.firstFailurePath }) := by
  rw [ZipReader.open, if_neg hlimits]
  exact congrArg _ (funext fun result => by cases result <;> rfl)

/-- Whatever its flags, the lenient reader opens every source that the strict one opens, through the same exchanges, and
establishes the same inventory. -/
theorem lenient_open_extends {σ : Type} {E : Env zipSignature σ} {strict : ZipReader} (hstrict : strict.Strict)
    (lenient : ZipReader) {entryCapacity : Nat} {limits : ZipLimits} {hasProgress : Bool} {s s' : σ}
    {events : List (Event zipSignature)} {opened : ZipReader}
    (hrun : Completes E (strict.open entryCapacity limits hasProgress) s events (.ok, opened) s') :
    ∃ exposed : ZipReader, Completes E (lenient.open entryCapacity limits hasProgress) s events (.ok, exposed) s' ∧
      exposed.isOpen = true ∧ exposed.inventory = opened.inventory := by
  by_cases hlimits : limitsValid limits = false
  · rw [ZipReader.open, if_pos hlimits] at hrun
    cases hrun
  rw [strict.open_eq hlimits, completes_map] at hrun
  obtain ⟨result, hrun, hresult⟩ := hrun
  cases result with
  | ok inventory =>
    obtain ⟨-, rfl⟩ := Prod.mk.inj hresult
    have hlenient := ((extends_openInventory lenient hstrict).completes hrun).1
    refine ⟨{ lenient.closed with inventory := inventory, limits := limits, isOpen := true }, ?_, rfl, rfl⟩
    rw [lenient.open_eq hlimits]
    exact completes_map.2 ⟨_, hlenient, rfl⟩
  | error failure =>
    have hfailure : Returned failure ([] ++ events) := Steps.history hrun (@opens_openInventory strict limits [] _ _)
    exact absurd (congrArg Prod.fst hresult) hfailure.1

/-- A reader with every flag set. -/
def lenientReader : ZipReader :=
  { ZipReader.initial with
    lenientExtraFields := true
    lenientPaths := true
    lenientArchive := true
    lenientRatio := true }

theorem lenient_open_extends_sample : ∃ exposed : ZipReader,
    AnyRun (lenientReader.open 8 {} false) openedSample.1 (.ok, exposed) ∧ exposed.isOpen = true ∧
      exposed.inventory = openedSample.2.1.2.inventory := by
  have hok : openedSample.2.1.1 = .ok := by decide +kernel
  have hrun : AnyRun (sampleReader.open 8 {} false) openedSample.1 openedSample.2.1 := run_anyRun _ _ _
  generalize openedSample = sample at hok hrun ⊢
  obtain ⟨events, ⟨status, opened⟩, u⟩ := sample
  obtain rfl : status = .ok := hok
  exact lenient_open_extends ⟨rfl, rfl, rfl, rfl⟩ _ hrun

end Bmx.Zip
