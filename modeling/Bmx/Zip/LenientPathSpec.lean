import Bmx.Base.Words
import Bmx.Zip.LenientOpenSpec

/-!
# Entries and the names they were read from

In every mode of the reader an accepted entry has the normalized form of the name that stands in its central record, as long as
that name has no NUL: the lenient reader measures the normalized name as a string.
-/

namespace Bmx.Zip

open Interaction Update Fallible List

/-! ### Names -/

variable {name : Bytes} {c : UInt8} {entry : ZipEntry} {previous : List ZipEntry} {form : Bytes → Bytes}
  {first : Nat}

theorem mem_intercalate {parts : List Bytes} (h : c ∈ [slash].intercalate parts) :
    c = slash ∨ ∃ part ∈ parts, c ∈ part := by
  induction parts with
  | nil => exact absurd h not_mem_nil
  | cons part parts ih =>
    cases parts with
    | nil => exact .inr ⟨part, mem_cons_self, by rwa [intercalate_singleton] at h⟩
    | cons next parts =>
      rw [intercalate_cons_cons, mem_append, mem_append, mem_singleton] at h
      rcases h with (h | h) | h
      · exact .inr ⟨part, mem_cons_self, h⟩
      · exact .inl h
      · refine (ih h).imp_right ?_
        rintro ⟨other, hother, hc⟩
        exact ⟨other, mem_cons_of_mem _ hother, hc⟩

theorem mem_lenientName (h : c ∈ lenientName name) : c = slash ∨ c ∈ name := by
  rw [lenientName, mem_append] at h
  rcases h with h | h
  · refine (mem_intercalate h).imp_right ?_
    rintro ⟨trimmed, htrimmed, hc⟩
    obtain ⟨part, hpart, rfl⟩ := mem_map.1 htrimmed
    have hkept : c ∈ part := by
      rw [trimmedPart, mem_reverse] at hc
      exact (dropWhile_sublist _).mem (mem_reverse.1 ((dropWhile_sublist _).mem hc))
    exact (splitOnP_pieces name part (mem_filter.1 hpart).1 c hkept).1
  · split at h
    · exact .inl (mem_singleton.1 h)
    · exact absurd h not_mem_nil

theorem lenientName_stored {maximum : Nat} (h : FatRelativePath entry.path maximum) :
    lenientName (storedName entry) = storedName entry :=
  (normalizeLenientPath_iff.1 (normalizeLenientPath_stored h (Nat.lt_succ_self _))).2.2.1

/-! ### Central records -/

/-- An entry has a form of the name it was read from. -/
def NamedAs (form : Bytes → Bytes) (name : Bytes) (entry : ZipEntry) : Prop := 0 ∉ name → storedName entry = form name

theorem checkCentralEntry_named {reader : ZipReader} {limits : ZipLimits} {header : CentralHeader}
    {compression : ZipCompression} {rawName : Bytes}
    (h : checkCentralEntry reader limits header compression rawName previous = .ok entry) :
    NamedAs lenientName rawName entry := by
  intro hnul
  have hadmitted := (checkCentralEntry_ok h).1
  simp only [checkCentralEntry, bind_eq_ok] at h
  obtain ⟨_, -, ⟨name, isDirectory⟩, hname, path, hpath, _, -, _, -, hpure⟩ := h
  cases hpure
  have hstored : name = storedName (centralEntry header compression path isDirectory) := by
    unfold checkedPath at hpath
    split at hpath
    · rename_i copied hcopied
      cases hpath
      exact (validateAndCopyPath_ok hcopied).2
    · cases hpath
  rw [← hstored]
  unfold checkedName at hname
  split at hname
  · split at hname
    · cases hname
    · rename_i normalized isDirectory' hnormalized
      obtain ⟨hcut, -⟩ := Prod.mk.inj (Except.ok.inj hname)
      obtain rfl := (normalizeLenientPath_iff.1 hnormalized).2.2.1
      rw [← hcut]
      refine takeWhile_eq_self_iff.2 fun c hc => bne_iff_ne.2 ?_
      rintro rfl
      exact (mem_lenientName hc).elim (by decide) hnul
  · obtain ⟨hraw, -⟩ := Prod.mk.inj (Except.ok.inj hname)
    rw [hraw, hstored, lenientName_stored hadmitted.path]

/-- The central record of an entry, from its first byte to the next record, whose name the entry has a form of. -/
def NamedRecord (form : Bytes → Bytes) (events : List (Event zipSignature)) (entry : ZipEntry) (first next : Nat) : Prop :=
  ∃ header name, header.length = centralHeaderSize ∧ Answered events first header ∧
    Answered events (first + centralHeaderSize) name ∧ name.length = (CentralHeader.parse header).nameLength ∧
    next = first + (CentralHeader.parse header).recordSize ∧ NamedAs form name entry

theorem NamedRecord.mono {past now : List (Event zipSignature)}
    {next : Nat} (h : NamedRecord form past entry first next) (hnow : past ⊆ now) :
    NamedRecord form now entry first next := by
  obtain ⟨header, name, hlength, hheader, hname, hrest⟩ := h
  exact ⟨header, name, hlength, hnow hheader, hnow hname, hrest⟩

variable {reader : ZipReader} {limits : ZipLimits} {past : List (Event zipSignature)}

variable {centralEnd : Nat} {hasProgress : Bool}

theorem opens_readCentralEntry_named {cursor : Nat} :
    Opens (readCentralEntry reader limits centralEnd cursor previous) past fun result now =>
      NamedRecord lenientName now result.1 cursor result.2 := by
  unfold readCentralEntry
  refine (opens_require (by decide)).bind fun _ _ _ _ => opens_readAt.bind fun header now _ hheader => ?_
  refine (opens_check checkCentralHeader_honest).bind fun compression _ hnow _ => ?_
  refine opens_readAt.bind fun rawName later hlater hname => ?_
  refine (opens_checkName checkCentralEntry_honest hname.2).bind fun entry last hlast hentry => ?_
  exact opens_pure ⟨header, rawName, hheader.1, hlast (hlater (hnow hheader.2)), hlast hname.2, hname.1, rfl,
    checkCentralEntry_named hentry⟩

theorem opens_readCentral_named {centralOffset entryCount remaining : Nat}
    {scan : CentralScan} (hscan : Laid (NamedRecord lenientName past) scan.entries centralOffset scan.cursor) :
    Opens (readCentral reader limits hasProgress centralEnd entryCount remaining scan) past fun scan' now =>
      Laid (NamedRecord lenientName now) scan'.entries centralOffset scan'.cursor := by
  induction remaining generalizing past scan with
  | zero => exact opens_pure hscan
  | succ remaining ih =>
    unfold readCentral
    refine opens_readCentralEntry_named.bind fun result now hnow hentry => ?_
    refine opens_openProgress.bind fun _ later hlater _ => ih ?_
    exact (hscan.mono fun _ _ _ h => h.mono (Subset.trans hnow hlater)).append (hentry.mono hlater)

theorem laid_named_described {events : List (Event zipSignature)} {entries : List ZipEntry}
    {last : Nat} : Laid (NamedRecord form events) (entries.map ZipEntry.described) first last ↔
      Laid (NamedRecord form events) entries first last := by
  induction entries generalizing first with
  | nil => rfl
  | cons entry rest ih => simp only [map_cons, Laid, ih]; rfl

theorem opens_openInventory_named {entryCapacity : Nat} :
    Opens (openInventory reader limits hasProgress entryCapacity) past fun inventory now =>
      Laid (NamedRecord lenientName now) inventory.entries inventory.centralDirectoryOffset
        (inventory.centralDirectoryOffset + inventory.centralDirectorySize) := by
  unfold openInventory
  refine (opens_ask .getSize trivial).bind fun size _ _ _ => ?_
  refine (opens_check (honest_orFail (by decide))).bind fun archiveSize _ _ _ => ?_
  refine (opens_require (by decide)).bind fun _ _ _ _ => opens_readEndRecord.bind fun result _ _ hresult => ?_
  obtain ⟨record, centralEnd⟩ := result
  have hstart (now : List (Event zipSignature)) : Laid (NamedRecord lenientName now)
      (⟨[], record.centralOffset, 0, 0⟩ : CentralScan).entries record.centralOffset record.centralOffset := rfl
  refine (opens_readCentral_named (hstart _)).bind fun central walked _ hcentral => ?_
  refine (opens_require (by decide)).bind fun _ _ hwalked hcursor => (opens_require (by decide)).bind fun _ _ hused _ => ?_
  refine (opens_readLocal (LocalWalk.start reader limits central.entries _)).bind fun scan now hlocal hscan => ?_
  refine (opens_require (by decide)).bind fun _ _ hnow _ => opens_pure ?_
  have hentries : scan.done.map ZipEntry.described = central.entries.map ZipEntry.described := by
    rw [← hscan.described, map_nil, append_nil]
  have hend : centralEnd = record.centralOffset + record.centralSize := hresult.2.2.1
  rw [hcursor, hend] at hcentral
  rw [← laid_named_described, hentries, laid_named_described]
  exact hcentral.mono fun _ _ _ h => ((h.mono hwalked).mono hused).mono (Subset.trans hlocal hnow)

/-! ### Open -/

/-- After `Open` every entry has the normalized form of the complete name in its central record, if that has no NUL, and no
two entries have the same path. -/
theorem open_names {entryCapacity : Nat} {hasProgress : Bool} {events : List (Event zipSignature)} {opened : ZipReader}
    (hrun : AnyRun (reader.open entryCapacity limits hasProgress) events (.ok, opened)) :
    Laid (NamedRecord lenientName events) opened.inventory.entries opened.inventory.centralDirectoryOffset
        (opened.inventory.centralDirectoryOffset + opened.inventory.centralDirectorySize) ∧
      opened.inventory.entries.Pairwise fun a b => a.path ≠ b.path := by
  have hnamed : (reader.open entryCapacity limits hasProgress).Holds (historyContract zipSignature ReadsArchive)
      (fun result now => result.1 = .ok → Laid (NamedRecord lenientName now) result.2.inventory.entries
        result.2.inventory.centralDirectoryOffset
        (result.2.inventory.centralDirectoryOffset + result.2.inventory.centralDirectorySize)) [] := by
    unfold ZipReader.open
    split
    · exact nofun
    · refine Program.Holds.bind opens_openInventory_named fun result now hresult => ?_
      cases result with
      | ok inventory => exact fun _ => hresult.2
      | error failure => exact fun h => absurd h hresult.1
  have hportable := ((hrun.holds (open_holds reader entryCapacity limits hasProgress [])).1 rfl).2.2.1
  exact ⟨hrun.holds hnamed rfl, hportable.distinct.imp fun hfold hpath => hfold (congrArg fold hpath)⟩

/-- A name in two parts, with a backslash between them and spaces around. -/
theorem open_names_sample : ∃ (events : List (Event zipSignature)) (opened : ZipReader),
    AnyRun (lenientReader.open 8 {} false) events (.ok, opened) ∧
      opened.inventory.entries.map (·.path) = [ascii "D/A"] ∧
      Laid (NamedRecord lenientName events) opened.inventory.entries opened.inventory.centralDirectoryOffset
        (opened.inventory.centralDirectoryOffset + opened.inventory.centralDirectorySize) := by
  let sample := (lenientReader.open 8 {} false).run (served (storedArchive [⟨ascii "\\D\\ A ", false, ascii "x"⟩])) ()
  have hok : sample.2.1.1 = .ok := by decide +kernel
  have hpaths : sample.2.1.2.inventory.entries.map (·.path) = [ascii "D/A"] := by decide +kernel
  have hrun : AnyRun (lenientReader.open 8 {} false) sample.1 sample.2.1 := run_anyRun _ _ _
  generalize sample = sample at hok hpaths hrun
  obtain ⟨events, ⟨status, opened⟩, u⟩ := sample
  obtain rfl : status = .ok := hok
  exact ⟨events, opened, hrun, hpaths, (open_names hrun).1⟩

/-- The parts of a name as they are, with one slash between them. -/
def separatedName (name : Bytes) : Bytes :=
  [slash].intercalate (nameParts name) ++ if endsInSeparator name then [slash] else []

/-- What the lenient reader says of an archive of one member. -/
def openedLenient (member : StoredMember) : ZipStatus × ZipReader :=
  ((lenientReader.open 8 {} false).run (served (storedArchive [member])) ()).2.1

/-- A file that is named `A.` in the archive is listed as `A`, and a name with a NUL is not refused. -/
theorem lenient_names_differ :
    (¬ ∀ member, (openedLenient member).1 = .ok →
      (openedLenient member).2.inventory.entries.map storedName = [separatedName member.name]) ∧
    ¬ ∀ member, 0 ∈ member.name → (openedLenient member).1 ≠ .ok := by
  constructor
  · intro h
    exact absurd (h ⟨ascii "A.", false, ascii "x"⟩ (by decide +kernel)) (by decide +kernel)
  · intro h
    exact h ⟨[65, 0, 66], false, ascii "x"⟩ (by decide) (by decide +kernel)

end Bmx.Zip
