import Bmx.Atari.DiskSets
import Bmx.Switch.BootFilesSpec

/-!
# What a disk set restores

Each line of a set is about one drive. A saved image is mounted again; a drive that was saved without one keeps what it
has, as in the menu of the emulator itself.
-/

namespace Bmx.Atari

open List Function

open Switch (cString)

/-! ### Lines -/

structure LineText (text : Bytes) : Prop where
  nul : 0 ∉ text
  line : lf ∉ text
  last : text.getLast? ≠ some cr
  short : text.length + 1 < setLineSize

/-- A name that a line of a set holds, of an image that mounts. -/
structure Savable (images : Images) (name : Bytes) : Prop extends LineText name where
  mounts : name.length < images.filenameMax
  opens : (images.openImage name).isSome

theorem lineText_filename {images : Images} {drive : SioDrive}
    (h : ∀ name readOnly, drive = .image name readOnly → Savable images name.1) : LineText drive.filename := by
  cases drive with
  | off | empty => exact ⟨by decide, by decide, by decide, by decide⟩
  | image name readOnly => exact (h name readOnly rfl).toLineText

theorem stripLineEnd_line {text : Bytes} (h : LineText text) : stripLineEnd (cString (text ++ [lf])) = text := by
  have hwhole : 0 ∉ text ++ [lf] := by
    intro hmem
    rcases mem_append.1 hmem with hmem | hmem
    · exact h.nul hmem
    · exact absurd (mem_singleton.1 hmem) (by decide)
  rw [Switch.cString_of_nul hwhole, stripLineEnd, reverse_append, reverse_singleton, singleton_append,
    dropWhile_cons_of_pos (by decide)]
  have hkeep : text.reverse.dropWhile (fun c => c = lf ∨ c = cr) = text.reverse := by
    cases hreverse : text.reverse with
    | nil => rfl
    | cons c rest =>
      have htext : text = rest.reverse ++ [c] := by
        rw [← reverse_reverse text, hreverse, reverse_cons]
      have hlf : c ≠ lf := fun hc => h.line (by rw [htext, hc]; simp)
      have hcr : c ≠ cr := fun hc => h.last (by rw [htext, hc]; simp)
      rw [dropWhile_cons_of_neg (by simp [hlf, hcr])]
  rw [hkeep, reverse_reverse]

/-- The calls of `fgets` on a set that was saved. -/
theorem lineReads_setText {drives : Fin 8 → SioDrive} (h : ∀ d, LineText (drives d).filename) :
    lineReads setLineSize (setText drives) = (List.finRange 8).map fun d => ((drives d).filename ++ [lf], false) := by
  have htexts : ∀ text ∈ (List.finRange 8).map fun d => (drives d).filename, lf ∉ text := by
    intro text htext
    obtain ⟨d, -, rfl⟩ := mem_map.1 htext
    exact (h d).line
  have hlines : fileLines (setText drives) = ((List.finRange 8).map fun d => (drives d).filename).map (· ++ [lf]) :=
    fileLines_texts htexts
  rw [lineReads_of_fits (by decide), hlines, map_map, map_map]
  · apply map_congr_left
    simp [readOf]
  · intro line hline
    rw [hlines, map_map] at hline
    obtain ⟨d, -, rfl⟩ := mem_map.1 hline
    have hshort := (h d).short
    simpa using hshort

/-! ### Drives -/

theorem drives_foldl {turn : DiskState → Fin 8 → DiskState} {next : Fin 8 → SioDrive → SioDrive}
    (hturn : ∀ s d, (turn s d).drives = Function.update s.drives d (next d (s.drives d))) {order : List (Fin 8)}
    (horder : order.Nodup) (s : DiskState) (e : Fin 8) :
    (order.foldl turn s).drives e = if e ∈ order then next e (s.drives e) else s.drives e := by
  induction order generalizing s with
  | nil => rfl
  | cons d order ih =>
    obtain ⟨hd, horder⟩ := nodup_cons.1 horder
    rw [foldl_cons, ih horder, hturn]
    by_cases hed : e = d
    · rw [hed, if_neg hd, if_pos mem_cons_self, update_self]
    · rw [update_of_ne hed]
      simp [hed]

/-- What loading makes of a drive: a saved image is mounted, a marker is passed over. -/
def restoredDrive (images : Images) (saved present : SioDrive) : SioDrive :=
  match saved with
  | .image name _ =>
    match images.openImage name.1 with
    | some readOnly => .image name readOnly
    | none => present
  | _ => present

theorem loadSetLine_saved {images : Images} {saved : SioDrive}
    (hsaved : ∀ name readOnly, saved = .image name readOnly → Savable images name.1) (s : DiskState) (d : Fin 8) :
    (loadSetLine images s (d, (saved.filename ++ [lf], false))).drives =
      Function.update s.drives d (restoredDrive images saved (s.drives d)) := by
  have hline := stripLineEnd_line (lineText_filename hsaved)
  cases saved with
  | off =>
    have hskip : ¬ (offMarker ≠ [] ∧ offMarker ≠ emptyMarker ∧ offMarker ≠ offMarker) := by decide
    change stripLineEnd (cString (offMarker ++ [lf])) = offMarker at hline
    simp only [loadSetLine, hline, SioDrive.filename, dif_neg hskip, restoredDrive, update_eq_self]
  | empty =>
    have hskip : ¬ (emptyMarker ≠ [] ∧ emptyMarker ≠ emptyMarker ∧ emptyMarker ≠ offMarker) := by decide
    change stripLineEnd (cString (emptyMarker ++ [lf])) = emptyMarker at hline
    simp only [loadSetLine, hline, SioDrive.filename, dif_neg hskip, restoredDrive, update_eq_self]
  | image name readOnly =>
    have hname := hsaved name readOnly rfl
    obtain ⟨access, haccess⟩ := Option.isSome_iff_exists.1 hname.opens
    change stripLineEnd (cString (name.1 ++ [lf])) = name.1 at hline
    have hmounts := Nat.not_le.2 hname.mounts
    simp only [loadSetLine, hline, SioDrive.filename, dif_pos name.2, sioMount, if_neg hmounts, haccess, restoredDrive]

theorem loadSetText_drives {images : Images} {saved : Fin 8 → SioDrive}
    (hsaved : ∀ d name readOnly, saved d = .image name readOnly → Savable images name.1) (present : DiskState) (d : Fin 8) :
    (loadSetText images present (setText saved)).drives d = restoredDrive images (saved d) (present.drives d) := by
  have hreads := lineReads_setText fun d => lineText_filename (hsaved d)
  have hzip := @zip_map' (Fin 8) _ _ id (fun d => ((saved d).filename ++ [lf], false)) (List.finRange 8)
  rw [List.map_id] at hzip
  rw [loadSetText, hreads, hzip, foldl_map]
  have hfold := drives_foldl (fun s d => loadSetLine_saved (hsaved d) s d) (nodup_finRange 8) present d
  rw [if_pos (mem_finRange d)] at hfold
  exact hfold

/-- The name that is tracked for a drive: that of its image, as far as the buffer holds it. -/
def trackedName : SioDrive → Bytes
  | .image name _ => name.1.take 255
  | _ => []

theorem retrackAllDrives_names (s : DiskState) (d : Fin 8) :
    (retrackAllDrives s).diskNames d = trackedName (s.drives d) := by
  unfold retrackAllDrives
  cases hdrive : s.drives d with
  | off | empty => simp [hdrive, SioDrive.filename, trackedName]
  | image name readOnly =>
    have hname : ¬ (name.1 = emptyMarker ∨ name.1 = offMarker) := fun h => h.elim name.2.2.1 name.2.2.2
    simp [hdrive, SioDrive.filename, trackedName, trackDiskName, hname]

/-! ### Saving and loading -/

/-- A set that was saved is loaded from the file as it was written: the saved images are mounted, the other drives are as
before, and the tracked names are those of the images in the drives. -/
theorem load_saved_set {opens : Card → Bytes → Bool} {images : Images} {saved : DiskState}
    (hsaved : ∀ d name readOnly, saved.drives d = .image name readOnly → Savable images name.1) {card written later : Card}
    {path loadPath : Bytes} (hsave : emuxAtariSaveSet opens saved card (some path) = (0, written))
    (hfile : later.read loadPath = written.read (ensureExt fixedSize path (ascii ".ats"))) (present : DiskState) :
    ∃ loaded, emuxAtariLoadSet images present later (some loadPath) = (0, loaded) ∧
      (∀ d name readOnly, saved.drives d = .image name readOnly →
        ∃ access, images.openImage name.1 = some access ∧ loaded.drives d = .image name access) ∧
      (∀ d, saved.drives d = .empty ∨ saved.drives d = .off → loaded.drives d = present.drives d) ∧
      ∀ d, loaded.diskNames d = trackedName (loaded.drives d) := by
  have hcontent : later.read loadPath = some (setText saved.drives) := by
    rw [hfile]
    simp only [emuxAtariSaveSet] at hsave
    split at hsave
    · obtain ⟨-, hwritten⟩ := Prod.mk.inj hsave
      rw [← hwritten]
      exact Card.read_write_self _ _ _
    · exact absurd (Prod.mk.inj hsave).1 (by decide)
  refine ⟨loadSetText images present (setText saved.drives), ?_, fun d name readOnly hd => ?_, fun d hd => ?_, fun d => ?_⟩
  · simp only [emuxAtariLoadSet, hcontent]
  · obtain ⟨access, haccess⟩ := Option.isSome_iff_exists.1 (hsaved d name readOnly hd).opens
    rw [loadSetText_drives hsaved, hd]
    exact ⟨access, haccess, by simp only [restoredDrive, haccess]⟩
  · rw [loadSetText_drives hsaved]
    rcases hd with hd | hd <;> simp only [hd, restoredDrive]
  · exact retrackAllDrives_names _ d

/-- An image in the first drive, the others off. -/
def oneImage (name : ImageName) : DiskState where
  drives := fun d => if d.val = 0 then .image name false else .off
  diskNames := fun d => if d.val = 0 then name.1 else []

def allOff : DiskState where
  drives := fun _ => .off
  diskNames := fun _ => []

def boulder : ImageName := ⟨ascii "SD:/disks/boulder.atr", by decide⟩

def boulderImages : Images where
  filenameMax := 1024
  openImage := fun name => if name = boulder.1 then some false else none

def emptyCard : Card where
  file := fun _ => none

theorem load_saved_boulder :
    ∃ loaded, emuxAtariLoadSet boulderImages allOff
        (emptyCard.write (ascii "SD:/sets/games.ats") (setText (oneImage boulder).drives))
        (some (ascii "SD:/sets/games.ats")) = (0, loaded) ∧
      (∀ d name readOnly, (oneImage boulder).drives d = .image name readOnly →
        ∃ access, boulderImages.openImage name.1 = some access ∧ loaded.drives d = .image name access) ∧
      (∀ d, (oneImage boulder).drives d = .empty ∨ (oneImage boulder).drives d = .off →
        loaded.drives d = allOff.drives d) ∧
      ∀ d, loaded.diskNames d = trackedName (loaded.drives d) := by
  have hsaved : ∀ d name readOnly, (oneImage boulder).drives d = .image name readOnly → Savable boulderImages name.1 := by
    intro d name readOnly hd
    by_cases hfirst : d = 0
    · have hname : SioDrive.image boulder false = .image name readOnly := by
        rw [← hd, oneImage, hfirst]
        rfl
      rw [← (SioDrive.image.inj hname).1]
      exact ⟨⟨by decide, by decide, by decide, by decide⟩, by decide, by decide⟩
    · simp [oneImage, hfirst] at hd
  have hfixed : ensureExt fixedSize (ascii "SD:/sets/games") (ascii ".ats") = ascii "SD:/sets/games.ats" := by
    decide
  have hsave : emuxAtariSaveSet (fun _ _ => true) (oneImage boulder) emptyCard (some (ascii "SD:/sets/games")) =
      (0, emptyCard.write (ascii "SD:/sets/games.ats") (setText (oneImage boulder).drives)) := by
    simp only [emuxAtariSaveSet, hfixed, if_true]
  exact load_saved_set hsaved hsave (by rw [hfixed]) allOff

/-- That a set restores all that was saved, also that a drive had no image. -/
def RoundTrips (opens : Card → Bytes → Bool) (images : Images) (saved present : DiskState) (card : Card) (path : Bytes) :
    Prop :=
  ∀ written loaded, emuxAtariSaveSet opens saved card (some path) = (0, written) →
    emuxAtariLoadSet images present written (some (ensureExt fixedSize path (ascii ".ats"))) = (0, loaded) →
      (∀ d name readOnly, saved.drives d = .image name readOnly → ∃ access, loaded.drives d = .image name access) ∧
      (∀ d, saved.drives d = .empty ∨ saved.drives d = .off → ∀ name readOnly, loaded.drives d ≠ .image name readOnly) ∧
      ∀ d, loaded.diskNames d = trackedName (loaded.drives d)

/-- A set with all drives off leaves the image that is in a drive. -/
theorem empty_set_leaves_image :
    ¬ RoundTrips (fun _ _ => true) boulderImages allOff (oneImage boulder) emptyCard (ascii "SD:/sets/none.ats") := by
  intro h
  have hread : (emptyCard.write (ensureExt fixedSize (ascii "SD:/sets/none.ats") (ascii ".ats")) (setText allOff.drives)).read
      (ensureExt fixedSize (ascii "SD:/sets/none.ats") (ascii ".ats")) = some (setText allOff.drives) :=
    Card.read_write_self _ _ _
  obtain ⟨-, hnone, -⟩ := h _ (loadSetText boulderImages (oneImage boulder) (setText allOff.drives)) rfl
    (by simp only [emuxAtariLoadSet, hread])
  apply hnone 0 (Or.inr rfl) boulder false
  rw [loadSetText_drives (fun d name readOnly hd => absurd hd (by simp [allOff]))]
  rfl

end Bmx.Atari
