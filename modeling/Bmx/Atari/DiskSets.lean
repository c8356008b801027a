import Mathlib.Data.List.FinRange
import Bmx.Base.CardFiles
import Bmx.Base.LineReads
import Bmx.Switch.BootFiles

/-!
# Disk sets of the Atari drives

A set is a text of eight lines, one for each drive, with the name of its image or a marker. Loading a set mounts the
images that it names and passes over the markers.
-/

namespace Bmx.Atari

open Switch (cString)

def emptyMarker : Bytes := ascii "Empty"
def offMarker : Bytes := ascii "Off"

/-- The name of an image: it cannot be taken for a drive without one. -/
abbrev ImageName := { name : Bytes // name ≠ [] ∧ name ≠ emptyMarker ∧ name ≠ offMarker }

/-- `SIO_drive_status` with `SIO_filename`. -/
inductive SioDrive
  | off
  | empty
  | image (name : ImageName) (readOnly : Bool)

/-- `SIO_filename` -/
def SioDrive.filename : SioDrive → Bytes
  | .off => offMarker
  | .empty => emptyMarker
  | .image name _ => name.1

/-- The drives, and the names that are tracked for them. -/
structure DiskState where
  drives : Fin 8 → SioDrive
  diskNames : Fin 8 → Bytes

/-- What a mount finds: the length that names may not reach, and whether an image opens and only for reading. -/
structure Images where
  filenameMax : Nat
  openImage : Bytes → Option Bool

def sioDismount : SioDrive → SioDrive
  | .image _ _ => .empty
  | drive => drive

/-- `SIO_Mount` of one drive, with whether it succeeds. -/
def sioMount (images : Images) (drive : SioDrive) (filename : ImageName) : SioDrive × Bool :=
  if images.filenameMax ≤ filename.1.length then (drive, false)
  else
    match images.openImage filename.1 with
    | none => (sioDismount drive, false)
    | some readOnly => (.image filename readOnly, true)

/-- `track_disk_name` of one drive. No name is given as an empty one. -/
def trackDiskName (filename : Bytes) : Bytes := filename.take 255

def retrackAllDrives (s : DiskState) : DiskState :=
  { s with
    diskNames := fun d =>
      let filename := (s.drives d).filename
      if filename = emptyMarker ∨ filename = offMarker then [] else trackDiskName filename }

/-! ### Saving -/

def fixedSize : Nat := 300

def ensureExt (size : Nat) (path ext : Bytes) : Bytes :=
  let dst := path.take (size - 1)
  if (46 : UInt8) ∉ (splitPath dst).2 then dst ++ ext.take (size - dst.length - 1) else dst

/-- What `emux_atari_save_set` writes. -/
def setText (drives : Fin 8 → SioDrive) : Bytes :=
  (((List.finRange 8).map fun d => (drives d).filename).map (· ++ [lf])).flatten

/-- `emux_atari_save_set` on a card on which a file may open for writing. -/
def emuxAtariSaveSet (opens : Card → Bytes → Bool) (s : DiskState) (card : Card) (path : Option Bytes) : Int × Card :=
  match path with
  | none => (-1, card)
  | some path =>
    let fixed := ensureExt fixedSize path (ascii ".ats")
    if opens card fixed then (0, card.write fixed (setText s.drives)) else (-1, card)

/-! ### Loading -/

def setLineSize : Nat := 300

def stripLineEnd (line : Bytes) : Bytes := (line.reverse.dropWhile fun c => c = lf ∨ c = cr).reverse

/-- The loop of `emux_atari_load_set`, once: the drive of the line and the name that is tracked for it. -/
def loadSetLine (images : Images) (s : DiskState) (entry : Fin 8 × (Bytes × Bool)) : DiskState :=
  let (d, read) := entry
  let line := stripLineEnd (cString read.1)
  if h : line ≠ [] ∧ line ≠ emptyMarker ∧ line ≠ offMarker then
    let (drive, ok) := sioMount images (s.drives d) ⟨line, h⟩
    { drives := Function.update s.drives d drive
      diskNames := if ok then Function.update s.diskNames d (trackDiskName line) else s.diskNames }
  else s

/-- The loop ends after eight lines or at the end of the file. -/
def loadSetText (images : Images) (s : DiskState) (content : Bytes) : DiskState :=
  retrackAllDrives (((List.finRange 8).zip (lineReads setLineSize content)).foldl (loadSetLine images) s)

def emuxAtariLoadSet (images : Images) (s : DiskState) (card : Card) (path : Option Bytes) : Int × DiskState :=
  match path with
  | none => (-1, s)
  | some path =>
    match card.read path with
    | none => (-1, s)
    | some content => (0, loadSetText images s content)

end Bmx.Atari
