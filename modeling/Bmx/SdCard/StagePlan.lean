import Bmx.SdCard.Validation

/-!
# Planning and assembling a stage

A plan says which files and which directories go onto the card. It is made from the rules that are selected and
from what their sources hold. Assembling a plan makes its directories with their parents, and then its files.
-/

namespace Bmx.SdCard

/-- What `lstat` finds at a path. A file has a size and a digest. -/
inductive SourceInfo
  | file (size : Nat) (sha256 : Text)
  | directory
  | link
  | special

/-- The host's files: what is at a path, and the relative paths of all that is below one. -/
structure HostFiles where
  lstat : Text → Option SourceInfo
  rglob : Text → List Text

/-- The host's files by a listing of them. What is above a file or a directory of the listing is not listed itself. -/
def HostFiles.listed (listing : List (Text × SourceInfo)) : HostFiles where
  lstat path := listing.lookup path
  rglob path := listing.filterMap fun entry => below path entry.1

structure PlannedFile where
  target : Text
  source : Text
  sourceReference : Text
  mode : Mode
  size : Nat
  sha256 : Text
  provenance : RuleProvenance
  deriving DecidableEq

structure StagePlan where
  board : Board
  profile : Profile
  features : List Text
  files : List PlannedFile
  directories : List Text
  missingOptionalTargets : List Text

/-- What is planned so far. -/
structure Staging where
  files : List PlannedFile := []
  directories : List Text := []
  missingOptional : List Text := []

/-- `tuple(sorted(set(texts)))`. -/
def sortedSet (texts : List Text) : List Text := texts.dedup.insertionSort (· ≤ ·)

def resolveSource (reference : Text) (roots : Text → Text) : Text :=
  let root := roots (topRoot reference)
  if '/' ∈ reference then join root (reference.drop ((topRoot reference).length + 1)) else root

def regularFileInfo (host : HostFiles) (path : Text) : Except SdLayoutError (Nat × Text) :=
  match host.lstat path with
  | some (.file size sha256) => .ok (size, sha256)
  | some _ => .error (.failed "is not a regular file" [path])
  | none => .error (.failed "cannot inspect" [path])

def addTarget (files : List PlannedFile) (planned : PlannedFile) : Except SdLayoutError (List PlannedFile) :=
  match files.find? fun previous => lower previous.target = lower planned.target with
  | some previous => .error (.failed "duplicate/FAT-colliding stage target" [planned.target, previous.target])
  | none => .ok (files ++ [planned])

def stageFile (host : HostFiles) (roots : Text → Text) (board : Board) (staging : Staging) (rule : LayoutRule)
    (reference : Text) : Except SdLayoutError Staging :=
  let source := resolveSource reference roots
  let target := effectiveTarget rule board
  if host.lstat source = none then
    if rule.optional then .ok { staging with missingOptional := target :: staging.missingOptional }
    else .error (.failed "required source is missing" [source])
  else do
    let info ← regularFileInfo host source
    let files ← addTarget staging.files ⟨target, source, reference, rule.mode, info.1, info.2, rule.provenance⟩
    return { staging with files := files }

/-- What is at a path below the source of a tree. -/
def stageMember (host : HostFiles) (board : Board) (rule : LayoutRule) (reference source : Text) (staging : Staging)
    (relative : Text) : Except SdLayoutError Staging :=
  match host.lstat (join source relative) with
  | none => .error (.failed "cannot inspect source tree member" [source, relative])
  | some .link => .error (.failed "source tree contains a symbolic link" [source, relative])
  | some .special => .error (.failed "source tree contains a special file" [source, relative])
  | some .directory =>
    if rule.include.isEmpty && !rule.exclude.any fun item => matchesGlob relative item then
      .ok { staging with directories := join (effectiveTarget rule board) relative :: staging.directories }
    else .ok staging
  | some (.file size sha256) =>
    if selectedByTree rule relative (some board) false then do
      let target ← fatPath (join (effectiveTarget rule board) relative) "resolved target"
      let files ← addTarget staging.files
        ⟨target, join source relative, join reference relative, rule.mode, size, sha256, rule.provenance⟩
      return { staging with files := files, directories := parents target ++ staging.directories }
    else .ok staging

def stageTree (host : HostFiles) (roots : Text → Text) (board : Board) (staging : Staging) (rule : LayoutRule)
    (reference : Text) : Except SdLayoutError Staging :=
  let source := resolveSource reference roots
  let target := effectiveTarget rule board
  match host.lstat source with
  | none =>
    if rule.optional then .ok { staging with missingOptional := target :: staging.missingOptional }
    else .error (.failed "required source tree is missing" [source])
  | some .directory =>
    -- A selected tree always creates its destination, even when empty.
    ((host.rglob source).insertionSort (· ≤ ·)).foldlM (stageMember host board rule reference source)
      { staging with directories := target :: staging.directories }
  | some _ => .error (.failed "source tree is not a real directory" [source])

def stageRule (host : HostFiles) (roots : Text → Text) (board : Board) (staging : Staging) (rule : LayoutRule) :
    Except SdLayoutError Staging :=
  match rule.kind, rule.source with
  | .directory, _ => .ok { staging with directories := effectiveTarget rule board :: staging.directories }
  | _, none => .ok staging
  | .file, some reference => stageFile host roots board staging rule reference
  | .tree, some reference => stageTree host roots board staging rule reference

/-- The parents of a file are directories, and the file itself is none. -/
def addParents (directories : List Text) (planned : PlannedFile) : Except SdLayoutError (List Text) :=
  let directories := parents planned.target ++ directories
  if lower planned.target ∈ directories.map lower then
    .error (.failed "stage path is both a file and directory" [planned.target])
  else .ok directories

def checkDirectory (files : List PlannedFile) (checked : List Text) (directory : Text) :
    Except SdLayoutError (List Text) := do
  let directory ← fatPath directory "resolved stage directory"
  match checked.find? fun previous => lower previous = lower directory ∧ previous ≠ directory with
  | some previous => .error (.failed "FAT-colliding stage directories" [previous, directory])
  | none =>
    if lower directory ∈ files.map fun planned => lower planned.target then
      .error (.failed "stage target is both file and directory" [directory])
    else return directory :: checked

/-- `plan_stage`, once the roots of the sources are known. -/
def planStage (layout : SdLayout) (board : Board) (host : HostFiles) (roots : Text → Text) (profile : Profile)
    (features : List Text) : Except SdLayoutError StagePlan := do
  let entries ← selectedLayoutEntries layout board profile features
  let staging ← entries.foldlM (stageRule host roots board) {}
  let directories ← staging.files.foldlM addParents staging.directories
  let _ ← (sortedSet directories).foldlM (checkDirectory staging.files) []
  return {
    board := board, profile := profile, features := sortedSet features
    files := staging.files.insertionSort fun first second => first.target ≤ second.target
    directories := sortedSet directories
    missingOptionalTargets := sortedSet staging.missingOptional }

/-- A volume tells names apart, or folds their case, as FAT does. -/
inductive Volume
  | exact | folding

def Volume.key : Volume → Text → Text
  | .exact, path => path
  | .folding, path => lower path

/-- A file with its size and its digest, or a directory. -/
structure CardEntry where
  path : Text
  content : Option (Nat × Text)
  deriving DecidableEq

def Volume.find (volume : Volume) (card : List CardEntry) (path : Text) : Option CardEntry :=
  card.find? fun entry => volume.key entry.path = volume.key path

/-- `mkdir`, where a directory may exist already. -/
def makeDirectory (volume : Volume) (card : List CardEntry) (path : Text) : Except SdLayoutError (List CardEntry) :=
  match volume.find card path with
  | none => .ok (card ++ [⟨path, none⟩])
  | some entry => if entry.content = none then .ok card else .error (.failed "exists as a file" [path, entry.path])

def makeDirectories (volume : Volume) (card : List CardEntry) (path : Text) : Except SdLayoutError (List CardEntry) :=
  ((parents path).reverse ++ [path]).foldlM (makeDirectory volume) card

/-- The copy of a file is verified. An existing file is written over. -/
def copyFile (volume : Volume) (host : HostFiles) (card : List CardEntry) (planned : PlannedFile) :
    Except SdLayoutError (List CardEntry) := do
  let card ← (parents planned.target).reverse.foldlM (makeDirectory volume) card
  let info ← regularFileInfo host planned.source
  if info ≠ (planned.size, planned.sha256) then .error (.failed "assembled target verification failed" [planned.target])
  else
    match volume.find card planned.target with
    | none => .ok (card ++ [⟨planned.target, some info⟩])
    | some entry =>
      if entry.content = none then .error (.failed "exists as a directory" [planned.target, entry.path])
      else .ok (card.map fun other => if other = entry then { other with content := some info } else other)

/-- `assemble_stage`, into an empty directory of the volume. -/
def assembleStage (volume : Volume) (host : HostFiles) (plan : StagePlan) : Except SdLayoutError (List CardEntry) := do
  let card ← plan.directories.foldlM (makeDirectories volume) []
  plan.files.foldlM (copyFile volume host) card

end Bmx.SdCard
