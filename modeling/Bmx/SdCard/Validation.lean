import Bmx.SdCard.Load

/-!
# Checking a layout

A layout is checked for each board, whatever the profile and the features, and without its sources.
-/

namespace Bmx.SdCard

/-- `target.rsplit(".", 1)`, of a target with a dot. -/
def kernelParts (target : Text) : Text × Text :=
  let machine := (target.reverse.takeWhile (· ≠ '.')).reverse
  (target.take (target.length - machine.length - 1), machine)

def checkKernelTarget (target : Text) : Except SdLayoutError Unit :=
  if '/' ∈ target ∨ !(target.tails.any (textOf ".img.").isPrefixOf) then
    .error (.failed "invalid top-level machine kernel target" [target])
  else if (kernelParts target).2 = [] ∨ !(kernelParts target).2.all Char.isAlphanum then
    .error (.failed "invalid kernel machine suffix" [target])
  else .ok ()

def checkKernels (layout : SdLayout) (board : Board) : Except SdLayoutError Unit := do
  let required := (kernelTargetsUnchecked layout board false).dedup
  let all := (kernelTargetsUnchecked layout board true).dedup
  if required.length < 7 ∨ all.length < required.length then
    .error (.failed "must define at least seven required kernels" [])
  else
    (all.insertionSort (· ≤ ·)).forM checkKernelTarget
    if (all.map fun target => (kernelParts target).1).dedup.length ≠ 1 ∨
        textOf "c64" ∉ all.map fun target => (kernelParts target).2 then
      .error (.failed "kernel targets must share one base and include c64" [])
    else return

/-- A file does not have the target of one seen before it. -/
def seeFileTarget (seen : List LayoutRule) (rule : LayoutRule) : Except SdLayoutError (List LayoutRule) :=
  match seen.find? fun previous => lower previous.target = lower rule.target with
  | some previous => .error (.failed "duplicate/FAT-colliding file targets" [previous.target, rule.target])
  | none => .ok (seen ++ [rule])

def checkFileTargets (layout : SdLayout) (board : Board) : Except SdLayoutError Unit := do
  let files := layout.rules.filter fun rule =>
    rule.inScope board && rule.enabled && rule.source.isSome && rule.kind = .file
  let _ ← files.foldlM seeFileTarget []
  return

/-- What stands in the way of a rule's move to a target. -/
def blocksMove (rule : LayoutRule) (board : Board) (target : Text) (other : LayoutRule) : Option SdLayoutError :=
  if other.provenance = rule.provenance ∨ other.source = none ∨ !other.inScope board then none
  else
    let effective := effectiveTarget other board
    match other.kind with
    | .file =>
      if lower effective = lower target then
        some (.failed "review move target collides with another staged file" [target])
      else none
    | .directory =>
      if lower effective = lower target then
        some (.failed "review move target collides with a staged directory" [target])
      else none
    | .tree =>
      match below effective target with
      | some relative =>
        if selectedByTree other relative (some board) false then
          some (.failed "review move target overlaps staged tree" [effective, target])
        else none
      | none => none

def ensureReviewMoveAllowed (layout : SdLayout) (rule : LayoutRule) (board : Board) (target : Text) :
    Except SdLayoutError Unit := do
  let actual ← deviceModeForPath layout target
  if actual ≠ some rule.mode then .error (.failed "review move target is not accepted as its mode" [target])
  else
    match layout.rules.findSome? (blocksMove rule board target) with
    | some error => .error error
    | none => return

def checkMoves (layout : SdLayout) (rule : LayoutRule) : Except SdLayoutError Unit := do
  if let some target := rule.reviewMovePi4 then ensureReviewMoveAllowed layout rule .pi4 target
  if let some target := rule.reviewMovePi5 then ensureReviewMoveAllowed layout rule .pi5 target

/-- A rule that is in effect on a board, for some profile and some features. -/
def LayoutRule.activeOn (rule : LayoutRule) (board : Board) : Bool :=
  rule.enabled && rule.inScope board && !rule.reviewDisabledFor.contains board

/-- A file that is known before its source is looked at conflicts with no other such path. -/
def checkStructureOf (files directories : List LayoutRule) (board : Board) (rule : LayoutRule) :
    Except SdLayoutError Unit :=
  let key := lower (effectiveTarget rule board)
  match files.find? fun other =>
      other.provenance ≠ rule.provenance ∧ (below key (lower (effectiveTarget other board))).isSome with
  | some other =>
    .error (.failed "stage file is an ancestor" [effectiveTarget rule board, effectiveTarget other board])
  | none =>
    match directories.find? fun other =>
        lower (effectiveTarget other board) = key ∨ (below key (lower (effectiveTarget other board))).isSome with
    | some other =>
      .error (.failed "stage file conflicts with directory" [effectiveTarget rule board, effectiveTarget other board])
    | none => .ok ()

def validateKnownStageStructure (layout : SdLayout) : Except SdLayoutError Unit :=
  boards.forM fun board =>
    let selected := layout.rules.filter fun rule => rule.activeOn board
    let files := selected.filter fun rule => rule.kind = .file && rule.source.isSome
    let directories := selected.filter fun rule => rule.kind = .directory || rule.kind = .tree && rule.source.isSome
    files.forM (checkStructureOf files directories board)

def validateStaticLayout (layout : SdLayout) : Except SdLayoutError Unit := do
  boards.forM (checkKernels layout)
  boards.forM (checkFileTargets layout)
  layout.rules.forM (checkMoves layout)
  validateKnownStageStructure layout

/-- The mode in which a rule stages a target on a board. -/
def stagedMode (board : Board) (target : Text) (rule : LayoutRule) : Option Mode :=
  if rule.source = none ∨ !rule.activeOn board then none
  else
    match rule.kind with
    | .file => if effectiveTarget rule board = target then some rule.mode else none
    | .directory => none
    | .tree =>
      match below (effectiveTarget rule board) target with
      | some relative => if selectedByTree rule relative (some board) false then some rule.mode else none
      | none => none

def stagedModesForTarget (layout : SdLayout) (board : Board) (target : Text) : List Mode :=
  (layout.rules.filterMap (stagedMode board target)).dedup

/-- The targets and moves of a file rule that are no patterns. -/
def exactTargets (rule : LayoutRule) : List Text :=
  if rule.kind ≠ .file ∨ '*' ∈ rule.target ∨ '?' ∈ rule.target then []
  else rule.target :: (rule.reviewMovePi4.toList ++ rule.reviewMovePi5.toList)

def checkStagedMode (layout : SdLayout) (projection : DeviceProjection) (board : Board) (target : Text) :
    Except SdLayoutError Unit :=
  match stagedModesForTarget layout board target with
  | [] => .ok ()
  | [mode] =>
    if deviceModeFromProjection layout projection target = some mode then .ok ()
    else .error (.failed "board-inconsistent device mode" [target])
  | _ => .error (.failed "board-inconsistent staged modes" [target])

def validateDeviceModeConsistency (layout : SdLayout) : Except SdLayoutError Unit := do
  let projection ← deviceProjectionDocument layout
  boards.forM fun board => (layout.rules.flatMap exactTargets).forM (checkStagedMode layout projection board)

def validatedLayout (layout : SdLayout) : Except SdLayoutError SdLayout := do
  validateStaticLayout layout
  validateDeviceModeConsistency layout
  return layout

/-- `load_sd_layout`, of the document of the file. -/
def loadSdLayout (document : TomlValue) : Except SdLayoutError SdLayout := do
  validatedLayout (← readLayout document)

def entryOf (target mode : Text) (more : TomlTable) : TomlValue :=
  .table ([(textOf "to", .string target), (textOf "mode", .string mode)] ++ more)

/-- The kernels that each layout needs at least. -/
def sevenKernels : List TomlValue :=
  [textOf "c64", textOf "c128", textOf "vic20", textOf "plus4", textOf "pet", textOf "scpu64", textOf "cbm2"].map
    fun machine => entryOf (textOf "kernel.img." ++ machine) (textOf "kernel") []

/-- A document with two sources and with entries for both boards, besides the kernels. -/
def documentOf (files trees directories : List TomlValue) : TomlValue :=
  .table [
    (textOf "format", .string (textOf "bmx-sd-layout-v1")),
    (textOf "default", .string (textOf "deny")),
    (textOf "sources", .table [
      (textOf "first", .string (textOf "/first")),
      (textOf "second", .string (textOf "/second"))]),
    (textOf "both", .table [
      (textOf "file", .array (sevenKernels ++ files)),
      (textOf "tree", .array trees),
      (textOf "directory", .array directories)])]

def kernelRule (machine : String) (ordinal : Nat) : LayoutRule where
  scope := .both
  kind := .file
  ordinal := ordinal
  target := textOf "kernel.img." ++ textOf machine
  mode := .kernel

/-- The layout of such a document, with its rules besides the kernels. -/
def layoutOf (rules : List LayoutRule) : SdLayout where
  sources := [(textOf "first", textOf "/first"), (textOf "second", textOf "/second")]
  rules := [kernelRule "c64" 0, kernelRule "c128" 1, kernelRule "vic20" 2, kernelRule "plus4" 3, kernelRule "pet" 4,
    kernelRule "scpu64" 5, kernelRule "cbm2" 6] ++ rules

/-- A tree that goes to one destination, as an entry and as a rule. -/
def gamesEntry (source : String) : TomlValue :=
  entryOf (textOf "games") (textOf "keep") [(textOf "from", .string (textOf source))]

def gamesRule (source : String) (ordinal : Nat) : LayoutRule where
  scope := .both
  kind := .tree
  ordinal := ordinal
  target := textOf "games"
  mode := .keep
  source := some (textOf source)

/-- The roots of these sources. -/
def rootsOf (name : Text) : Text := '/' :: name

end Bmx.SdCard
