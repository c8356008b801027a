import Bmx.SdCard.Glob

/-!
# Rules of a layout

A rule puts a file, a tree or a directory onto the card. It says for which boards, profiles and features it
applies, and in which mode a device keeps what it names.
-/

namespace Bmx.SdCard

inductive Board
  | pi4 | pi5
  deriving DecidableEq, Repr

def boards : List Board := [.pi4, .pi5]

inductive Scope
  | both
  | board (board : Board)
  deriving DecidableEq, Repr

def scopes : List Scope := [.both, .board .pi4, .board .pi5]

def Scope.boards : Scope → List Board
  | .both => SdCard.boards
  | .board single => [single]

inductive Profile
  | release | debug
  deriving DecidableEq

inductive Mode
  | config | kernel | keep | metadata | replace
  deriving DecidableEq

inductive RuleKind
  | file | tree | directory
  deriving DecidableEq, Repr

/-- `f"{scope}.{kind}[{ordinal}]"`, by its parts. -/
structure RuleProvenance where
  scope : Scope
  kind : RuleKind
  ordinal : Nat
  deriving DecidableEq

structure LayoutRule where
  scope : Scope
  kind : RuleKind
  ordinal : Nat
  target : Text
  mode : Mode
  source : Option Text := none
  «include» : List Text := []
  exclude : List Text := []
  profiles : List Profile := []
  features : List Text := []
  optional : Bool := false
  enabled : Bool := true
  reportMissing : Bool := true
  reviewDisabledFor : List Board := []
  reviewExcludePi4 : List Text := []
  reviewExcludePi5 : List Text := []
  reviewMovePi4 : Option Text := none
  reviewMovePi5 : Option Text := none
  deriving DecidableEq

def LayoutRule.provenance (rule : LayoutRule) : RuleProvenance := ⟨rule.scope, rule.kind, rule.ordinal⟩

/-- `rule.scope in {"both", board}`. -/
def LayoutRule.inScope (rule : LayoutRule) (board : Board) : Bool := rule.scope = .both ∨ rule.scope = .board board

/-- The aliases of the sources with their templates, and the rules in the order of scopes and kinds. -/
structure SdLayout where
  sources : List (Text × Text)
  rules : List LayoutRule

def applies (rule : LayoutRule) (board : Board) (profile : Profile) (features : List Text) : Bool :=
  rule.enabled && rule.inScope board && !rule.reviewDisabledFor.contains board &&
    (rule.profiles.isEmpty || rule.profiles.contains profile) && rule.features.all fun feature => features.contains feature

def effectiveTarget (rule : LayoutRule) (board : Board) : Text :=
  match board with
  | .pi4 => rule.reviewMovePi4.getD rule.target
  | .pi5 => rule.reviewMovePi5.getD rule.target

/-- The patterns that exclude members on a board, or whatever the board. -/
def LayoutRule.excludesFor (rule : LayoutRule) : Option Board → List Text
  | none => rule.exclude
  | some .pi4 => rule.exclude ++ rule.reviewExcludePi4
  | some .pi5 => rule.exclude ++ rule.reviewExcludePi5

def selectedByTree (rule : LayoutRule) (relative : Text) (board : Option Board) (ignoreExcludes : Bool) : Bool :=
  let included := rule.include.isEmpty || rule.include.any fun item => matchesGlob relative item
  let excluded := !ignoreExcludes && (rule.excludesFor board).any fun item => matchesGlob relative item
  included && !excluded

/-- The path of a target below a directory: `target[len(directory) + 1:]`, where it starts with the directory. -/
def below (directory target : Text) : Option Text :=
  if (directory ++ ['/']).isPrefixOf target then some (target.drop (directory.length + 1)) else none

theorem below_eq_some {directory target relative : Text} :
    below directory target = some relative ↔ target = join directory relative := by
  unfold below join
  split_ifs with hbelow
  · obtain ⟨rest, rfl⟩ := List.isPrefixOf_iff_prefix.1 hbelow
    simp
  · constructor
    · exact nofun
    · rintro rfl
      exact absurd (List.isPrefixOf_iff_prefix.2 ⟨relative, by simp⟩) hbelow

@[simp] theorem below_join (directory relative : Text) : below directory (join directory relative) = some relative :=
  below_eq_some.2 rfl

def selectedLayoutEntries (layout : SdLayout) (board : Board) (profile : Profile) (features : List Text) :
    Except SdLayoutError (List LayoutRule) :=
  if features.any fun feature => !aliasName feature then .error (.failed "feature names must use lowercase alias syntax" [])
  else .ok (layout.rules.filter fun rule => applies rule board profile features)

structure StagePathProvenance where
  target : Text
  sourceReference : Option Text
  mode : Mode
  rule : LayoutRule

/-- What a rule says of a target, if it claims it. -/
def claimOf (board : Board) (target : Text) (rule : LayoutRule) : Option StagePathProvenance :=
  match rule.kind with
  | .file | .directory =>
    if effectiveTarget rule board = target ∧ (rule.source.isSome ∨ rule.kind = .directory) then
      some ⟨target, rule.source, rule.mode, rule⟩
    else none
  | .tree => do
    let source ← rule.source
    let relative ← below (effectiveTarget rule board) target
    if selectedByTree rule relative (some board) false then
      some ⟨target, some (join source relative), rule.mode, rule⟩
    else none

def stagePathProvenance (layout : SdLayout) (board : Board) (target : Text) (profile : Profile)
    (features : List Text) : Except SdLayoutError (Option StagePathProvenance) := do
  let safe ← fatPath target "stage provenance target"
  let entries ← selectedLayoutEntries layout board profile features
  match entries.filterMap (claimOf board safe) with
  | [] => return none
  | [found] => return some found
  | _ => .error (.failed "stage target has multiple provenance rules" [safe])

end Bmx.SdCard
