import Bmx.SdCard.Validation

/-!
# Review edits

A layout is edited one staged target at a time: its mode, whether it is staged, and where. A member of a tree is
carved out of it: the tree excludes it, and a file rule of its own stages it.
-/

namespace Bmx.SdCard

def Scope.only : Scope → Option Board
  | .both => none
  | .board single => some single

def replaceRule (layout : SdLayout) (old new : LayoutRule) : SdLayout :=
  { layout with rules := layout.rules.map fun rule => if rule = old then new else rule }

/-- A rule that an edit of a target in a scope may be about. -/
def isCandidate (scope : Scope) (target : Text) (rule : LayoutRule) : Bool :=
  (rule.scope = .both ∨ rule.scope = scope) && rule.source.isSome &&
    match rule.kind with
    | .file => (match scope with
        | .both => rule.target
        | .board board => effectiveTarget rule board) = target
    | .tree =>
      match below rule.target target with
      | some relative => selectedByTree rule relative scope.only true
      | none => false
    | .directory => false

/-- `_stage_rule_candidates`. A file rule goes before the tree from which its file is carved out. -/
def stageRuleCandidates (layout : SdLayout) (scope : Scope) (target : Text) : Except SdLayoutError (List LayoutRule) := do
  let safe ← fatPath target "stage override target"
  let candidates := layout.rules.filter (isCandidate scope safe)
  let exact := candidates.filter fun rule => rule.kind = .file
  return if exact = [] then candidates else exact

def editableRule (layout : SdLayout) (scope : Scope) (target : Text) : Except SdLayoutError LayoutRule := do
  match ← stageRuleCandidates layout scope target with
  | [rule] => return rule
  | _ => .error (.failed "stage target has no single editable source rule" [target])

def nextRuleOrdinal (layout : SdLayout) (scope : Scope) (kind : RuleKind) : Nat :=
  let ordinals := (layout.rules.filter fun rule => rule.scope = scope ∧ rule.kind = kind).map LayoutRule.ordinal
  match ordinals.max? with
  | none => 0
  | some ordinal => ordinal + 1

def Scope.rank : Scope → Nat
  | .both => 0
  | .board .pi4 => 1
  | .board .pi5 => 2

def RuleKind.rank : RuleKind → Nat
  | .file => 0
  | .tree => 1
  | .directory => 2

/-- By scope, by kind and by ordinal. -/
def LayoutRule.sortKey (rule : LayoutRule) : List Nat := [rule.scope.rank, rule.kind.rank, rule.ordinal]

def appendLayoutRule (layout : SdLayout) (added : LayoutRule) : SdLayout :=
  { layout with
    rules := (layout.rules ++ [added]).insertionSort fun first second => first.sortKey ≤ second.sortKey }

/-- `tuple(sorted(set(...)))`, of boards. -/
def sortedBoards (members : List Board) : List Board := boards.filter fun board => board ∈ members

/-- `tuple(sorted({*patterns, relative}))`. -/
def withPattern (patterns : List Text) (relative : Text) : List Text :=
  (patterns ++ [relative]).dedup.insertionSort (· ≤ ·)

def withoutPattern (patterns : List Text) (relative : Text) : List Text :=
  (patterns.filter fun pattern => pattern ≠ relative).dedup.insertionSort (· ≤ ·)

/-- The relative path of a member of a tree rule, and the reference of its source. -/
def treeMember (layout : SdLayout) (rule : LayoutRule) (target : Text) : Except SdLayoutError (Text × Text) :=
  match rule.source, below rule.target target with
  | some source, some relative => do
    return (relative, ← sourceReference (join source relative) "tree member source" (layout.sources.map Prod.fst))
  | _, _ => .error (.failed "stage target is not below editable tree" [target])

/-- The patterns that exclude members of a tree on one board of both, or on all its boards. -/
def LayoutRule.editPatterns (rule : LayoutRule) (board : Option Board) (edit : List Text → List Text) : LayoutRule :=
  match board with
  | none => { rule with exclude := edit rule.exclude }
  | some .pi4 => { rule with reviewExcludePi4 := edit rule.reviewExcludePi4 }
  | some .pi5 => { rule with reviewExcludePi5 := edit rule.reviewExcludePi5 }

/-- The board, if a rule for both boards is edited for one. -/
def boardSpecific (scope : Scope) (rule : LayoutRule) : Option Board := if rule.scope = .both then scope.only else none

/-- The rule of a target that is staged again, or is not staged any more. -/
def LayoutRule.enable (rule : LayoutRule) (scope : Scope) (target : Text) (enabled : Bool) : LayoutRule :=
  if rule.kind = .file then
    match boardSpecific scope rule with
    | some board =>
      let disabled := if enabled then rule.reviewDisabledFor.filter (· ≠ board) else board :: rule.reviewDisabledFor
      { rule with reviewDisabledFor := sortedBoards disabled }
    | none => { rule with enabled := enabled }
  else
    let relative := target.drop (rule.target.length + 1)
    rule.editPatterns (boardSpecific scope rule) fun patterns =>
      if enabled then withoutPattern patterns relative else withPattern patterns relative

def withStagePathEnabled (layout : SdLayout) (scope : Scope) (target : Text) (enabled : Bool) :
    Except SdLayoutError SdLayout := do
  let rule ← editableRule layout scope target
  return replaceRule layout rule (rule.enable scope target enabled)

/-- The layout in which a member of a tree has a rule of its own, and that rule. -/
def carveOut (layout : SdLayout) (scope : Scope) (rule : LayoutRule) (target : Text) :
    Except SdLayoutError (SdLayout × LayoutRule) := do
  let (relative, source) ← treeMember layout rule target
  if !rule.enabled ∨ rule.reviewDisabledFor.any (fun board => scope.only = some board) ∨
      !selectedByTree rule relative scope.only false then
    .error (.failed "tree member is not active" [target])
  else if boardSpecific scope rule = none ∧ scope ≠ rule.scope then
    .error (.failed "tree member is declared in another scope" [target])
  else
    let board := boardSpecific scope rule
    let changedTree := rule.editPatterns board fun patterns => withPattern patterns relative
    let explicit := {
      scope := scope, kind := .file, ordinal := nextRuleOrdinal layout scope .file
      target := target, mode := rule.mode, source := some source
      profiles := rule.profiles, features := rule.features, optional := rule.optional, enabled := rule.enabled
      reportMissing := rule.reportMissing
      reviewDisabledFor := if board.isSome then [] else rule.reviewDisabledFor }
    return (appendLayoutRule (replaceRule layout rule changedTree) explicit, explicit)

def LayoutRule.move (rule : LayoutRule) (target : Option Text) : Board → LayoutRule
  | .pi4 => { rule with reviewMovePi4 := target }
  | .pi5 => { rule with reviewMovePi5 := target }

def LayoutRule.moveOn (rule : LayoutRule) : Board → Option Text
  | .pi4 => rule.reviewMovePi4
  | .pi5 => rule.reviewMovePi5

def moveFile (layout : SdLayout) (scope : Scope) (rule : LayoutRule) (target : Text) : Except SdLayoutError SdLayout := do
  scope.boards.forM fun board => ensureReviewMoveAllowed layout rule board target
  let moved := if target = rule.target then none else some target
  return replaceRule layout rule (scope.boards.foldl (fun changed board => changed.move moved board) rule)

def withStagePathMoved (layout : SdLayout) (scope : Scope) (target newTarget : Text) : Except SdLayoutError SdLayout := do
  let rule ← editableRule layout scope target
  let safe ← fatPath newTarget "new stage target"
  let current ← fatPath target "stage move target"
  if safe = current then .error (.failed "new stage target is unchanged" [safe])
  else if rule.kind = .tree then
    let (carved, explicit) ← carveOut layout scope rule current
    moveFile carved scope explicit safe
  else if rule.kind ≠ .file then .error (.failed "stage target is not a movable file" [target])
  else moveFile layout scope rule safe

def restoreStagePathMove (layout : SdLayout) (scope : Scope) (target : Text) : Except SdLayoutError SdLayout := do
  let rule ← editableRule layout scope target
  if rule.kind ≠ .file then .error (.failed "stage target is not a reversible moved file" [target])
  else if scope.boards.any fun board => (rule.moveOn board).isNone then
    .error (.failed "stage target is not moved" [target])
  else return replaceRule layout rule (scope.boards.foldl (fun changed board => changed.move none board) rule)

end Bmx.SdCard
