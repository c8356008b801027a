import Bmx.SdCard.LayoutRule
import Mathlib.Data.Finset.Dedup
import Mathlib.Data.List.Lex
import Mathlib.Data.List.Sort

/-!
# The policy of a device

A device is told which paths it accepts, and in which mode, by a list of matchers that knows no boards and no
sources. More specific matchers come first.
-/

namespace Bmx.SdCard

inductive MatcherKind
  | exactPath | basenameExact | basenamePrefixSuffix | basenameSuffix | topRoot
  deriving DecidableEq

/-- A matcher without its mode. A field that it does not have is empty. -/
structure MatcherKey where
  kind : MatcherKind
  root : Text := []
  value : Text := []
  suffix : Text := []
  deriving DecidableEq

structure DeviceMatcher where
  key : MatcherKey
  mode : Mode
  deriving DecidableEq

def devicePattern (pattern root : Text) (mode : Mode) : Except SdLayoutError DeviceMatcher :=
  if '/' ∈ pattern ∨ '?' ∈ pattern ∨ pattern.count '*' > 1 then
    .error (.failed "cannot be represented by the target matcher" [pattern])
  else if '*' ∉ pattern then .ok ⟨⟨.basenameExact, root, pattern, []⟩, mode⟩
  else
    let front := pattern.takeWhile (· ≠ '*')
    let suffix := (pattern.dropWhile (· ≠ '*')).drop 1
    if front = [] then .ok ⟨⟨.basenameSuffix, root, [], suffix⟩, mode⟩
    else .ok ⟨⟨.basenamePrefixSuffix, root, front, suffix⟩, mode⟩

def deviceMatcher (rule : LayoutRule) : Except SdLayoutError (List DeviceMatcher) :=
  if rule.kind = .tree then
    let root := topRoot rule.target
    if rule.include = [] then .ok [⟨⟨.topRoot, root, [], []⟩, rule.mode⟩]
    else rule.include.mapM fun pattern => devicePattern pattern root rule.mode
  else if rule.target.take 3 = textOf "**/" then do return [← devicePattern (rule.target.drop 3) [] rule.mode]
  else if '*' ∈ rule.target ∨ '?' ∈ rule.target then do return [← devicePattern rule.target [] rule.mode]
  else .ok [⟨⟨.exactPath, [], rule.target, []⟩, rule.mode⟩]

/-- `_device_matcher_matches`. -/
def MatcherKey.matchesPath (key : MatcherKey) (path : Text) : Bool :=
  if key.root ≠ [] ∧ topRoot path ≠ key.root then false
  else
    match key.kind with
    | .exactPath => path = key.value
    | .topRoot => true
    | .basenameExact => basename path = key.value
    | .basenameSuffix => key.suffix.isSuffixOf (basename path)
    | .basenamePrefixSuffix => key.value.isPrefixOf (basename path) && key.suffix.isSuffixOf (basename path)

/-- `_DEVICE_MATCHER_RANK`. -/
def MatcherKind.rank : MatcherKind → Nat
  | .exactPath => 0
  | .basenameExact => 1
  | .basenamePrefixSuffix => 2
  | .basenameSuffix => 3
  | .topRoot => 4

/-- `_device_matcher_order_key`, with the rank as a text. -/
def MatcherKey.orderKey (key : MatcherKey) : List Text :=
  [[Char.ofNat key.kind.rank], key.root, key.value, key.suffix]

def MatcherKey.before (first second : MatcherKey) : Prop := first.orderKey < second.orderKey

instance (first second : MatcherKey) : Decidable (first.before second) :=
  inferInstanceAs (Decidable (first.orderKey < second.orderKey))

/-- `_basename_matchers_overlap`: an exact basename, or what it begins and ends with. -/
def MatcherKey.constraints (key : MatcherKey) : Option Text × Text × Text :=
  match key.kind with
  | .basenameExact => (some key.value, [], [])
  | .basenameSuffix => (none, [], key.suffix)
  | _ => (none, key.value, key.suffix)

def basenameMatchersOverlap (first second : MatcherKey) : Bool :=
  match first.constraints, second.constraints with
  | (some name, _, _), (some other, _, _) => name = other
  | (some name, _, _), (none, front, suffix) => front.isPrefixOf name && suffix.isSuffixOf name
  | (none, front, suffix), (some name, _, _) => front.isPrefixOf name && suffix.isSuffixOf name
  | (none, front, suffix), (none, otherFront, otherSuffix) =>
    (front.isPrefixOf otherFront || otherFront.isPrefixOf front) &&
      (suffix.isSuffixOf otherSuffix || otherSuffix.isSuffixOf suffix)

def deviceMatchersOverlap (first second : MatcherKey) : Bool :=
  if first.kind = .exactPath then second.matchesPath first.value
  else if second.kind = .exactPath then first.matchesPath second.value
  else if first.root ≠ [] ∧ second.root ≠ [] ∧ first.root ≠ second.root then false
  else if first.kind = .topRoot ∨ second.kind = .topRoot then true
  else basenameMatchersOverlap first second

/-- A matcher with the boards it comes from. -/
structure ScopedMatcher where
  matcher : DeviceMatcher
  boards : List Board

/-- `_validate_device_matcher_scopes`, of two matchers. -/
def scopesAgree (first second : ScopedMatcher) : Bool :=
  if second.matcher.key.kind = .exactPath ∨ first.matcher.mode = second.matcher.mode ∨
      !deviceMatchersOverlap first.matcher.key second.matcher.key then true
  else
    let (winner, loser) := if second.matcher.key.before first.matcher.key then (second, first) else (first, second)
    loser.boards.all fun board => winner.boards.contains board

def validateDeviceMatcherScopes : List ScopedMatcher → Except SdLayoutError Unit
  | [] => .ok ()
  | first :: rest =>
    if first.matcher.key.kind ≠ .exactPath ∧ rest.any (fun second => !scopesAgree first second) then
      .error (.failed "board-inconsistent overlapping device matchers" [])
    else validateDeviceMatcherScopes rest

/-- A rule's matcher joins those before it. -/
def addMatcher (scope : Scope) (matchers : List ScopedMatcher) (matcher : DeviceMatcher) :
    Except SdLayoutError (List ScopedMatcher) :=
  match matchers.find? fun previous => previous.matcher.key = matcher.key with
  | none => .ok (matchers ++ [⟨matcher, scope.boards⟩])
  | some previous =>
    if previous.matcher.mode ≠ matcher.mode then .error (.failed "device matcher has conflicting modes" [])
    else .ok (matchers.map fun other =>
      if other.matcher.key = matcher.key then ⟨matcher, other.boards ++ scope.boards⟩ else other)

/-- The matchers of a rule. A directory has none, and neither has a kernel. -/
def ruleMatchers (rule : LayoutRule) : Except SdLayoutError (List DeviceMatcher) :=
  if rule.kind = .directory ∨ rule.mode = .kernel then .ok [] else deviceMatcher rule

def collectMatchers (rules : List LayoutRule) : Except SdLayoutError (List ScopedMatcher) :=
  rules.foldlM (fun matchers rule => do (← ruleMatchers rule).foldlM (addMatcher rule.scope) matchers) []

/-- `min(broader, key=_device_matcher_order_key)`. -/
def firstMatcher (matchers : List DeviceMatcher) : Option DeviceMatcher :=
  matchers.foldl
    (fun winner matcher =>
      match winner with
      | none => some matcher
      | some best => if matcher.key.before best.key then some matcher else some best) none

/-- An exact path says nothing new where the other matchers come to its mode. -/
def saysNothing (matchers : List DeviceMatcher) (matcher : DeviceMatcher) : Bool :=
  matcher.key.kind = .exactPath ∧
    (firstMatcher (matchers.filter fun other =>
      other.key ≠ matcher.key ∧ other.key.matchesPath matcher.key.value)).any fun winner => winner.mode = matcher.mode

/-- The matchers in the order in which a device asks them. Their keys differ. -/
def inOrder (matchers : List DeviceMatcher) : List DeviceMatcher :=
  matchers.insertionSort fun first second => first.key.orderKey ≤ second.key.orderKey

def kernelTargetsUnchecked (layout : SdLayout) (board : Board) (includeOptional : Bool) : List Text :=
  (layout.rules.filter fun rule => rule.inScope board && rule.kind = .file && rule.mode = .kernel &&
    (includeOptional || !rule.optional)).map fun rule => rule.target

def ruleDirectories (rule : LayoutRule) : List Text :=
  if rule.kind ≠ .file ∨ '/' ∈ rule.target ∧ rule.target.take 3 ≠ textOf "**/" then [topRoot rule.target] else []

/-- What a device is told. A sorted list without duplicates is a set. -/
structure DeviceProjection where
  directories : Finset Text
  required : Board → Finset Text
  all : Board → Finset Text
  rules : List DeviceMatcher

def deviceProjectionDocument (layout : SdLayout) : Except SdLayoutError DeviceProjection := do
  let collected ← collectMatchers layout.rules
  validateDeviceMatcherScopes collected
  let values := collected.map ScopedMatcher.matcher
  return {
    directories := (layout.rules.flatMap ruleDirectories).toFinset
    required := fun board => (kernelTargetsUnchecked layout board false).toFinset
    all := fun board => (kernelTargetsUnchecked layout board true).toFinset
    rules := inOrder (values.filter fun matcher => !saysNothing values matcher) }

def deviceModeFromProjection (layout : SdLayout) (projection : DeviceProjection) (path : Text) : Option Mode :=
  if boards.any fun board => (kernelTargetsUnchecked layout board true).contains path then some .kernel
  else (projection.rules.find? fun matcher => matcher.key.matchesPath path).map DeviceMatcher.mode

def deviceModeForPath (layout : SdLayout) (path : Text) : Except SdLayoutError (Option Mode) := do
  return deviceModeFromProjection layout (← deviceProjectionDocument layout) path

end Bmx.SdCard
