import Bmx.SdCard.DeviceProjection

/-!
# Loading a layout

A layout is written as a TOML document. It is read strictly, and then checked as a whole: its kernels, the
targets and moves of its files, and that a device takes what is staged in the mode in which it is staged.
-/

namespace Bmx.SdCard

/-- A value of a document. Numbers and dates are never asked for. -/
inductive TomlValue
  | string (value : Text)
  | boolean (value : Bool)
  | array (values : List TomlValue)
  | table (fields : List (Text × TomlValue))
  | other

/-- The fields of a table, in the order of the document. -/
abbrev TomlTable := List (Text × TomlValue)

def TomlTable.field (table : TomlTable) (name : String) : Option TomlValue := table.lookup (textOf name)

/-- A field is there, and is this text. -/
def TomlTable.holds (table : TomlTable) (name value : String) : Bool :=
  match table.field name with
  | some (.string found) => found == textOf value
  | _ => false

def firstOf (names : List Text) : Option Text := (names.insertionSort (· ≤ ·)).head?

/-- `_exact_keys`. The required names are given in their order. -/
def exactKeys (value : TomlValue) (required : List String) (place : String) (optional : List String) :
    Except SdLayoutError TomlTable :=
  match value with
  | .table fields =>
    match required.find? fun name => (TomlTable.field fields name).isNone with
    | some name => .error (.missingField place name)
    | none =>
      match firstOf ((fields.map Prod.fst).filter fun name => name ∉ (required ++ optional).map textOf) with
      | some name => .error (.unknownField place name)
      | none => .ok fields
  | _ => .error (.notTable place)

/-- `_text`. -/
def textValue (value : TomlValue) (place : String) : Except SdLayoutError Text :=
  match value with
  | .string value => text value place
  | _ => .error (.notText place)

def boolean (value : TomlValue) (place : String) : Except SdLayoutError Bool :=
  match value with
  | .boolean value => .ok value
  | _ => .error (.notBoolean place)

def itemPlace (place : String) (index : Nat) : String := place ++ "[" ++ toString index ++ "]"

/-- The items of a list that is already read: each once, in order, and allowed. -/
def checkItems (items : List Text) (place : String) (allowed : Option (List Text)) : Except SdLayoutError (List Text) :=
  if ¬items.Nodup then .error (.duplicateItem place)
  else if ¬items.Pairwise (· ≤ ·) then .error (.notSorted place)
  else
    match allowed with
    | none => .ok items
    | some allowed =>
      match items.find? fun item => item ∉ allowed with
      | some item => .error (.unknownValue place item)
      | none => .ok items

def stringList (value : TomlValue) (place : String) (allowed : Option (List Text)) (allowEmpty : Bool) :
    Except SdLayoutError (List Text) :=
  match value with
  | .array values =>
    if values.isEmpty && !allowEmpty then .error (.notArray place)
    else do
      let items ← values.zipIdx.mapM fun item => textValue item.1 (itemPlace place item.2)
      checkItems items place allowed
  | _ => .error (.notArray place)

def Board.name : Board → String
  | .pi4 => "pi4"
  | .pi5 => "pi5"

def Scope.name : Scope → String
  | .both => "both"
  | .board single => single.name

def RuleKind.name : RuleKind → String
  | .file => "file"
  | .tree => "tree"
  | .directory => "directory"

/-- `MODES`. -/
def modeNames : List (Text × Mode) :=
  [(textOf "config", .config), (textOf "kernel", .kernel), (textOf "keep", .keep), (textOf "metadata", .metadata),
    (textOf "replace", .replace)]

/-- `PROFILES`. -/
def profileNames : List (Text × Profile) := [(textOf "release", .release), (textOf "debug", .debug)]

/-- `BOARDS`. -/
def boardNames : List (Text × Board) := [(textOf "pi4", .pi4), (textOf "pi5", .pi5)]

/-- The fields that a rule may have besides its mode and its target. -/
def optionalFields : RuleKind → List String
  | .file => ["enabled", "features", "optional", "profiles", "report_missing", "review_disabled_for", "from",
      "review_move_pi4", "review_move_pi5"]
  | .tree => ["enabled", "features", "optional", "profiles", "report_missing", "review_disabled_for", "exclude", "from",
      "include", "review_exclude_pi4", "review_exclude_pi5"]
  | .directory => ["enabled", "features", "profiles", "review_disabled_for"]

section Fields

variable (value : TomlTable) (place : String) (name : String)

/-- A field that is there. -/
def requiredText : Except SdLayoutError Text := textValue ((value.field name).getD .other) (place ++ "." ++ name)

def readMode : Except SdLayoutError Mode := do
  let mode ← requiredText value place "mode"
  match modeNames.lookup mode with
  | some mode => .ok mode
  | none => .error (.unknownValue place mode)

def readSource (aliases : List Text) : Except SdLayoutError (Option Text) :=
  match value.field "from" with
  | none => .ok none
  | some source => do return some (← sourceReference (← textValue source (place ++ ".from")) (place ++ ".from") aliases)

/-- A file that is staged has an exact target. -/
def readTarget (kind : RuleKind) (source : Option Text) : Except SdLayoutError Text := do
  let target ← requiredText value place "to"
  if kind = .file ∧ source.isNone then targetPattern target (place ++ ".to") else fatPath target (place ++ ".to")

/-- Patterns, which only a tree has. -/
def readGlobs (kind : RuleKind) (allowEmpty : Bool) : Except SdLayoutError (List Text) :=
  match kind, value.field name with
  | .tree, some patterns => do
    let place := place ++ "." ++ name
    (← stringList patterns place none allowEmpty).zipIdx.mapM fun item => globPattern item.1 (itemPlace place item.2)
  | _, _ => .ok []

def readList (allowed : Option (List Text)) (allowEmpty : Bool) : Except SdLayoutError (List Text) :=
  match value.field name with
  | none => .ok []
  | some items => stringList items (place ++ "." ++ name) allowed allowEmpty

def readBoolean (absent : Bool) : Except SdLayoutError Bool :=
  match value.field name with
  | none => .ok absent
  | some flag => boolean flag (place ++ "." ++ name)

def readMove : Except SdLayoutError (Option Text) :=
  match value.field name with
  | none => .ok none
  | some target => do return some (← fatPath (← textValue target (place ++ "." ++ name)) (place ++ "." ++ name))

end Fields

/-- What the fields of a rule say, by themselves. -/
def readRule (value : TomlTable) (aliases : List Text) (scope : Scope) (kind : RuleKind) (ordinal : Nat)
    (place : String) : Except SdLayoutError LayoutRule := do
  let mode ← readMode value place
  let source ← readSource value place aliases
  let target ← readTarget value place kind source
  let included ← readGlobs value place "include" kind false
  let excluded ← readGlobs value place "exclude" kind true
  let profiles ← readList value place "profiles" (some (profileNames.map Prod.fst)) false
  let features ← readList value place "features" none false
  let optional ← readBoolean value place "optional" false
  let enabled ← readBoolean value place "enabled" true
  let reportMissing ← readBoolean value place "report_missing" true
  let disabled ← readList value place "review_disabled_for" (some (boardNames.map Prod.fst)) true
  let excludedPi4 ← readGlobs value place "review_exclude_pi4" kind true
  let excludedPi5 ← readGlobs value place "review_exclude_pi5" kind true
  let movedPi4 ← readMove value place "review_move_pi4"
  let movedPi5 ← readMove value place "review_move_pi5"
  return {
    scope := scope, kind := kind, ordinal := ordinal, target := target, mode := mode, source := source
    «include» := included, exclude := excluded
    profiles := profiles.filterMap fun name => profileNames.lookup name
    features := features, optional := optional, enabled := enabled, reportMissing := reportMissing
    reviewDisabledFor := disabled.filterMap fun name => boardNames.lookup name
    reviewExcludePi4 := excludedPi4, reviewExcludePi5 := excludedPi5
    reviewMovePi4 := movedPi4, reviewMovePi5 := movedPi5 }

/-- What the fields of a rule may not say together. -/
def ruleConflict (rule : LayoutRule) : Option String :=
  let moved := rule.reviewMovePi4.isSome || rule.reviewMovePi5.isSome
  if rule.source.isSome ∧ rule.kind = .directory then some "cannot have from"
  else if rule.kind = .directory ∧ (rule.optional ∨ !rule.reportMissing) then
    some "does not support optional/report_missing"
  else if rule.kind = .directory ∧ rule.mode ≠ .keep then some "must use mode = \"keep\""
  else if rule.source = none ∧ rule.optional ∧ rule.mode ≠ .kernel then some "uses optional without a source"
  else if rule.reviewDisabledFor ≠ [] ∧ rule.scope ≠ .both then some "review_disabled_for is valid only in scope both"
  else if (rule.reviewExcludePi4 ≠ [] ∨ rule.reviewExcludePi5 ≠ []) ∧ rule.scope ≠ .both then
    some "board-specific review excludes require scope both"
  else if moved ∧ (rule.kind ≠ .file ∨ rule.source = none) then some "board review moves require one staged file rule"
  else if rule.scope = .board .pi4 ∧ rule.reviewMovePi5.isSome then some "review_move_pi5 conflicts with pi4 scope"
  else if rule.scope = .board .pi5 ∧ rule.reviewMovePi4.isSome then some "review_move_pi4 conflicts with pi5 scope"
  else if rule.reviewMovePi4 = some rule.target ∨ rule.reviewMovePi5 = some rule.target then
    some "review move must differ from to"
  else none

def parseRule (raw : TomlValue) (aliases : List Text) (scope : Scope) (kind : RuleKind) (ordinal : Nat) :
    Except SdLayoutError LayoutRule := do
  let place := itemPlace (scope.name ++ "." ++ kind.name) ordinal
  let value ← exactKeys raw ["mode", "to"] place (optionalFields kind)
  let rule ← readRule value aliases scope kind ordinal place
  match ruleConflict rule with
  | some conflict => .error (.failed (place ++ " " ++ conflict) [])
  | none => return rule

/-- A template without its placeholders. The fuel is the length of what is left. -/
def withoutPlaceholders : Nat → Text → Text
  | 0, _ => []
  | _, [] => []
  | fuel + 1, character :: rest =>
    let name := rest.takeWhile (· ≠ '}')
    if character = '{' ∧ name.length < rest.length ∧ aliasName name then
      withoutPlaceholders fuel (rest.drop (name.length + 1))
    else character :: withoutPlaceholders fuel rest

def readAlias (entry : Text × TomlValue) : Except SdLayoutError (Text × Text) := do
  if !aliasName entry.1 then .error (.failed "invalid source alias" [entry.1])
  else
    let template ← textValue entry.2 ("sources." ++ String.ofList entry.1)
    if template.any fun character => character.toNat = 0 ∨ character = '\n' ∨ character = '\r' then
      .error (.failed "contains a forbidden character" [entry.1])
    else if (withoutPlaceholders template.length template).any fun character => character = '{' ∨ character = '}' then
      .error (.failed "contains a malformed placeholder" [entry.1])
    else return (entry.1, template)

def readSection (table : TomlTable) (aliases : List Text) (scope : Scope) (kind : RuleKind) :
    Except SdLayoutError (List LayoutRule) :=
  match (table.field kind.name).getD (.array []) with
  | .array entries => entries.zipIdx.mapM fun entry => parseRule entry.1 aliases scope kind entry.2
  | _ => .error (.notArray (scope.name ++ "." ++ kind.name))

def readScope (top : TomlTable) (aliases : List Text) (scope : Scope) : Except SdLayoutError (List LayoutRule) :=
  match (top.field scope.name).getD (.table []) with
  | .table table =>
    match firstOf ((table.map Prod.fst).filter fun name => name ∉ ["file", "tree", "directory"].map textOf) with
    | some name => .error (.failed "unknown entry kind" [name])
    | none => do return (← [RuleKind.file, .tree, .directory].mapM (readSection table aliases scope)).flatten
  | _ => .error (.notTable scope.name)

/-- The layout of a document, before it is checked as a whole. -/
def readLayout (document : TomlValue) : Except SdLayoutError SdLayout := do
  let top ← exactKeys document ["default", "format", "sources"] "layout" (scopes.map Scope.name)
  if !top.holds "format" "bmx-sd-layout-v1" then .error (.failed "unsupported SD layout format" [])
  else if !top.holds "default" "deny" then .error (.failed "SD layout default must be deny" [])
  else
    match top.field "sources" with
    | some (.table (entry :: entries)) =>
      let sources ← (entry :: entries).mapM readAlias
      let rules := (← scopes.mapM (readScope top (sources.map Prod.fst))).flatten
      if rules = [] then .error (.failed "SD layout contains no entries" []) else return ⟨sources, rules⟩
    | _ => .error (.failed "sources must be a non-empty table" [])

end Bmx.SdCard
