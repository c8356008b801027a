import Bmx.Base.LineReads
import Bmx.Keymap.KeymapBlock
import Bmx.Keymap.KeymapEditor
import Bmx.Keymap.Keycodes

/-!
# Saving and reading the model

The editor's block has the targets as comments, then the keys that are undefined and the bindings. The targets are read
back from it.
-/

namespace Bmx.Keymap

/-! ### The order of the bindings -/

/-- The loop of `source_specificity`. -/
def countBits : Nat → Nat → Nat
  | 0, _ => 0
  | bits + 1, flags => if flags = 0 then 0 else flags % 2 + countBits bits (flags / 2)

def sourceSpecificity (binding : EditorBinding) : Nat := countBits 32 (sourceFlags binding.flags).toUInt32.toNat

/-- The bindings with their marks in `emitted`. -/
abbrev Entries := List (EditorBinding × Bool)

/-- The first of the most unspecific bindings of a key that are not emitted, from an index on. -/
def bestEntry (keycode : Int) (j : Nat) (best : Option (Nat × EditorBinding)) : Entries → Option (Nat × EditorBinding)
  | [] => best
  | (binding, emitted) :: rest =>
    if emitted ∨ binding.keycode ≠ keycode then bestEntry keycode (j + 1) best rest
    else if best.all fun other => sourceSpecificity binding < sourceSpecificity other.2 then
      bestEntry keycode (j + 1) (some (j, binding)) rest
    else bestEntry keycode (j + 1) best rest

/-- Another binding of the key comes later. -/
def hasLater (keycode : Int) (entries : Entries) : Bool :=
  entries.any fun entry => !entry.2 && decide (entry.1.keycode = keycode)

def withAllowOther (later : Bool) (binding : EditorBinding) : EditorBinding :=
  { binding with flags := if later then binding.flags ||| allowOther else binding.flags &&& ~~~allowOther }

/-- The inner loop: the bindings of a key as they are written, and the marks after it. Each round marks a binding. -/
def emitKeycode (keycode : Int) : Nat → Entries → List EditorBinding × Entries
  | 0, entries => ([], entries)
  | rounds + 1, entries =>
    match bestEntry keycode 0 none entries with
    | none => ([], entries)
    | some (best, binding) =>
      let entries := entries.set best (binding, true)
      let (written, final) := emitKeycode keycode rounds entries
      (withAllowOther (hasLater keycode entries) binding :: written, final)

/-- The outer loop. -/
def emitFrom : List Nat → Entries → List EditorBinding
  | [], _ => []
  | i :: rest, entries =>
    match entries[i]? with
    | some (binding, false) =>
      let (written, entries) := emitKeycode binding.keycode (entries.length + 1) entries
      written ++ emitFrom rest entries
    | _ => emitFrom rest entries

def writtenBindings (bindings : List EditorBinding) : List EditorBinding :=
  emitFrom (List.range bindings.length) (bindings.map fun binding => (binding, false))

/-! ### The block -/

def versionPrefix : Bytes := ascii "# BMX-KEYMAP-EDITOR-VERSION "
def targetPrefix : Bytes := ascii "# BMX-TARGET "
def blockVersion : Int := 2

def headerLines : List Bytes :=
  [ascii "# Generated by BMX. Manual edits outside this block are preserved.", versionPrefix ++ formatDecimal blockVersion]

/-- Three numbers with blanks between them. -/
def formatThree (a b c : Int32) : Bytes :=
  formatDecimal a.toInt ++ 32 :: (formatDecimal b.toInt ++ 32 :: formatDecimal c.toInt)

def targetLine (target : EditorTarget) : Bytes :=
  targetPrefix ++ formatThree target.row target.column target.mappingFlags

def undefLine (keycode : Int) : Option Bytes :=
  (keycodeFormatVkmToken keycode 24).map fun token => ascii "!UNDEF " ++ token

def bindingLine (binding : EditorBinding) : Option Bytes :=
  (keycodeFormatVkmToken binding.keycode 24).map fun token =>
    token ++ 32 :: formatThree binding.row binding.column binding.flags

/-- The lines that are written one after another, if every key has a token. -/
def blockLines (model : EditorModel) : Option (List Bytes) := do
  let undef ← model.undefKeys.mapM undefLine
  let bindings ← (writtenBindings model.bindings).mapM bindingLine
  return blockBegin :: (headerLines ++ (model.targets.map targetLine ++ ([] :: (undef ++ ([] :: (bindings ++ [blockEnd]))))))

/-- `appendf`: the text and a NUL have to fit. -/
def appendf (size : Nat) (buffer text : Bytes) : Option Bytes :=
  if buffer.length ≥ size then none else if text.length ≥ size - buffer.length then none else some (buffer ++ text)

/-- `keymap_editor_serialize_block`. What is in the buffer when it fails is not used. -/
def serializeBlock (model : EditorModel) (bufferSize : Nat) : Option Bytes := do
  let lines ← blockLines model
  lines.foldlM (fun buffer line => appendf bufferSize buffer (line ++ [lf])) []

/-! ### Reading the targets -/

def textLines (text : Bytes) : List Bytes := (fileLines text).map fun line => line.takeWhile (· ≠ lf)

/-- What may follow the numbers of a line. -/
def onlyBlanks (tail : Bytes) : Bool := tail.all fun c => c = 32 ∨ c = 9 ∨ c = 13

/-- Three numbers and what follows them. One that is on the next line is not taken, as the line is refused with it. -/
def scanThree (text : Bytes) : Option (Int32 × Int32 × Int32 × Bytes) := do
  let (a, text) ← scanNumber 10 text
  let (b, text) ← scanNumber 10 text
  let (c, text) ← scanNumber 10 text
  return (Int32.ofInt a, Int32.ofInt b, Int32.ofInt c, text)

/-- The version of a block, which is 1 if it has none. -/
def readVersion : Option Int → List Bytes → Option Int
  | seen, [] => some (seen.getD 1)
  | seen, line :: rest =>
    if versionPrefix.isPrefixOf line then
      if seen.isSome then none
      else
        match scanNumber 10 (line.drop versionPrefix.length) with
        | none => none
        | some (version, tail) =>
          if version < 1 ∨ version > blockVersion ∨ !onlyBlanks tail then none else readVersion (some version) rest
    else readVersion seen rest

/-- `%23s`, and what follows the word. -/
def scanWord (text : Bytes) : Option (Bytes × Bytes) :=
  let text := text.dropWhile isSpace
  let word := (text.takeWhile fun c => !isSpace c).take 23
  if word = [] then none else some (word, text.drop word.length)

/-- A binding that an editor of version 1 made by accident: the first that has that shape is migrated. -/
def migrateBindings (keycode : Int) (row column : Int32) : List EditorBinding → List EditorBinding
  | [] => []
  | binding :: rest =>
    if binding.keycode = keycode ∧ binding.row = row ∧ binding.column = column ∧ binding.flags &&& ~~~allowOther = deshift then
      { binding with flags := (binding.flags &&& ~~~deshift) ||| allowShift } :: rest
    else binding :: migrateBindings keycode row column rest

/-- An entry of a block of version 1. -/
def migrateEntry (model : EditorModel) (line : Bytes) : EditorModel :=
  match (scanWord line).bind fun found => (scanThree found.2).map fun numbers => (found.1, numbers) with
  | none => model
  | some (token, row, column, flags, tail) =>
    let keycode := if onlyBlanks tail then keycodeFromVkmToken token else keycodeNone
    if keycode > 0 ∧ row ≥ 0 ∧ flags &&& ~~~allowOther = deshift then
      { model with bindings := migrateBindings keycode row column model.bindings }
    else model

/-- The loop over the lines. -/
def mergeLines (version : Int) (model : EditorModel) : List Bytes → EditorModel × Bool
  | [] => (model, true)
  | line :: rest =>
    if targetPrefix.isPrefixOf line then
      match scanThree (line.drop targetPrefix.length) with
      | none => (model, false)
      | some (row, column, flags, tail) =>
        if !onlyBlanks tail then (model, false)
        else
          match addTarget model row column flags with
          | (model, false) => (model, false)
          | (model, true) => mergeLines version model rest
    else if version < blockVersion ∧ line ≠ [] ∧ line.head? ≠ some 35 ∧ line.head? ≠ some 33 then
      if line.length ≥ 128 then (model, false) else mergeLines version (migrateEntry model line) rest
    else mergeLines version model rest

/-- `keymap_editor_merge_target_catalog`. The text ends in a NUL, as the function checks. -/
def mergeTargetCatalog (model : EditorModel) (input : Bytes) : EditorModel × Bool :=
  match findMarkerLine blockBegin input with
  | none => (model, true)
  | some (_, block) =>
    match findMarkerLine blockEnd block with
    | none => (model, false)
    | some (opening, _) =>
      let lines := textLines (afterLine opening)
      match readVersion none lines with
      | none => (model, false)
      | some version => mergeLines version model lines

end Bmx.Keymap
