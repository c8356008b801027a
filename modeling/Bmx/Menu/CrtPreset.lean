import Mathlib.Data.List.FinRange
import Bmx.Base.LineReads
import Bmx.Switch.NetworkReaders

/-!
# Presets of the screen filter

A preset file is read line by line. Each setting names a field of the caller's table, and its number is clamped to the
field's range. The caller's values are written after the last line.
-/

namespace Bmx.CrtPreset

open Switch (isSpace cString isDigit digitsValue)

def lineLen : Nat := 512
def formatVersion : Int := 1
def maxFields : Nat := 96
def resultKeyLen : Nat := 64
def versionKey : Bytes := ascii "version"

/-- The range of `long`, which holds that of `int`. -/
structure LongRange where
  max : Int
  int_le : 2 ^ 31 - 1 ≤ max

def LongRange.min (long : LongRange) : Int := -long.max - 1

/-- A value of `int`. -/
def IsInt (value : Int) : Prop := -2 ^ 31 ≤ value ∧ value ≤ 2 ^ 31 - 1

/-- `crt_preset_field` -/
structure PresetField where
  key : Bytes
  min : Int
  max : Int
  key_nul : 0 ∉ key
  min_int : IsInt min
  max_int : IsInt max

inductive PresetStatus
  | ok | invalidArgument | ioError | lineTooLong | syntaxError | invalidValue | duplicateKey | missingVersion
  | unsupportedVersion | missingField
  deriving DecidableEq

/-- `crt_preset_result` -/
structure PresetResult where
  line : Nat := 0
  clampedCount : Nat := 0
  unknownCount : Nat := 0
  key : Bytes := []
  firstClampedKey : Bytes := []

/-- A status other than OK with its result. -/
abbrev Failure := PresetStatus × PresetResult

/-! ### Lines and numbers -/

def trimLeft (text : Bytes) : Bytes := text.dropWhile Switch.isSpace

def trimRight (text : Bytes) : Bytes := (text.reverse.dropWhile Switch.isSpace).reverse

def trim (text : Bytes) : Bytes := trimRight (trimLeft text)

def copyKey (key : Bytes) : Bytes := key.take (resultKeyLen - 1)

/-- `fail`. No key is given as an empty one. -/
def fail (result : PresetResult) (status : PresetStatus) (line : Nat) (key : Bytes) : Failure :=
  (status, { result with line := line, key := copyKey key })

/-- `strtol` before the number is cut to the range of `long`: the number and the text after it. -/
def strtol (text : Bytes) : Option (Int × Bytes) :=
  let body := text.dropWhile Switch.isSpace
  let digits := if body.head? = some 45 ∨ body.head? = some 43 then body.tail else body
  let value : Int := digitsValue (digits.takeWhile isDigit)
  if digits.takeWhile isDigit = [] then none
  else some (if body.head? = some 45 then -value else value, digits.dropWhile isDigit)

def parseInteger (long : LongRange) (text : Bytes) : Option Int :=
  match strtol text with
  | none => none
  | some (number, rest) =>
    if rest.dropWhile Switch.isSpace ≠ [] then none
    else if number < long.min ∨ long.max < number then
      some (if text.head? = some 45 then long.min else long.max)
    else some number

def findField (fields : List PresetField) (key : Bytes) : Option (Fin fields.length) :=
  fields.findFinIdx? fun field => field.key = key

inductive PresetLine
  | blank
  | malformed (key : Bytes)
  | setting (key value : Bytes)
  deriving DecidableEq

def byteOrderMark : Bytes := [0xef, 0xbb, 0xbf]

/-- The characters at which a comment starts. -/
def isComment (c : UInt8) : Bool := c = 35 ∨ c = 59

/-- A text without its comment, taken apart at the first equals sign. -/
def splitSetting (text : Bytes) : PresetLine :=
  if Switch.equals ∉ text then .malformed text
  else
    let key := trim (text.takeWhile (· ≠ Switch.equals))
    let value := trim (text.dropWhile (· ≠ Switch.equals)).tail
    if key = [] ∨ value = [] then .malformed key else .setting key value

/-- How the loop takes a line apart. The byte order mark is passed over in the first line alone. -/
def presetLine (first : Bool) (line : Bytes) : PresetLine :=
  let text := if first ∧ 3 ≤ line.length ∧ line.take 3 = byteOrderMark then line.drop 3 else line
  let text := trim text
  if text = [] ∨ text.head? = some 35 ∨ text.head? = some 59 then .blank
  else splitSetting (if text.any isComment then trimRight (text.takeWhile fun c => !isComment c) else text)

/-! ### `crt_preset_parse` -/

/-- The local variables of the parser. -/
structure PresetState where
  lineNumber : Nat := 0
  versionSeen : Bool := false
  seen : Nat → Bool := fun _ => false
  parsedValues : Nat → Int := fun _ => 0
  result : PresetResult := {}

def presetVersion (long : LongRange) (s : PresetState) (value : Bytes) : Except Failure PresetState :=
  if s.versionSeen then .error (fail s.result .duplicateKey s.lineNumber versionKey)
  else
    match parseInteger long value with
    | none => .error (fail s.result .invalidValue s.lineNumber versionKey)
    | some number =>
      if number ≠ formatVersion then .error (fail s.result .unsupportedVersion s.lineNumber versionKey)
      else .ok { s with versionSeen := true }

def clampField (field : PresetField) (number : Int) : Int :=
  if number < field.min then field.min else if field.max < number then field.max else number

/-- The count of the clamped numbers, and the key of the first. -/
def countClamped (result : PresetResult) (key : Bytes) (number clamped : Int) : PresetResult :=
  if number = clamped then result
  else
    { result with
      firstClampedKey := if result.clampedCount = 0 then copyKey key else result.firstClampedKey
      clampedCount := result.clampedCount + 1 }

def presetSetting (long : LongRange) (fields : List PresetField) (s : PresetState) (key value : Bytes) :
    Except Failure PresetState :=
  match findField fields key with
  | none => .ok { s with result := { s.result with unknownCount := s.result.unknownCount + 1 } }
  | some i =>
    if s.seen i then .error (fail s.result .duplicateKey s.lineNumber key)
    else
      match parseInteger long value with
      | none => .error (fail s.result .invalidValue s.lineNumber key)
      | some number =>
        .ok { s with
          seen := Function.update s.seen i true
          parsedValues := Function.update s.parsedValues i (clampField (fields.get i) number)
          result := countClamped s.result key number (clampField (fields.get i) number) }

def presetTake (long : LongRange) (fields : List PresetField) (s : PresetState) : PresetLine → Except Failure PresetState
  | .blank => .ok s
  | .malformed key => .error (fail s.result .syntaxError s.lineNumber key)
  | .setting key value =>
    if key = versionKey then presetVersion long s value else presetSetting long fields s key value

/-- The loop, once. -/
def presetTurn (long : LongRange) (fields : List PresetField) (s : PresetState) (read : Bytes × Bool) :
    Except Failure PresetState :=
  let s := { s with lineNumber := s.lineNumber + 1 }
  let line := cString read.1
  if lf ∉ line ∧ read.2 = false then .error (fail s.result .lineTooLong s.lineNumber [])
  else presetTake long fields s (presetLine (s.lineNumber = 1) line)

/-- A stream: the characters it gives, and whether an error follows them instead of the end of the file. -/
structure Stream where
  text : Bytes
  fails : Bool := false

/-- An error in the last line leaves nothing of it. -/
def Stream.reads (stream : Stream) : List (Bytes × Bool) :=
  (lineReads lineLen stream.text).filter fun read => !(read.2 && stream.fails)

/-- The checks after the last line. -/
def presetEnd (fields : List PresetField) (s : PresetState) (fails : Bool) : PresetStatus × PresetResult :=
  if fails then fail s.result .ioError s.lineNumber []
  else if !s.versionSeen then fail s.result .missingVersion 0 versionKey
  else
    match (List.finRange fields.length).find? fun i => !s.seen i.val with
    | some i => fail s.result .missingField 0 (fields.get i).key
    | none => (.ok, s.result)

/-- The status with the caller's result and values. -/
structure PresetCall where
  status : PresetStatus
  result : PresetResult
  values : Option (List Int)

/-- The status after the loop. OK is the only one with which the values are written. -/
def presetOutcome (fields : List PresetField) (values : List Int) (fails : Bool) :
    Except Failure PresetState → PresetCall
  | .error (status, result) => { status := status, result := result, values := some values }
  | .ok s =>
    let (status, result) := presetEnd fields s fails
    if status = .ok then
      { status := status, result := result
        values := some ((List.range fields.length).map s.parsedValues ++ values.drop fields.length) }
    else { status := status, result := result, values := some values }

/-- `crt_preset_parse`. A null pointer is `none`. -/
def crtPresetParse (long : LongRange) (fp : Option Stream) (fields : Option (List PresetField))
    (values : Option (List Int)) : PresetCall :=
  let invalid := fail {} .invalidArgument 0 []
  match fp, fields, values with
  | some stream, some fields, some values =>
    if fields.length = 0 ∨ maxFields < fields.length then
      { status := invalid.1, result := invalid.2, values := some values }
    else
      presetOutcome fields values stream.fails (stream.reads.foldlM (presetTurn long fields) {})
  | _, _, values => { status := invalid.1, result := invalid.2, values := values }

end Bmx.CrtPreset
