import Bmx.Base.Checked
import Bmx.Remote.BmxApiRouter

/-!
# File targets of the developer mode

The developer page takes a destination such as `SD:/bmx/file` from its user and builds the path of a request from it.
The router of the device takes the path apart again. Strings of the page are lists of UTF-16 units.
-/

namespace Bmx.Remote

open Update

/-! ### The page -/

abbrev JsText := List UInt16

/-- `[...value]`: the code points of a string; a surrogate without its partner stands for itself. -/
def codePoints : JsText → List Nat
  | [] => []
  | [unit] => [unit.toNat]
  | high :: low :: rest =>
    if (0xd800 ≤ high ∧ high < 0xdc00) ∧ 0xdc00 ≤ low ∧ low < 0xe000 then
      (0x10000 + (high.toNat - 0xd800) * 0x400 + (low.toNat - 0xdc00)) :: codePoints rest
    else high.toNat :: codePoints (low :: rest)

/-- The code points of the upper half of code page 850. -/
def cp850High : List Nat := [
  0x00c7, 0x00fc, 0x00e9, 0x00e2, 0x00e4, 0x00e0, 0x00e5, 0x00e7,
  0x00ea, 0x00eb, 0x00e8, 0x00ef, 0x00ee, 0x00ec, 0x00c4, 0x00c5,
  0x00c9, 0x00e6, 0x00c6, 0x00f4, 0x00f6, 0x00f2, 0x00fb, 0x00f9,
  0x00ff, 0x00d6, 0x00dc, 0x00f8, 0x00a3, 0x00d8, 0x00d7, 0x0192,
  0x00e1, 0x00ed, 0x00f3, 0x00fa, 0x00f1, 0x00d1, 0x00aa, 0x00ba,
  0x00bf, 0x00ae, 0x00ac, 0x00bd, 0x00bc, 0x00a1, 0x00ab, 0x00bb,
  0x2591, 0x2592, 0x2593, 0x2502, 0x2524, 0x00c1, 0x00c2, 0x00c0,
  0x00a9, 0x2563, 0x2551, 0x2557, 0x255d, 0x00a2, 0x00a5, 0x2510,
  0x2514, 0x2534, 0x252c, 0x251c, 0x2500, 0x253c, 0x00e3, 0x00c3,
  0x255a, 0x2554, 0x2569, 0x2566, 0x2560, 0x2550, 0x256c, 0x00a4,
  0x00f0, 0x00d0, 0x00ca, 0x00cb, 0x00c8, 0x0131, 0x00cd, 0x00ce,
  0x00cf, 0x2518, 0x250c, 0x2588, 0x2584, 0x00a6, 0x00cc, 0x2580,
  0x00d3, 0x00df, 0x00d4, 0x00d2, 0x00f5, 0x00d5, 0x00b5, 0x00fe,
  0x00de, 0x00da, 0x00db, 0x00d9, 0x00fd, 0x00dd, 0x00af, 0x00b4,
  0x00ad, 0x00b1, 0x2017, 0x00be, 0x00b6, 0x00a7, 0x00f7, 0x00b8,
  0x00b0, 0x00a8, 0x00b7, 0x00b9, 0x00b3, 0x00b2, 0x25a0, 0x00a0]

/-- `CP850_REVERSE`; no code point is in the table twice. -/
def cp850Reverse (codePoint : Nat) : Option UInt8 :=
  (cp850High.idxOf? codePoint).map fun index => UInt8.ofNat (index + 0x80)

/-- What the page says of a destination it does not take. -/
inductive DestinationError
  | form | control | volume | component | codePage | name | length
  deriving DecidableEq

def DestinationError.message : DestinationError → String
  | .form => "Der Zielpfad muss die Form VOLUME:/relativer/pfad haben."
  | .control => "Der Zielpfad darf keine Steuerzeichen enthalten."
  | .volume => "Das Ziel-Volume ist ungültig."
  | .component => "Der Zielpfad darf keine leeren, '.'- oder '..'-Komponenten enthalten."
  | .codePage => "Der Zielpfad enthält Zeichen, die BMX/FatFs nicht als CP850 speichern kann."
  | .name => "Der Zielpfad enthält einen Namen, den FatFs nicht speichern kann."
  | .length => "Der Zielpfad ist zu lang."

/-- One turn of the loop of `cp850Bytes`. -/
def cp850Byte (codePoint : Nat) : Except DestinationError UInt8 :=
  if codePoint ≤ 0x7f then .ok (UInt8.ofNat codePoint)
  else
    match cp850Reverse codePoint with
    | some encoded => .ok encoded
    | none => .error .codePage

def cp850Bytes (value : JsText) : Except DestinationError Bytes := (codePoints value).mapM cp850Byte

def isUnreserved (byte : UInt8) : Bool :=
  (0x41 ≤ byte && byte ≤ 0x5a) || (0x61 ≤ byte && byte ≤ 0x7a) || (0x30 ≤ byte && byte ≤ 0x39) ||
    byte == 0x2d || byte == 0x2e || byte == 0x5f || byte == 0x7e

def hexUpper (digit : UInt8) : UInt8 := if digit < 10 then 48 + digit else 55 + digit

def percentEncode (bytes : Bytes) : Bytes :=
  bytes.flatMap fun byte =>
    if isUnreserved byte then [byte] else [37, hexUpper (byte / 16), hexUpper (byte % 16)]

/-- The string before the first `:/` and the one behind it. -/
def splitDestination : JsText → Option (JsText × JsText)
  | [] => none
  | unit :: rest =>
    if unit = 58 ∧ rest.head? = some 47 then some ([], rest.tail)
    else (splitDestination rest).map fun parts => (unit :: parts.1, parts.2)

/-- `/^[A-Za-z0-9_]+$/`, of one unit. -/
def isVolumeUnit (unit : UInt16) : Bool :=
  (65 ≤ unit && unit ≤ 90) || (97 ≤ unit && unit ≤ 122) || (48 ≤ unit && unit ≤ 57) || unit == 95

/-- What becomes of one component of the relative path. -/
def componentBytes (component : JsText) : Except DestinationError Bytes := do
  let bytes ← cp850Bytes component
  if bytes.length > 255 ∨ bytes.getLast? = some 0x20 ∨ bytes.getLast? = some 0x2e ∨
      bytes.any (fun byte => byte < 0x20 || byte == 0x7f || isForbidden byte) then
    .error .name
  else .ok bytes

structure Destination where
  displayPath : JsText
  requestPath : Bytes

def apiRoot : Bytes := ascii "/bmx/dev/v1"

/-- `parseDestination`. All of the request path is ASCII. -/
def parseDestination (value : JsText) : Except DestinationError Destination := do
  match splitDestination value with
  | none => .error .form
  | some (volume, relative) =>
    if volume = [] ∨ relative = [] then .error .form
    else if (codePoints value).any fun codePoint => codePoint < 0x20 || codePoint == 0x7f then .error .control
    else if volume.length > 15 ∨ volume.all isVolumeUnit = false then .error .volume
    else
      let components := relative.splitOn 47
      if components.any fun component => component == [] || component == [46] || component == [46, 46] then
        .error .component
      else
        let encoded ← components.mapM componentBytes
        if components.length - 1 + (encoded.map List.length).sum ≥ 512 then .error .length
        else
          .ok
            { displayPath := volume ++ [58, 47] ++ relative
              requestPath := apiRoot ++ ascii "/fs/" ++ volume.map (·.toUInt8) ++ [slash] ++
                [slash].intercalate (encoded.map percentEncode) }

/-! ### The device -/

def filePrefix : Bytes := ascii "/bmx/dev/v1/fs/"

def developerVolumeBytes : Nat := 16

def isVolumeCharacter (value : UInt8) : Bool :=
  (65 ≤ value && value ≤ 90) || (97 ≤ value && value ≤ 122) || (48 ≤ value && value ≤ 57) || value == 95

/-- `DeveloperRouter::ParseTarget`: the volume and the path below it. -/
def parseTarget (rawPath prefixText : Bytes) (volumeCapacity pathCapacity : Nat) : Option (Bytes × Bytes) :=
  if prefixText.isPrefixOf rawPath = false then none
  else
    (decodePercent (rawPath.drop prefixText.length) (developerFilePathBytes + 20)).bind fun decoded =>
      match decoded.dropWhile (· ≠ slash) with
      | [] => none
      | _ :: path =>
        let volume := decoded.takeWhile (· ≠ slash)
        if volume = [] ∨ path = [] then none
        else if volume.length + 1 > volumeCapacity ∨ volume.length > 15 then none
        else if volume.all isVolumeCharacter = false then none
        else if path.length + 1 > pathCapacity then none
        else if validateDeveloperFatRelativePath path pathCapacity = .ok then some (volume, path)
        else none

end Bmx.Remote
