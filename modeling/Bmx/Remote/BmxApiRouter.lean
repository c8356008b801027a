import Bmx.Remote.DeveloperFileTransactionSpec
import Bmx.Remote.HttpParser

/-!
# The paths of the BMX API

What the routes of files and directories take from a request: its query, the path it names, and the refusal where it names
none. The requests are authenticated already, and what the routes then do on the card is left out.
-/

namespace Bmx.Remote

open Interaction FatFs Update

def bmxApiPathBytes : Nat := 512
def bmxApiFileNameBytes : Nat := 256
def bmxApiMaximumFileEntries : Nat := 16

/-! ### Queries -/

def hexValue (value : UInt8) : Option UInt8 :=
  if 48 ≤ value ∧ value ≤ 57 then some (value - 48)
  else if 97 ≤ value ∧ value ≤ 102 then some (value - 97 + 10)
  else if 65 ≤ value ∧ value ≤ 70 then some (value - 65 + 10)
  else none

/-- The loop of `DecodePercent`. -/
def percentDecoded : Bytes → Option Bytes
  | [] => some []
  | value :: rest =>
    if value = 37 then
      match rest with
      | high :: low :: rest =>
        (hexValue high).bind fun high => (hexValue low).bind fun low =>
          if high * 16 + low = 0 then none
          else (percentDecoded rest).map fun tail => (high * 16 + low) :: tail
      | _ => none
    else if value = 0 then none
    else (percentDecoded rest).map fun tail => value :: tail

def decodePercent (source : Bytes) (capacity : Nat) : Option Bytes :=
  (percentDecoded source).filter fun output => output.length < capacity

def queryFields (query : Bytes) : List Bytes := query.splitOn 38

def fieldName (field : Bytes) : Bytes := field.takeWhile (· != 61)

/-- The values that `QueryValue` counts; the last is the one it reports. -/
def queryValues (query name : Bytes) : List Bytes :=
  ((queryFields query).filter fun field => fieldName field == name && field.contains 61).map
    fun field => field.drop (name.length + 1)

def onlyQueryNames (query : Bytes) (names : List Bytes) : Bool :=
  !query.isEmpty && query.getLast? != some 38 &&
    (queryFields query).all fun field =>
      field.contains 61 && !(fieldName field).isEmpty && names.contains (fieldName field)

/-! ### Paths -/

def asciiUpper (value : UInt8) : UInt8 := if 97 ≤ value ∧ value ≤ 122 then value - (97 - 65) else value

def mediaVolumes : List Bytes :=
  [ascii "SYS", ascii "USER", ascii "SD", ascii "USB", ascii "USB2", ascii "USB3"]

/-- The canonical name of a volume. -/
def allowedVolume (value : Bytes) : Option Bytes :=
  mediaVolumes.find? fun name => value.map asciiUpper == name

/-- What a request names: the volume, the path below it and both together. -/
structure MediaPath where
  absolute : Bytes
  volume : Bytes
  relative : Bytes
  deriving DecidableEq

def mediaPathOf (volume relative : Bytes) : MediaPath :=
  ⟨volume ++ [58, slash] ++ relative, volume, relative⟩

/-- The end of `ParseDecodedMediaPath`, on both sides of the first colon. -/
def parseVolumePath (volume rest : Bytes) (requireFile : Bool) : Option MediaPath :=
  match rest with
  | 58 :: 47 :: relative =>
    (allowedVolume volume).bind fun volume =>
      if relative = [] ∨ validateMediaFatRelativePath relative bmxApiPathBytes ≠ .ok then none
      else if requireFile ∧ slash ∉ relative then none
      else if (mediaPathOf volume relative).absolute.length ≥ bmxApiPathBytes then none
      else some (mediaPathOf volume relative)
  | _ => none

def parseDecodedMediaPath (decoded : Bytes) (requireFile : Bool) : Option MediaPath :=
  parseVolumePath (decoded.takeWhile (· != 58)) (decoded.dropWhile (· != 58)) requireFile

def parseMediaPath (encoded : Bytes) (requireFile : Bool) : Option MediaPath :=
  (decodePercent encoded bmxApiPathBytes).bind fun decoded =>
    parseDecodedMediaPath decoded requireFile

def decodeFileName (encoded : Bytes) : Option Bytes :=
  (decodePercent encoded bmxApiFileNameBytes).filter fun name =>
    !name.contains slash && validateDeveloperFatRelativePath name bmxApiFileNameBytes == .ok

def fatPathEquals (left right : Bytes) : Bool := foldEqual left right

/-- A file gets another name in its directory. -/
def renameTarget (source : MediaPath) (name : Bytes) : Option MediaPath :=
  let target := mediaPathOf source.volume (directoryPart source.relative ++ name)
  if target.relative.length + 1 > bmxApiPathBytes then none
  else if validateMediaFatRelativePath target.relative bmxApiPathBytes ≠ .ok then none
  else if target.absolute.length ≥ bmxApiPathBytes ∨ fatPathEquals source.relative target.relative then
    none
  else some target

/-! ### Replies -/

/-- A JSON text, an empty reply, a head without its body, the content of an open file, or a body to
be received. -/
inductive ApiReply
  | json (status : Nat) (body : Bytes)
  | empty (status : Nat)
  | headOnly (size : Nat)
  | stream (file : ReadId) (size : Nat)
  | receiveBody (maximumBytes : Nat)
  deriving DecidableEq

def apiErrorBody (code : String) : Bytes := ascii "\x7b\"error\":\"" ++ ascii code ++ ascii "\"\x7d\n"

def respondJsonError (status : Nat) (code : String) : ApiReply := .json status (apiErrorBody code)

def decimal (value : Nat) : Bytes := ascii (toString value)

/-! ### The router -/

namespace BmxApiRouter

def hasBody (request : HttpRequestHead) : Bool :=
  request.hasContentLength && request.contentLength != 0

/-- The path a request for a file names, or the refusal of the request. -/
def filePath (request : HttpRequestHead) : Except ApiReply MediaPath :=
  if request.hasQuery = false ∨ onlyQueryNames request.rawQuery [ascii "path"] = false then
    .error (respondJsonError 400 "invalid_request")
  else
    match queryValues request.rawQuery (ascii "path") with
    | [encoded] =>
      match parseMediaPath encoded true with
      | some path => .ok path
      | none => .error (respondJsonError 400 "invalid_path")
    | _ => .error (respondJsonError 400 "invalid_path")

/-- The path and the new path a rename names, or the refusal of the request. -/
def renamePaths (request : HttpRequestHead) : Except ApiReply (MediaPath × MediaPath) :=
  if request.method ≠ .post ∨ request.hasQuery = false ∨ hasBody request = true ∨
      onlyQueryNames request.rawQuery [ascii "path", ascii "name"] = false then
    .error (respondJsonError 400 "invalid_request")
  else
    match queryValues request.rawQuery (ascii "path"), queryValues request.rawQuery (ascii "name") with
    | [encodedPath], [encodedName] =>
      match (parseMediaPath encodedPath true).bind fun source =>
          (decodeFileName encodedName).bind fun name =>
            (renameTarget source name).map fun target => (source, target) with
      | some paths => .ok paths
      | none => .error (respondJsonError 400 "invalid_path")
    | _, _ => .error (respondJsonError 400 "invalid_path")

/-- What a listing asks for: the directory, the name it goes on after, and how many entries. -/
structure FilesRequest where
  path : MediaPath
  fileAfter : Bytes
  limit : Nat

/-- `ParseUnsignedDecimal` with bounds. -/
def parseUnsignedDecimal (value : Bytes) (minimum maximum : Nat) : Option Nat :=
  (parseDecimal value).filter fun parsed => minimum ≤ parsed && parsed ≤ maximum

/-- The listing that `RouteFiles` passes on, or the refusal of the request. -/
def filesRequest (request : HttpRequestHead) : Except ApiReply FilesRequest :=
  if request.method ≠ .get ∨ request.hasQuery = false ∨ hasBody request = true ∨
      onlyQueryNames request.rawQuery [ascii "path", ascii "after", ascii "limit"] = false then
    .error (respondJsonError 400 "invalid_request")
  else
    let limits := queryValues request.rawQuery (ascii "limit")
    let afters := queryValues request.rawQuery (ascii "after")
    match queryValues request.rawQuery (ascii "path") with
    | [encoded] =>
      if afters.length > 1 ∨ limits.length > 1 then .error (respondJsonError 400 "invalid_path")
      else
        match parseMediaPath encoded false, afters.mapM decodeFileName with
        | some path, some names =>
          match limits.mapM fun limit => parseUnsignedDecimal limit 1 bmxApiMaximumFileEntries with
          | some parsed =>
            .ok ⟨path, names.headD [], parsed.headD bmxApiMaximumFileEntries⟩
          | none => .error (respondJsonError 400 "invalid_value")
        | _, _ => .error (respondJsonError 400 "invalid_path")
    | _ => .error (respondJsonError 400 "invalid_path")

/-- The path a request for a directory names, or the refusal of the request. -/
def directoryPath (request : HttpRequestHead) : Except ApiReply MediaPath :=
  if (request.method ≠ .put ∧ request.method ≠ .delete) ∨ request.hasQuery = false ∨
      hasBody request = true ∨ onlyQueryNames request.rawQuery [ascii "path"] = false then
    .error (respondJsonError 400 "invalid_request")
  else
    match queryValues request.rawQuery (ascii "path") with
    | [encoded] =>
      match parseMediaPath encoded true with
      | some path => .ok path
      | none => .error (respondJsonError 400 "invalid_path")
    | _ => .error (respondJsonError 400 "invalid_path")

/-- The path and the new path a rename of a directory names, or the refusal of the request. -/
def directoryRenamePaths (request : HttpRequestHead) : Except ApiReply (MediaPath × MediaPath) :=
  if request.method ≠ .post ∨ request.hasQuery = false ∨ hasBody request = true ∨
      onlyQueryNames request.rawQuery [ascii "path", ascii "to"] = false then
    .error (respondJsonError 400 "invalid_request")
  else
    match queryValues request.rawQuery (ascii "path"), queryValues request.rawQuery (ascii "to") with
    | [encodedSource], [encodedTarget] =>
      match parseMediaPath encodedSource true, parseMediaPath encodedTarget true with
      | some source, some target =>
        if source.volume ≠ target.volume ∨ fatPathEquals source.absolute target.absolute then
          .error (respondJsonError 400 "invalid_path")
        else .ok (source, target)
      | _, _ => .error (respondJsonError 400 "invalid_path")
    | _, _ => .error (respondJsonError 400 "invalid_path")

end BmxApiRouter

end Bmx.Remote
