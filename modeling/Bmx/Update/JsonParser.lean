import Bmx.Base.Bytes

/-!
# The JSON parser

`ParseJson` walks a document once and fills a table of tokens, each with the stretch of text it
stands for and the token it belongs to. The strings stay as they were written, and `JsonCopyString`
decodes one of them.
-/

namespace Bmx.Update

def maximumJsonBytes : Nat := 1024 * 1024

inductive JsonTokenType
  | invalid | object | array | string | number | true | false | null
  deriving DecidableEq, Repr

/-- A token; its text ends before `stop`, and the parent of the outermost one is -1. -/
structure JsonToken where
  type : JsonTokenType
  start : Nat
  stop : Nat
  parent : Int
  childCount : Nat
  deriving DecidableEq, Repr

inductive JsonError
  | ok | argument | tooLarge | tooDeep | tokenLimit | syntaxError | string | number | duplicateKey
  | trailingData | notFound | type | range | outputTooSmall
  deriving DecidableEq, Repr

/-- An error with the place it is reported at. -/
structure JsonFailure where
  error : JsonError
  offset : Nat
  failed : error ≠ .ok := by decide

abbrev JsonResult (α : Type) := Except JsonFailure α

/-! ### Reading bytes -/

/-- Where the parser stands, with what follows there. -/
structure JsonCursor where
  position : Nat
  rest : Bytes
  deriving DecidableEq, Repr

namespace JsonCursor

def fail {α : Type} (c : JsonCursor) (error : JsonError) (failed : error ≠ .ok := by decide) :
    JsonResult α := .error ⟨error, c.position, failed⟩

def advance (c : JsonCursor) (count : Nat) : JsonCursor := ⟨c.position + count, c.rest.drop count⟩

end JsonCursor

def jsonWhitespace (c : UInt8) : Bool := c = 0x20 ∨ c = 0x09 ∨ c = 0x0d ∨ c = 0x0a

def jsonDigit (c : UInt8) : Bool := 48 ≤ c ∧ c ≤ 57

def skipWhitespace (c : JsonCursor) : JsonCursor := c.advance (c.rest.takeWhile jsonWhitespace).length

def skipDigits (c : JsonCursor) : JsonCursor := c.advance (c.rest.takeWhile jsonDigit).length

/-- `HexDigit`. -/
def jsonHexDigit (c : UInt8) : Option Nat :=
  if 48 ≤ c ∧ c ≤ 57 then some (c.toNat - 48)
  else if 97 ≤ c ∧ c ≤ 102 then some (c.toNat - 97 + 10)
  else if 65 ≤ c ∧ c ≤ 70 then some (c.toNat - 65 + 10)
  else none

/-- `ParseHex4` and `DecodeHex4`, where four bytes follow. -/
def parseHex4 (text : Bytes) : Option Nat :=
  (text.take 4).foldlM (fun result c => (jsonHexDigit c).map fun digit => result * 16 + digit) 0

/-- How many bytes a character takes, and the bits of its first byte. -/
def utf8Lead (first : UInt8) : Option (Nat × Nat) :=
  if 0xc2 ≤ first ∧ first ≤ 0xdf then some (2, first.toNat % 32)
  else if 0xe0 ≤ first ∧ first ≤ 0xef then some (3, first.toNat % 16)
  else if 0xf0 ≤ first ∧ first ≤ 0xf4 then some (4, first.toNat % 8)
  else none

/-- A byte that continues a character. -/
def utf8Tail (value : UInt8) : Bool := value.toNat / 64 = 2

/-- Code points that have no character of this length. -/
def utf8Rejected (count codepoint : Nat) : Bool :=
  (count = 3 ∧ codepoint < 0x800) ∨ (count = 4 ∧ codepoint < 0x10000) ∨
    (0xd800 ≤ codepoint ∧ codepoint ≤ 0xdfff) ∨ codepoint > 0x10ffff

/-- `ConsumeUtf8`, at the first byte of a character that takes more than one. -/
def consumeUtf8 (c : JsonCursor) : JsonResult JsonCursor :=
  match c.rest with
  | [] => c.fail .string
  | first :: more =>
    match utf8Lead first with
    | none => c.fail .string
    | some (count, bits) =>
      let tail := more.take (count - 1)
      if c.rest.length < count then c.fail .string
      else if ¬ tail.all utf8Tail then (c.advance (1 + (tail.takeWhile utf8Tail).length)).fail .string
      else if utf8Rejected count
          (tail.foldl (fun codepoint value => codepoint * 64 + value.toNat % 64) bits) then
        c.fail .string
      else .ok (c.advance count)

/-- The characters that `strchr` finds in the list of short escapes, which ends in NUL. -/
def shortEscape (c : UInt8) : Bool := c ∈ ascii "\"\\/bfnrt" ++ [0]

/-- `ParseEscape`, at the backslash. -/
def parseEscape (c : JsonCursor) : JsonResult JsonCursor :=
  match c.rest.drop 1 with
  | [] => c.fail .string
  | escaped :: more =>
    if shortEscape escaped then .ok (c.advance 2)
    else if escaped ≠ 117 ∨ more.length < 4 then c.fail .string
    else
      match parseHex4 more with
      | none => (c.advance 2).fail .string
      | some codepoint =>
        if 0xd800 ≤ codepoint ∧ codepoint ≤ 0xdbff then
          let low := more.drop 4
          if low.length < 6 ∨ low.take 2 ≠ [92, 117] then (c.advance 6).fail .string
          else
            match parseHex4 (low.drop 2) with
            | none => (c.advance 8).fail .string
            | some value =>
              if value < 0xdc00 ∨ value > 0xdfff then (c.advance 8).fail .string
              else .ok (c.advance 12)
        else if 0xdc00 ≤ codepoint ∧ codepoint ≤ 0xdfff then (c.advance 2).fail .string
        else .ok (c.advance 6)

/-- The loop of `ParseString`: the cursor at the closing quote, and whether anything was escaped.
Every round takes a byte at least. -/
def scanString (objectKey : Bool) : Nat → JsonCursor → Bool → JsonResult (JsonCursor × Bool)
  | 0, c, _ => c.fail .string
  | fuel + 1, c, escaped =>
    match c.rest with
    | [] => c.fail .string
    | value :: _ =>
      if value = 34 then .ok (c, escaped)
      else if value < 0x20 then c.fail .string
      else if value = 92 then
        match parseEscape c with
        | .error failure => .error failure
        | .ok c => scanString objectKey fuel c true
      else if objectKey ∧ (value < 0x21 ∨ value > 0x7e) then c.fail .string
      else if value ≥ 0x80 then
        match consumeUtf8 c with
        | .error failure => .error failure
        | .ok c => scanString objectKey fuel c escaped
      else scanString objectKey fuel (c.advance 1) escaped

def requireDigits (c : JsonCursor) : JsonResult JsonCursor :=
  if c.rest.head?.any jsonDigit then .ok (skipDigits c) else c.fail .number

def parseInteger (c : JsonCursor) : JsonResult JsonCursor :=
  match c.rest with
  | 48 :: more => if more.head?.any jsonDigit then (c.advance 1).fail .number else .ok (c.advance 1)
  | _ => requireDigits c

def parseFraction (c : JsonCursor) : JsonResult JsonCursor :=
  match c.rest with
  | 46 :: _ => requireDigits (c.advance 1)
  | _ => .ok c

def parseExponent (c : JsonCursor) : JsonResult JsonCursor :=
  match c.rest with
  | e :: more =>
    if e = 101 ∨ e = 69 then
      let signed := more.head?.any fun sign => sign = 43 ∨ sign = 45
      requireDigits (c.advance (if signed then 2 else 1))
    else .ok c
  | [] => .ok c

/-- The text of `ParseNumber`. -/
def scanNumber (c : JsonCursor) : JsonResult JsonCursor :=
  let unsigned := if c.rest.head? = some 45 then c.advance 1 else c
  if c.rest.head? = some 45 ∧ unsigned.rest = [] then c.fail .number
  else
    match parseInteger unsigned with
    | .error failure => .error failure
    | .ok c =>
      match parseFraction c with
      | .error failure => .error failure
      | .ok c => parseExponent c

/-! ### Tokens -/

def JsonToken.text (json : Bytes) (token : JsonToken) : Bytes :=
  (json.drop token.start).take (token.stop - token.start)

/-- The parser between two steps: where it stands, and the tokens so far. -/
structure JsonState where
  cursor : JsonCursor
  tokens : List JsonToken

/-- What a parser is given. -/
structure JsonInput where
  json : Bytes
  capacity : Nat
  maxDepth : Nat

/-- A token gets one more child. -/
def adopt (parent : Int) (tokens : List JsonToken) : List JsonToken :=
  match parent with
  | .ofNat index => tokens.modify index fun token => { token with childCount := token.childCount + 1 }
  | .negSucc _ => tokens

/-- The end of a token that was open. -/
def closeToken (index : Nat) (stop : Nat) (tokens : List JsonToken) : List JsonToken :=
  tokens.modify index fun token => { token with stop := stop }

/-- `AddToken` for the text between two places, with the index of the token. -/
def addToken (input : JsonInput) (type : JsonTokenType) (start stop : Nat) (parent : Int)
    (s : JsonState) : JsonResult (Nat × JsonState) :=
  if s.tokens.length ≥ input.capacity then s.cursor.fail .tokenLimit
  else .ok (s.tokens.length, { s with tokens := adopt parent s.tokens ++ [⟨type, start, stop, parent, 0⟩] })

/-- Which child of the object a token is, counted from one. -/
def childOrdinal (tokens : List JsonToken) (object index : Nat) : Nat :=
  ((tokens.take (index + 1)).drop (object + 1)).countP fun token => token.parent == (object : Int)

/-- `HasDuplicateObjectKey`: the children of an object are keys and values in turn. -/
def hasDuplicateObjectKey (json : Bytes) (tokens : List JsonToken) (object newest : Nat) : Bool :=
  (List.range' (object + 1) (newest - (object + 1))).any fun index =>
    match tokens[index]?, tokens[newest]? with
    | some candidate, some key =>
      candidate.parent == (object : Int) && candidate.type == .string &&
        childOrdinal tokens object index % 2 == 1 && candidate.text json == key.text json
    | _, _ => false

/-! ### The parser -/

/-- `ParseString`, with the index of its token. -/
def parseString (input : JsonInput) (parent : Int) (objectKey : Bool) (s : JsonState) :
    JsonResult (Nat × JsonState) :=
  let opened := s.cursor.advance 1
  match scanString objectKey (opened.rest.length + 1) opened false with
  | .error failure => .error failure
  | .ok (closing, escaped) =>
    if objectKey ∧ escaped then .error { error := .string, offset := opened.position }
    else
      addToken input .string opened.position closing.position parent
        { s with cursor := closing.advance 1 }

def parseLiteral (input : JsonInput) (parent : Int) (literal : Bytes) (type : JsonTokenType)
    (s : JsonState) : JsonResult JsonState :=
  if s.cursor.rest.take literal.length = literal then
    (addToken input type s.cursor.position (s.cursor.position + literal.length) parent
      { s with cursor := s.cursor.advance literal.length }).map Prod.snd
  else s.cursor.fail .syntaxError

def parseNumber (input : JsonInput) (parent : Int) (s : JsonState) : JsonResult JsonState :=
  match scanNumber s.cursor with
  | .error failure => .error failure
  | .ok after =>
    (addToken input .number s.cursor.position after.position parent
      { s with cursor := after }).map Prod.snd

def JsonState.skip (s : JsonState) : JsonState := { s with cursor := skipWhitespace s.cursor }

/-- The end of an object or an array at its bracket. -/
def JsonState.close (s : JsonState) (index : Nat) : JsonState :=
  { cursor := s.cursor.advance 1, tokens := closeToken index (s.cursor.position + 1) s.tokens }

/-- A member of an object up to its value: the key, which must be new, and the colon. -/
def parseKey (input : JsonInput) (object : Nat) (s : JsonState) : JsonResult JsonState :=
  if s.cursor.rest.head? ≠ some 34 then s.cursor.fail .syntaxError
  else
    match parseString input object true s with
    | .error failure => .error failure
    | .ok (key, s') =>
      if hasDuplicateObjectKey input.json s'.tokens object key then
        .error { error := .duplicateKey, offset := s.cursor.position + 1 }
      else if s'.skip.cursor.rest.head? ≠ some 58 then s'.skip.cursor.fail .syntaxError
      else .ok { s'.skip with cursor := s'.skip.cursor.advance 1 }

mutual

/-- `ParseValue`. The fuel bounds the calls below it, each of which is over less text or closer to
taking some. -/
def parseValue (input : JsonInput) : Nat → Int → Nat → JsonState → JsonResult JsonState
  | 0, _, _, s => s.cursor.fail .syntaxError
  | fuel + 1, parent, depth, s =>
    if depth ≥ input.maxDepth then s.cursor.fail .tooDeep
    else
      match s.skip.cursor.rest with
      | [] => s.skip.cursor.fail .syntaxError
      | 123 :: _ => parseObject input fuel parent (depth + 1) s.skip
      | 91 :: _ => parseArray input fuel parent (depth + 1) s.skip
      | 34 :: _ => (parseString input parent false s.skip).map Prod.snd
      | 116 :: _ => parseLiteral input parent (ascii "true") .true s.skip
      | 102 :: _ => parseLiteral input parent (ascii "false") .false s.skip
      | 110 :: _ => parseLiteral input parent (ascii "null") .null s.skip
      | c :: _ =>
        if c = 45 ∨ jsonDigit c then parseNumber input parent s.skip
        else s.skip.cursor.fail .syntaxError

def parseObject (input : JsonInput) : Nat → Int → Nat → JsonState → JsonResult JsonState
  | 0, _, _, s => s.cursor.fail .syntaxError
  | fuel + 1, parent, depth, s =>
    match addToken input .object s.cursor.position s.cursor.position parent
        { s with cursor := s.cursor.advance 1 } with
    | .error failure => .error failure
    | .ok (object, s) =>
      if s.skip.cursor.rest.head? = some 125 then .ok (s.skip.close object)
      else parseMembers input fuel object depth s.skip

/-- The loop of `ParseObject`. -/
def parseMembers (input : JsonInput) : Nat → Nat → Nat → JsonState → JsonResult JsonState
  | 0, _, _, s => s.cursor.fail .syntaxError
  | fuel + 1, object, depth, s =>
    match parseKey input object s with
    | .error failure => .error failure
    | .ok s =>
      match parseValue input fuel object depth s with
      | .error failure => .error failure
      | .ok s =>
        match s.skip.cursor.rest with
        | 125 :: _ => .ok (s.skip.close object)
        | 44 :: _ =>
          parseMembers input fuel object depth
            { s.skip with cursor := skipWhitespace (s.skip.cursor.advance 1) }
        | _ => s.skip.cursor.fail .syntaxError

def parseArray (input : JsonInput) : Nat → Int → Nat → JsonState → JsonResult JsonState
  | 0, _, _, s => s.cursor.fail .syntaxError
  | fuel + 1, parent, depth, s =>
    match addToken input .array s.cursor.position s.cursor.position parent
        { s with cursor := s.cursor.advance 1 } with
    | .error failure => .error failure
    | .ok (array, s) =>
      if s.skip.cursor.rest.head? = some 93 then .ok (s.skip.close array)
      else parseElements input fuel array depth s.skip

/-- The loop of `ParseArray`. -/
def parseElements (input : JsonInput) : Nat → Nat → Nat → JsonState → JsonResult JsonState
  | 0, _, _, s => s.cursor.fail .syntaxError
  | fuel + 1, array, depth, s =>
    if s.cursor.rest = [] then s.cursor.fail .syntaxError
    else
      match parseValue input fuel array depth s with
      | .error failure => .error failure
      | .ok s =>
        match s.skip.cursor.rest with
        | 93 :: _ => .ok (s.skip.close array)
        | 44 :: _ =>
          parseElements input fuel array depth
            { s.skip with cursor := skipWhitespace (s.skip.cursor.advance 1) }
        | _ => s.skip.cursor.fail .syntaxError

end

/-- `ParseJson`: the error with its place, and the tokens of a document that is accepted. -/
structure JsonParseResult where
  error : JsonError
  errorOffset : Nat
  tokens : List JsonToken

def parseJson (json : Bytes) (tokenCapacity maxDepth : Nat) : JsonParseResult :=
  if tokenCapacity = 0 ∨ maxDepth = 0 then ⟨.argument, 0, []⟩
  else if json.length > maximumJsonBytes then ⟨.tooLarge, 0, []⟩
  else
    let start : JsonState := ⟨⟨0, json⟩, []⟩
    match parseValue ⟨json, tokenCapacity, maxDepth⟩ (3 * json.length + 3) (-1) 0 start.skip with
    | .error failure => ⟨failure.error, failure.offset, []⟩
    | .ok s =>
      if s.skip.cursor.rest ≠ [] then ⟨.trailingData, s.skip.cursor.position, []⟩
      else ⟨.ok, s.skip.cursor.position, s.tokens⟩

/-! ### Strings -/

/-- `AppendUtf8`, whose output ends in NUL. -/
def appendUtf8 (codepoint : Nat) (output : Bytes) (outputSize : Nat) : Option Bytes :=
  let encoded : Bytes :=
    if codepoint ≤ 0x7f then [UInt8.ofNat codepoint]
    else if codepoint ≤ 0x7ff then
      [UInt8.ofNat (0xc0 + codepoint / 64), UInt8.ofNat (0x80 + codepoint % 64)]
    else if codepoint ≤ 0xffff then
      [UInt8.ofNat (0xe0 + codepoint / 4096), UInt8.ofNat (0x80 + codepoint / 64 % 64),
        UInt8.ofNat (0x80 + codepoint % 64)]
    else
      [UInt8.ofNat (0xf0 + codepoint / 262144), UInt8.ofNat (0x80 + codepoint / 4096 % 64),
        UInt8.ofNat (0x80 + codepoint / 64 % 64), UInt8.ofNat (0x80 + codepoint % 64)]
  if output.length + encoded.length ≥ outputSize then none else some (output ++ encoded)

def appendByte (value : UInt8) (output : Bytes) (outputSize : Nat) : Option Bytes :=
  if output.length + 1 ≥ outputSize then none else some (output ++ [value])

def decodeShortEscape (c : UInt8) : Option UInt8 :=
  if c = 34 ∨ c = 92 ∨ c = 47 then some c
  else if c = 98 then some 8
  else if c = 102 then some 12
  else if c = 110 then some 10
  else if c = 114 then some 13
  else if c = 116 then some 9
  else none

/-- The code point of an escape after its `u`, and what follows. -/
def decodeUnicodeEscape (text : Bytes) : Option (Nat × Bytes) :=
  if text.length < 4 then none
  else
    (parseHex4 text).bind fun codepoint =>
      let more := text.drop 4
      if 0xd800 ≤ codepoint ∧ codepoint ≤ 0xdbff then
        if more.length < 6 ∨ more.take 2 ≠ [92, 117] then none
        else
          (parseHex4 (more.drop 2)).bind fun low =>
            if low < 0xdc00 ∨ low > 0xdfff then none
            else some (0x10000 + (codepoint - 0xd800) * 1024 + (low - 0xdc00), more.drop 6)
      else some (codepoint, more)

/-- The loop of `JsonCopyString` over the text of a token. Every round takes a byte at least. -/
def copyString (outputSize : Nat) : Nat → Bytes → Bytes → Except JsonError Bytes
  | _, [], output => .ok output
  | 0, _, _ => .error .string
  | fuel + 1, value :: rest, output =>
    if value ≠ 92 then
      match appendByte value output outputSize with
      | none => .error .outputTooSmall
      | some output => copyString outputSize fuel rest output
    else
      match rest with
      | [] => .error .string
      | 117 :: rest =>
        match decodeUnicodeEscape rest with
        | none => .error .string
        | some (codepoint, rest) =>
          match appendUtf8 codepoint output outputSize with
          | none => .error .outputTooSmall
          | some output => copyString outputSize fuel rest output
      | c :: rest =>
        match decodeShortEscape c with
        | none => .error .string
        | some decoded =>
          match appendByte decoded output outputSize with
          | none => .error .outputTooSmall
          | some output => copyString outputSize fuel rest output

/-- `JsonCopyString`: what is written before the terminating NUL. -/
def jsonCopyString (json : Bytes) (token : JsonToken) (outputSize : Nat) : Except JsonError Bytes :=
  if outputSize = 0 then .error .argument
  else if token.type ≠ .string then .error .type
  else copyString outputSize (token.text json).length (token.text json) []

/-! ### Members of objects -/

def jsonStringEquals (json : Bytes) (token : JsonToken) (expected : Bytes) : Bool :=
  token.type = .string ∧ token.stop - token.start = expected.length ∧ token.text json = expected

/-- The loop of `JsonFindObjectMember` over the tokens from an index on. -/
def findObjectMember (json name : Bytes) (object stop : Nat) : Nat → Bool → Bool → List JsonToken → Option Nat
  | _, _, _, [] => none
  | index, expectKey, keyMatches, token :: tokens =>
    if token.start ≥ stop then none
    else if token.parent ≠ object then findObjectMember json name object stop (index + 1) expectKey keyMatches tokens
    else if expectKey then
      if token.type ≠ .string then none
      else findObjectMember json name object stop (index + 1) false (jsonStringEquals json token name) tokens
    else if keyMatches then some index
    else findObjectMember json name object stop (index + 1) true keyMatches tokens

/-- `JsonFindObjectMember`: the index of a value, for which -1 stands if there is none. -/
def jsonFindObjectMember (json : Bytes) (tokens : List JsonToken) (objectIndex : Int) (name : Bytes) : Option Nat :=
  match objectIndex with
  | .negSucc _ => none
  | .ofNat object =>
    match tokens[object]? with
    | none => none
    | some token =>
      if token.type ≠ .object then none
      else findObjectMember json name object token.stop (object + 1) true false (tokens.drop (object + 1))

end Bmx.Update
