import Bmx.Remote.HttpTypes

/-!
# The request parser

`HttpRequestParser` collects a request head byte by byte and parses it once it ends in an empty
line. What follows the head is left to the caller. When a head is refused, what had been parsed of
the request before stays in it.
-/

namespace Bmx.Remote

inductive HttpRequestParseStatus
  | needMoreData | complete | invalidArgument | headerTooLarge | invalidLineEnding
  | invalidRequestLine | unsupportedMethod | unsupportedVersion | invalidRequestTarget
  | requestTargetTooLong | invalidHeader | tooManyHeaders | invalidContentLength
  | conflictingContentLength | unsupportedTransferEncoding | ambiguousBodyLength
  deriving DecidableEq

/-- `FindCrlf`: what stands before the first line end and after it. -/
def findCrlf : Bytes → Option (Bytes × Bytes)
  | a :: b :: rest =>
    if a = cr ∧ b = lf then some ([], rest)
    else (findCrlf (b :: rest)).map fun (line, after) => (a :: line, after)
  | _ => none

/-- `memchr`, with what stands before the byte and after it. -/
def splitAt (separator : UInt8) : Bytes → Option (Bytes × Bytes)
  | [] => none
  | c :: rest =>
    if c = separator then some ([], rest)
    else (splitAt separator rest).map fun (before, after) => (c :: before, after)

def space : UInt8 := 32

def tab : UInt8 := 9

def parseDecimal (value : Bytes) : Option Nat :=
  if value = [] then none
  else
    value.foldlM (fun result c =>
      if c < 48 ∨ c > 57 then none
      else
        let digit := (c - 48).toNat
        if result > (uint64Max - digit) / 10 then none else some (result * 10 + digit)) 0

def parseMethod (value : Bytes) : Option HttpMethod :=
  if value = ascii "GET" then some .get
  else if value = ascii "HEAD" then some .head
  else if value = ascii "PUT" then some .put
  else if value = ascii "POST" then some .post
  else if value = ascii "DELETE" then some .delete
  else none

/-- The request line, which is `ParseCompleteHead` up to its headers; `none` when it is accepted. -/
def parseRequestLine (line : Bytes) (request : HttpRequestHead) :
    Option HttpRequestParseStatus × HttpRequestHead :=
  match splitAt space line with
  | none => (some .invalidRequestLine, request)
  | some (method, rest) =>
    if method = [] then (some .invalidRequestLine, request)
    else
      match splitAt space rest with
      | none => (some .invalidRequestLine, request)
      | some (target, version) =>
        if target = [] ∨ version = [] ∨ space ∈ version then (some .invalidRequestLine, request)
        else
          match parseMethod method with
          | none => (some .unsupportedMethod, request)
          | some method =>
            let request := { request with method := method }
            if target.length > httpMaximumRequestTargetBytes then
              (some .requestTargetTooLong, request)
            else if target.head? ≠ some slash then (some .invalidRequestTarget, request)
            else if target.any fun c => c ≤ 0x20 ∨ c > 0x7e ∨ c = 35 then
              (some .invalidRequestTarget, request)
            else if version ≠ ascii "HTTP/1.1" then (some .unsupportedVersion, request)
            else
              match splitAt 63 target with
              | none => (none, { request with
                  rawTarget := target, rawPath := some target, rawQuery := [], hasQuery := false })
              | some (path, query) => (none, { request with
                  rawTarget := target, rawPath := some path, rawQuery := query, hasQuery := true })

def isBlank (c : UInt8) : Bool := c = space ∨ c = tab

def trimBlanks (value : Bytes) : Bytes :=
  ((value.dropWhile isBlank).reverse.dropWhile isBlank).reverse

/-- One header; `none` when it is accepted. The last component says whether it is a
Transfer-Encoding. -/
def parseHeader (line : Bytes) (request : HttpRequestHead) :
    Option HttpRequestParseStatus × HttpRequestHead × Bool :=
  if line.head?.any isBlank then (some .invalidHeader, request, false)
  else
    match splitAt 58 line with
    | none => (some .invalidHeader, request, false)
    | some (name, rest) =>
      if name = [] ∨ ¬ name.all isTokenCharacter then (some .invalidHeader, request, false)
      else
        let value := trimBlanks rest
        if value.any fun c => (c < 0x20 ∧ c ≠ tab) ∨ c = 0x7f then
          (some .invalidHeader, request, false)
        else if request.headers.length ≥ httpMaximumRequestHeaders then
          (some .tooManyHeaders, request, false)
        else
          let request := { request with headers := request.headers ++ [⟨name, value⟩] }
          if httpStringEqualsInsensitive name (ascii "Content-Length") then
            match parseDecimal value with
            | none => (some .invalidContentLength, request, false)
            | some parsedLength =>
              if request.hasContentLength ∧ request.contentLength ≠ parsedLength then
                (some .conflictingContentLength, request, false)
              else
                (none, { request with
                  hasContentLength := true, contentLength := parsedLength,
                  contentLengthCount := request.contentLengthCount + 1 }, false)
          else (none, request, httpStringEqualsInsensitive name (ascii "Transfer-Encoding"))

/-- What is decided when all headers have been read. -/
def finishHead (request : HttpRequestHead) (sawTransferEncoding : Bool) : HttpRequestParseStatus :=
  if sawTransferEncoding ∧ request.hasContentLength then .ambiguousBodyLength
  else if sawTransferEncoding then .unsupportedTransferEncoding
  else .complete

/-- The loop over the headers. Every line takes two bytes at least. -/
def parseHeaders : Nat → Bytes → HttpRequestHead → Bool → HttpRequestParseStatus × HttpRequestHead
  | 0, _, request, _ => (.invalidHeader, request)
  | fuel + 1, rest, request, sawTransferEncoding =>
    if rest = [] then (finishHead request sawTransferEncoding, request)
    else
      match findCrlf rest with
      | none => (.invalidHeader, request)
      | some ([], after) =>
        if after ≠ [] then (.invalidHeader, request)
        else (finishHead request sawTransferEncoding, request)
      | some (line, after) =>
        match parseHeader line request with
        | (some status, request, _) => (status, request)
        | (none, request, isTransferEncoding) =>
          parseHeaders fuel after request (sawTransferEncoding || isTransferEncoding)

/-- `ParseCompleteHead` on the bytes collected. -/
def parseCompleteHead (buffer : Bytes) (request : HttpRequestHead) :
    HttpRequestParseStatus × HttpRequestHead :=
  match findCrlf buffer with
  | none => (.invalidRequestLine, request)
  | some (line, rest) =>
    if line = [] then (.invalidRequestLine, request)
    else
      match parseRequestLine line request with
      | (some status, request) => (status, request)
      | (none, request) => parseHeaders (rest.length + 1) rest request false

theorem httpMaximumHeaderBytes_bounds :
    0 < httpMaximumHeaderBytes ∧ httpMaximumHeaderBytes ≤ httpMaximumHeaderBytes := by decide

/-- The members; of the buffer only the bytes in use are kept. -/
structure HttpRequestParser where
  buffer : Bytes := []
  maximumHeaderBytes : Nat := httpMaximumHeaderBytes
  previousWasCr : Bool := false
  status : HttpRequestParseStatus := .needMoreData
  request : HttpRequestHead := {}
  maximum_bounds : 0 < maximumHeaderBytes ∧ maximumHeaderBytes ≤ httpMaximumHeaderBytes := by exact httpMaximumHeaderBytes_bounds

namespace HttpRequestParser

/-- The constructor. -/
def init (maximumHeaderBytes : Nat) : HttpRequestParser :=
  if h : maximumHeaderBytes = 0 ∨ maximumHeaderBytes > httpMaximumHeaderBytes then {}
  else { maximumHeaderBytes := maximumHeaderBytes, maximum_bounds := by omega }

def reset (p : HttpRequestParser) : HttpRequestParser :=
  { maximumHeaderBytes := p.maximumHeaderBytes, maximum_bounds := p.maximum_bounds }

def fail (p : HttpRequestParser) (status : HttpRequestParseStatus) : HttpRequestParser :=
  { p with status := status }

def endsHead (buffer : Bytes) : Bool :=
  buffer.length ≥ 4 ∧ buffer.drop (buffer.length - 4) = [cr, lf, cr, lf]

/-- One more byte of the head. -/
def push (p : HttpRequestParser) (value : UInt8) : HttpRequestParser :=
  { p with buffer := p.buffer ++ [value], previousWasCr := value = cr }

/-- The end of the head is reached. -/
def completeHead (p : HttpRequestParser) : HttpRequestParser :=
  { p with
    status := (parseCompleteHead p.buffer p.request).1
    request := (parseCompleteHead p.buffer p.request).2 }

/-- The loop of `Feed`: how many bytes it consumes, and the parser after it. -/
def feedLoop : HttpRequestParser → Bytes → Nat × HttpRequestParser
  | p, [] => (0, if p.buffer.length = p.maximumHeaderBytes then p.fail .headerTooLarge else p)
  | p, value :: rest =>
    if p.buffer.length ≥ p.maximumHeaderBytes then (0, p.fail .headerTooLarge)
    else if value = 0 then (0, p.fail .invalidHeader)
    else if (p.previousWasCr ∧ value ≠ lf) ∨ (¬ p.previousWasCr ∧ value = lf) then
      (0, p.fail .invalidLineEnding)
    else if endsHead (p.push value).buffer then (1, (p.push value).completeHead)
    else
      let (consumed, p) := feedLoop (p.push value) rest
      (consumed + 1, p)

/-- `Feed`, whose status is the one the parser is left in. -/
def feed (p : HttpRequestParser) (data : Bytes) : Nat × HttpRequestParser :=
  if p.status ≠ .needMoreData then (0, p) else feedLoop p data

end HttpRequestParser

end Bmx.Remote
