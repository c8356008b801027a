import Bmx.Update.HttpBody

/-!
# The head of a response

The update client reads the status line and the fields of a response from what has arrived so far. Fields that frame the
body may come once only.
-/

namespace Bmx.Update

def maximumHttpHeaderBytes : Nat := 32768
def maximumHttpLocationBytes : Nat := 2048
def maximumHttpContentTypeBytes : Nat := 96

/-- The statuses of a head that is not there, or not in order. -/
inductive HttpParseStatus
  | needMoreData | headerTooLarge | invalidStatusLine | invalidHeader | duplicateHeader | unsupportedTransferEncoding
  | unsupportedContentEncoding | ambiguousBodyLength | missingBodyLength | invalidContentLength | missingLocation
  | outputTooSmall

/-! ### Characters -/

/-- `IsTokenCharacter`. `strchr` finds the NUL at the end of its text as well. -/
def isTokenCharacter (c : UInt8) : Bool :=
  (97 ≤ c ∧ c ≤ 122) ∨ (65 ≤ c ∧ c ≤ 90) ∨ (48 ≤ c ∧ c ≤ 57) ∨ c ∈ ascii "!#$%&'*+-.^_`|~" ∨ c = 0

/-- `NameEquals` and `ValueEqualsInsensitive` -/
def equalsInsensitive (text : Bytes) (expected : String) : Bool := text.map asciiLower = ascii expected

def copyValue (value : Bytes) (outputSize : Nat) : Option Bytes := if value.length ≥ outputSize then none else some value

/-- The loop of `ParseDecimal`. -/
def parseDecimalFrom (parsed : Nat) : Bytes → Option Nat
  | [] => some parsed
  | c :: rest =>
    if c < 48 ∨ c > 57 then none
    else if parsed > (uint64Max - (c.toNat - 48)) / 10 then none
    else parseDecimalFrom (parsed * 10 + (c.toNat - 48)) rest

/-- `ParseDecimal` -/
def parseDecimalValue (value : Bytes) : Option Nat := if value = [] then none else parseDecimalFrom 0 value

/-- `FindCrlf`: the line and what follows its end. A line feed by itself ends the search. -/
def findCrlf : Bytes → Option (Bytes × Bytes)
  | c :: d :: rest =>
    if c = cr ∧ d = lf then some ([], rest)
    else if c = lf then none
    else (findCrlf (d :: rest)).map fun found => (c :: found.1, found.2)
  | _ => none

/-! ### The status line -/

def isDigitByte (c : UInt8) : Bool := 48 ≤ c ∧ c ≤ 57

/-- The status code of a line, if it is in order. -/
def parseStatusLine (line : Bytes) : Option Nat :=
  match line.drop 9 with
  | a :: b :: c :: reason =>
    if ((ascii "HTTP/1.1 ").isPrefixOf line ∨ (ascii "HTTP/1.0 ").isPrefixOf line) ∧ 49 ≤ a ∧ a ≤ 53 ∧ isDigitByte b ∧
        isDigitByte c ∧ reason.head?.all (· = 32) ∧ (reason.all fun c => 0x20 ≤ c && c ≤ 0x7e) then
      some ((a.toNat - 48) * 100 + (b.toNat - 48) * 10 + (c.toNat - 48))
    else none
  | _ => none

/-! ### Fields -/

/-- The head as far as it is read, and the fields that have been seen. -/
structure HeadFields where
  head : HttpResponseHead
  sawTransferEncoding : Bool := false
  sawContentEncoding : Bool := false
  sawLocation : Bool := false
  sawContentType : Bool := false
  sawConnection : Bool := false

/-- The head after `memset`, with its status code. -/
def HeadFields.init (statusCode : Nat) : HeadFields where
  head :=
    { statusCode := statusCode, hasContentLength := false, contentLength := 0, chunked := false, connectionClose := false,
      location := [], contentType := [] }

def isBlank (c : UInt8) : Bool := c = 32 ∨ c = 9

def trimBlanks (value : Bytes) : Bytes := ((value.dropWhile isBlank).reverse.dropWhile isBlank).reverse

def takeField (fields : HeadFields) (name value : Bytes) : Except HttpParseStatus HeadFields :=
  if equalsInsensitive name "content-length" then
    if fields.head.hasContentLength then .error .duplicateHeader
    else
      match parseDecimalValue value with
      | none => .error .invalidContentLength
      | some length => .ok { fields with head := { fields.head with contentLength := length, hasContentLength := true } }
  else if equalsInsensitive name "transfer-encoding" then
    if fields.sawTransferEncoding then .error .duplicateHeader
    else if !equalsInsensitive value "chunked" then .error .unsupportedTransferEncoding
    else .ok { fields with sawTransferEncoding := true, head := { fields.head with chunked := true } }
  else if equalsInsensitive name "content-encoding" then
    if fields.sawContentEncoding then .error .duplicateHeader
    else if !equalsInsensitive value "identity" then .error .unsupportedContentEncoding
    else .ok { fields with sawContentEncoding := true }
  else if equalsInsensitive name "location" then
    if fields.sawLocation then .error .duplicateHeader
    else
      match copyValue value maximumHttpLocationBytes with
      | none => .error .outputTooSmall
      | some location => .ok { fields with sawLocation := true, head := { fields.head with location := location } }
  else if equalsInsensitive name "content-type" then
    if fields.sawContentType then .error .duplicateHeader
    else
      match copyValue value maximumHttpContentTypeBytes with
      | none => .error .outputTooSmall
      | some contentType =>
        .ok { fields with sawContentType := true, head := { fields.head with contentType := contentType } }
  else if equalsInsensitive name "connection" then
    if fields.sawConnection then .error .duplicateHeader
    else
      .ok { fields with sawConnection := true, head := { fields.head with connectionClose := equalsInsensitive value "close" } }
  else if equalsInsensitive name "content-range" then .error .invalidHeader
  else .ok fields

def parseField (fields : HeadFields) (line : Bytes) : Except HttpParseStatus HeadFields :=
  let name := line.takeWhile (· ≠ 58)
  match line.drop name.length with
  | [] => .error .invalidHeader
  | _ :: rest =>
    let value := trimBlanks rest
    if name = [] ∨ !name.all isTokenCharacter then .error .invalidHeader
    else if value.any fun c => (c < 0x20 && c ≠ 9) || c = 0x7f then .error .invalidHeader
    else takeField fields name value

/-- What is missing in the input: nothing that could still come if it is as long as a head may be. -/
def endOfInput (full : Bool) : HttpParseStatus := if full then .headerTooLarge else .needMoreData

/-- The loop over the lines, with the bytes before the next one. Each line has at least two bytes, so the length of the
text is enough for the count. -/
def parseFields (full : Bool) : Nat → HeadFields → Nat → Bytes → Except HttpParseStatus (HttpResponseHead × Nat)
  | count + 1, fields, headerBytes, a :: b :: rest =>
    if a = cr ∧ b = lf then .ok (fields.head, headerBytes + 2)
    else if a = 32 ∨ a = 9 then .error .invalidHeader
    else
      match findCrlf (a :: b :: rest) with
      | none => .error (endOfInput full)
      | some (line, rest) =>
        match parseField fields line with
        | .error status => .error status
        | .ok fields => parseFields full count fields (headerBytes + line.length + 2) rest
  | _, _, _, _ => .error (endOfInput full)

def statusMayHaveUnframedBody (status : Nat) : Bool :=
  (100 ≤ status ∧ status < 200) ∨ status = 204 ∨ status = 304 ∨ (300 ≤ status ∧ status < 400)

def checkHead (head : HttpResponseHead) : Except HttpParseStatus HttpResponseHead :=
  if head.hasContentLength ∧ head.chunked then .error .ambiguousBodyLength
  else if !head.hasContentLength ∧ !head.chunked ∧ !statusMayHaveUnframedBody head.statusCode then .error .missingBodyLength
  else if 300 ≤ head.statusCode ∧ head.statusCode < 400 ∧ head.location.headD 0 = 0 then .error .missingLocation
  else .ok head

def parseHead (input : Bytes) : Except HttpParseStatus (HttpResponseHead × Nat) :=
  let full : Bool := input.length = maximumHttpHeaderBytes
  match findCrlf input with
  | none => .error (endOfInput full)
  | some (line, rest) =>
    match parseStatusLine line with
    | none => .error .invalidStatusLine
    | some statusCode =>
      match parseFields full input.length (.init statusCode) (line.length + 2) rest with
      | .error status => .error status
      | .ok (head, headerBytes) => (checkHead head).map fun head => (head, headerBytes)

/-- `ParseHttpResponseHead` of an input that is given: the head and its length, or the status. -/
def parseHttpResponseHead (input : Bytes) : Except HttpParseStatus (HttpResponseHead × Nat) :=
  parseHead (input.take maximumHttpHeaderBytes)

end Bmx.Update
