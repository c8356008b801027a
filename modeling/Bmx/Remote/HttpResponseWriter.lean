import Bmx.Remote.HttpTypes

/-!
# The response writer

`HttpResponseWriter` serialises the head of one response and sends it, and then the body, through
any pattern of partial writes. A stream is asked for more only when its last fragment has been sent.
-/

namespace Bmx.Remote

open Interaction

inductive HttpResponseStartStatus
  | ok | invalidResponse | tooManyHeaders | headerTooLarge | invalidHeader | invalidFraming
  deriving DecidableEq

inductive HttpResponseWriteStatus
  | pending | waitingForStream | complete | clientDisconnected | transportError | streamError
  | invalidState
  deriving DecidableEq

inductive HttpResponseWriter.State
  | idle | headers | fixedBody | streamBody | complete | failed
  deriving DecidableEq

/-- The members; of the two buffers only the bytes in use are kept. -/
structure HttpResponseWriter where
  response : HttpResponse := {}
  state : HttpResponseWriter.State := .idle
  suppressBody : Bool := false
  streamActivated : Bool := false
  streamFinished : Bool := false
  streamCancelled : Bool := false
  header : Bytes := []
  headerOffset : Nat := 0
  fixedOffset : Nat := 0
  streamBuffer : Bytes := []
  streamOffset : Nat := 0

namespace HttpResponseWriter

def validHeaderName (name : Bytes) : Bool := name ≠ [] ∧ name.all isTokenCharacter

def validHeaderValue (value : Bytes) : Bool :=
  value.all fun c => ¬ ((c < 0x20 ∧ c ≠ 9) ∨ c = 0x7f)

def validReasonPhrase (value : Bytes) : Bool :=
  value ≠ [] ∧ value.all fun c => ¬ (c < 0x20 ∨ c > 0x7e)

def isFramingHeader (name : Bytes) : Bool :=
  httpStringEqualsInsensitive name (ascii "Content-Length") ∨
    httpStringEqualsInsensitive name (ascii "Transfer-Encoding") ∨
    httpStringEqualsInsensitive name (ascii "Connection")

/-- The decimal digits `AppendUnsigned` writes. -/
def unsigned (value : Nat) : Bytes := (Nat.toDigits 10 value).map fun c => UInt8.ofNat c.toNat

/-- `Append`, which fails when the buffer is full. -/
def append (header value : Bytes) : Option Bytes :=
  if value.length > httpMaximumResponseHeaderBytes - header.length then none
  else some (header ++ value)

/-- Append the values one after the other. -/
def appendAll : Bytes → List Bytes → Option Bytes
  | header, [] => some header
  | header, value :: values =>
    match append header value with
    | none => none
    | some header => appendAll header values

def appendHeaders : Bytes → List HttpHeaderView → Except HttpResponseStartStatus Bytes
  | header, [] => .ok header
  | header, next :: rest =>
    if ¬ validHeaderName next.name ∨ ¬ validHeaderValue next.value ∨ isFramingHeader next.name then
      .error .invalidHeader
    else
      match appendAll header [next.name, ascii ": ", next.value, crlf] with
      | none => .error .headerTooLarge
      | some header => appendHeaders header rest

/-- The length `Start` announces for a body that is not a stream. -/
def announcedLength (response : HttpResponse) : Nat :=
  match response.bodyKind with
  | .fixed => response.fixedBody.length
  | .headOnly => response.declaredContentLength
  | .empty | .stream => 0

/-- The checks of `Start` and the head it serialises. -/
def serialize (response : HttpResponse) (suppressBody : Bool) :
    Except HttpResponseStartStatus Bytes :=
  if response.statusCode < 100 ∨ response.statusCode > 599 ∨
      ¬ validReasonPhrase response.reasonPhrase ∨
      response.headers.length > httpMaximumResponseHeaders then .error .invalidResponse
  else if response.bodyKind = .fixed ∧ response.fixedBody.length ≠ 0 ∧ response.fixedBodyNull then
    .error .invalidResponse
  else if response.bodyKind = .headOnly ∧ ¬ suppressBody then .error .invalidFraming
  else if response.bodyKind = .stream ∧ response.stream = none then .error .invalidResponse
  else
    match appendAll [] [ascii "HTTP/1.1 ", unsigned response.statusCode, ascii " ",
      response.reasonPhrase, crlf] with
    | none => .error .headerTooLarge
    | some header =>
      match appendHeaders header response.headers with
      | .error status => .error status
      | .ok header =>
        match (if response.bodyKind ≠ .stream then
            appendAll header [ascii "Content-Length: ", unsigned (announcedLength response), crlf]
          else some header) with
        | none => .error .headerTooLarge
        | some header =>
          match append header (ascii "Connection: close\r\n\r\n") with
          | none => .error .headerTooLarge
          | some header => .ok header

def active (w : HttpResponseWriter) : Bool :=
  w.state = .headers ∨ w.state = .fixedBody ∨ w.state = .streamBody

def hasPendingOutput (w : HttpResponseWriter) : Bool :=
  match w.state with
  | .headers => w.headerOffset < w.header.length
  | .fixedBody => w.fixedOffset < w.response.fixedBody.length
  | .streamBody => w.streamOffset < w.streamBuffer.length
  | _ => false

def streaming (w : HttpResponseWriter) : Bool := w.response.bodyKind = .stream

abbrev WriterMethod := Method httpSignature HttpResponseWriter

def abort : WriterMethod Unit := do
  let w ← get
  if w.streamActivated ∧ ¬ w.streamFinished ∧ ¬ w.streamCancelled then
    if let some stream := w.response.stream then
      Method.call (S := httpSignature) (.streamCancel stream)
      modify fun w => { w with streamCancelled := true }
  modify fun w => if w.state ≠ .complete then { w with state := .failed } else w

/-- `Start`. The header of a response that is not accepted is never read. -/
def start (response : HttpResponse) (suppressBody : Bool) : WriterMethod HttpResponseStartStatus := do
  if (← get).active then abort
  match serialize response suppressBody with
  | .error status =>
    set ({ response := response, state := .failed, suppressBody := suppressBody } : HttpResponseWriter)
    return status
  | .ok header =>
    -- from here on the response owns its stream, even while the head is still being sent
    set ({ response := response, state := .headers, suppressBody := suppressBody,
           streamActivated := response.bodyKind = .stream ∧ ¬ suppressBody,
           header := header } : HttpResponseWriter)
    return .ok

def enterBodyState (w : HttpResponseWriter) : HttpResponseWriter :=
  if w.suppressBody ∨ w.response.bodyKind = .empty ∨ w.response.bodyKind = .headOnly ∨
      (w.response.bodyKind = .fixed ∧ w.response.fixedBody.length = 0) then
    { w with state := .complete }
  else if w.response.bodyKind = .fixed then { w with state := .fixedBody }
  else if w.response.bodyKind = .stream then { w with state := .streamBody }
  else { w with state := .failed }

/-- `WritePending`: the status and by how much the offset advances, which is also whether there was
progress. -/
def writePending (transport : TransportId) (data : Bytes) (offset : Nat) :
    WriterMethod (HttpResponseWriteStatus × Nat) := do
  if offset ≥ data.length then return (.invalidState, 0)
  let requested := data.length - offset
  let (status, size) ← Method.call (S := httpSignature) (.transportWrite transport (data.drop offset))
  match status with
  | .progress =>
    if size = 0 ∨ size > requested then return (.transportError, 0)
    return (.pending, size)
  | .wouldBlock =>
    if size ≠ 0 then return (.transportError, 0)
    return (.pending, 0)
  | .closed => return (.clientDisconnected, 0)
  | .error => return (.transportError, 0)

def pollFragment (transport : TransportId) : WriterMethod (HttpResponseWriteStatus × Bool) := do
  let w ← get
  let (status, advance) ← writePending transport w.streamBuffer w.streamOffset
  modify fun w => { w with streamOffset := w.streamOffset + advance }
  return (status, advance ≠ 0)

/-- `Poll`, with whether it made progress. -/
def poll (transport : TransportId) : WriterMethod (HttpResponseWriteStatus × Bool) := do
  let w ← get
  match w.state with
  | .complete => return (.complete, false)
  | .idle | .failed => return (.invalidState, false)
  | .headers =>
    let (status, advance) ← writePending transport w.header w.headerOffset
    modify fun w => { w with headerOffset := w.headerOffset + advance }
    if status ≠ .pending then return (status, advance ≠ 0)
    let w ← get
    if w.headerOffset = w.header.length then
      modify enterBodyState
      let w ← get
      return (if w.state = .complete then .complete else .pending, advance ≠ 0)
    return (.pending, advance ≠ 0)
  | .fixedBody =>
    let (status, advance) ← writePending transport w.response.fixedBody w.fixedOffset
    modify fun w => { w with fixedOffset := w.fixedOffset + advance }
    if status ≠ .pending then return (status, advance ≠ 0)
    let w ← get
    if w.fixedOffset = w.response.fixedBody.length then
      modify fun w => { w with state := .complete }
      return (.complete, advance ≠ 0)
    return (.pending, advance ≠ 0)
  | .streamBody =>
    if w.streamOffset = w.streamBuffer.length then
      modify fun w => { w with streamOffset := 0, streamBuffer := [] }
      let (read, produced) ← Method.call (S := httpSignature)
        (.streamRead (w.response.stream.getD 0) httpResponseStreamBufferBytes)
      match read with
      | .wouldBlock =>
        return (if produced = [] then .waitingForStream else .streamError, false)
      | .ended =>
        if produced ≠ [] then return (.streamError, false)
        modify fun w => { w with streamFinished := true, state := .complete }
        return (.complete, false)
      | .error => return (.streamError, false)
      | .data =>
        if produced = [] ∨ produced.length > httpResponseStreamBufferBytes then
          return (.streamError, false)
        modify fun w => { w with streamBuffer := produced }
        pollFragment transport
    else pollFragment transport

end HttpResponseWriter

end Bmx.Remote
