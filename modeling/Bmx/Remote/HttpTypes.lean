import Bmx.Base.Bytes
import Bmx.Interaction.Shared

/-!
# The HTTP server's types and surroundings

A string view is the list of its bytes. Transports, sinks, streams and completion hooks are objects
of others; they are known by a number, and a null pointer is `none`.
-/

namespace Bmx.Remote

open Interaction

def httpMaximumHeaderBytes : Nat := 8192
def httpMaximumRequestTargetBytes : Nat := 2048
def httpMaximumRequestHeaders : Nat := 64
def httpMaximumResponseHeaders : Nat := 16
def httpMaximumResponseHeaderBytes : Nat := 2048
def httpConnectionReadBufferBytes : Nat := 2048
def httpResponseStreamBufferBytes : Nat := 1024
def httpMaximumConnections : Nat := 6

inductive HttpMethod
  | get | head | put | post | delete
  deriving DecidableEq

structure HttpHeaderView where
  name : Bytes
  value : Bytes
  deriving DecidableEq

structure HttpRequestHead where
  method : HttpMethod := .get
  rawTarget : Bytes := []
  /-- `none` until a request line has been parsed. -/
  rawPath : Option Bytes := none
  rawQuery : Bytes := []
  hasQuery : Bool := false
  headers : List HttpHeaderView := []
  hasContentLength : Bool := false
  contentLength : Nat := 0
  contentLengthCount : Nat := 0
  deriving DecidableEq

inductive HttpStreamReadResult
  | data | wouldBlock | ended | error
  deriving DecidableEq

inductive HttpCompletionReason
  | responseSent | clientDisconnected | timeout | transportError | streamError | serverStopped
  | invalidResponse
  deriving DecidableEq

inductive HttpResponseBodyKind
  | empty | fixed | headOnly | stream
  deriving DecidableEq

abbrev StreamId := Nat
abbrev CompletionId := Nat
abbrev SinkId := Nat
abbrev TransportId := Nat

structure HttpResponse where
  statusCode : Nat := 500
  reasonPhrase : Bytes := []
  headers : List HttpHeaderView := []
  bodyKind : HttpResponseBodyKind := .empty
  fixedBody : Bytes := []
  /-- `fixed_body` is null although `fixed_body_size` may not be zero. -/
  fixedBodyNull : Bool := false
  declaredContentLength : Nat := 0
  stream : Option StreamId := none
  completion : Option CompletionId := none
  deriving DecidableEq

inductive HttpIoStatus
  | progress | wouldBlock | closed | error
  deriving DecidableEq

inductive HttpBodyAbortReason
  | missingLength | tooLarge | unexpectedData | sinkRejected | clientDisconnected | timeout
  | transportError | serverStopped
  deriving DecidableEq

inductive HttpServerError
  | badRequest | headerTooLarge | methodNotAllowed | versionNotSupported | requestTimeout
  | lengthRequired | payloadTooLarge | unexpectedBodyData | bodyRejected | internalError
  deriving DecidableEq

inductive HttpRouteAction
  | invalid | respond | receiveBody
  deriving DecidableEq

structure HttpRouteResult where
  action : HttpRouteAction := .invalid
  response : HttpResponse := {}
  bodySink : Option SinkId := none
  maximumBodyBytes : Nat := 0

/-- What a connection calls: its transport, its router, the sink of a request body, the stream of a
response body and the completion hook. -/
inductive HttpOp
  | transportRead (transport : TransportId) (capacity : Nat)
  | transportWrite (transport : TransportId) (data : Bytes)
  | transportClose (transport : TransportId)
  | route (request : HttpRequestHead)
  | errorResponse (error : HttpServerError) (request : Option HttpRequestHead)
  | sinkWrite (sink : SinkId) (data : Bytes)
  | sinkReject (sink : SinkId)
  | sinkFinish (sink : SinkId)
  | sinkAbort (sink : SinkId) (reason : HttpBodyAbortReason)
  | streamRead (stream : StreamId) (capacity : Nat)
  | streamCancel (stream : StreamId)
  | complete (completion : CompletionId) (reason : HttpCompletionReason)

/-- The bytes of a read are those in the buffer, as many as the size that is reported. `none` is a
sink that returns false. -/
@[reducible] def HttpOp.Answer : HttpOp → Type
  | .transportRead _ _ => HttpIoStatus × Bytes
  | .transportWrite _ _ => HttpIoStatus × Nat
  | .route _ => HttpRouteResult
  | .errorResponse _ _ => HttpResponse
  | .sinkWrite _ _ => Bool
  | .sinkReject _ | .sinkFinish _ => Option HttpResponse
  | .streamRead _ _ => HttpStreamReadResult × Bytes
  | .transportClose _ | .sinkAbort _ _ | .streamCancel _ | .complete _ _ => Unit

@[reducible] def httpSignature : Signature := ⟨HttpOp, HttpOp.Answer⟩

/-- `IsTokenCharacter`. `strchr` finds the terminator of its string too, so NUL is a token character
here. -/
def isTokenCharacter (value : UInt8) : Bool :=
  (97 ≤ value ∧ value ≤ 122) ∨ (65 ≤ value ∧ value ≤ 90) ∨ (48 ≤ value ∧ value ≤ 57) ∨
    value ∈ ascii "!#$%&'*+-.^_`|~" ∨ value = 0

def httpStringEqualsInsensitive (value expected : Bytes) : Bool := foldEqual value expected

def crlf : Bytes := [cr, lf]

end Bmx.Remote
