import Bmx.Remote.HttpParser
import Bmx.Remote.HttpResponseWriter

/-!
# One connection of the server

`HttpConnection` reads one request head, hands the request to the router, feeds the sink the router
may supply, and writes one response. Every poll does a bounded amount of work.
-/

namespace Bmx.Remote

open Interaction HttpResponseWriter

structure HttpServerConfig where
  maximumConnections : Nat := httpMaximumConnections
  headerTimeoutMs : Nat := 10000
  bodyTimeoutMs : Nat := 300000
  idleTimeoutMs : Nat := 10000
  writeTimeoutMs : Nat := 10000
  streamIdleTimeoutMs : Nat := 0

def HttpServerConfig.valid (config : HttpServerConfig) : Bool :=
  config.maximumConnections ≠ 0 ∧ config.maximumConnections ≤ httpMaximumConnections

inductive HttpConnection.State
  | idle | readingHead | readingBody | writingResponse
  deriving DecidableEq

/-- The members; of the read buffer only the bytes in use are kept. -/
structure HttpConnection where
  active : Bool := false
  state : HttpConnection.State := .idle
  transport : Option TransportId := none
  config : HttpServerConfig := {}
  parser : HttpRequestParser := {}
  bodySink : Option SinkId := none
  bodySinkEnded : Bool := true
  bodyRemaining : Nat := 0
  readBuffer : Bytes := []
  readOffset : Nat := 0
  writer : HttpResponseWriter := {}
  responseCompletion : Option CompletionId := none
  completionNotified : Bool := false
  phaseTimingPending : Bool := false
  phaseStartedMs : Nat := 0
  lastProgressMs : Nat := 0

namespace HttpConnection

abbrev ConnectionMethod := Method httpSignature HttpConnection

def ask (op : HttpOp) : ConnectionMethod op.Answer := Method.call (S := httpSignature) op

def onWriter {α : Type} (m : HttpResponseWriter.WriterMethod α) : ConnectionMethod α :=
  Method.zoom HttpConnection.writer (fun writer c => { c with writer := writer }) m

/-- `Begin`: whether the connection takes the transport, and the connection then. -/
def begin (c : HttpConnection) (transport : Option TransportId) (config : HttpServerConfig)
    (nowMs : Nat) : Bool × HttpConnection :=
  if c.active ∨ c.transport ≠ none ∨ transport = none ∨ ¬ config.valid then (false, c)
  else
    (true, { c with
      active := true, state := .readingHead, transport := transport, config := config,
      parser := c.parser.reset, bodySink := none, bodySinkEnded := true, bodyRemaining := 0,
      readBuffer := [], readOffset := 0, responseCompletion := none, completionNotified := false,
      phaseTimingPending := false, phaseStartedMs := nowMs, lastProgressMs := nowMs })

/-- A duration of zero never expires, nor does a time that is still to come. -/
def expired (nowMs startMs durationMs : Nat) : Bool :=
  durationMs ≠ 0 ∧ nowMs ≥ startMs ∧ nowMs - startMs ≥ durationMs

def errorRequest (c : HttpConnection) : Option HttpRequestHead :=
  if c.parser.request.rawPath = none then none else some c.parser.request

def parseError : HttpRequestParseStatus → HttpServerError
  | .headerTooLarge | .requestTargetTooLong | .tooManyHeaders => .headerTooLarge
  | .unsupportedMethod => .methodNotAllowed
  | .unsupportedVersion => .versionNotSupported
  | _ => .badRequest

/-- The bytes that have been read and not been used yet. -/
def unread (c : HttpConnection) : Bytes := c.readBuffer.drop c.readOffset

def writingResponse (c : HttpConnection) : Bool := c.active ∧ c.state = .writingResponse

def suppressesBody (c : HttpConnection) : Bool :=
  c.parser.status = .complete ∧ c.parser.request.method = .head

def abortBody (reason : HttpBodyAbortReason) : ConnectionMethod Unit := do
  let c ← get
  match c.bodySink with
  | some sink =>
    if c.bodySinkEnded then modify fun c => { c with bodySink := none }
    else
      ask (.sinkAbort sink reason)
      modify fun c => { c with bodySinkEnded := true, bodySink := none }
  | none => pure ()

def notifyCompletion (reason : HttpCompletionReason) : ConnectionMethod Unit := do
  let c ← get
  if c.completionNotified then pure ()
  else
    set { c with completionNotified := true, responseCompletion := none }
    match c.responseCompletion with
    | some completion => ask (.complete completion reason)
    | none => pure ()

def closeTransport : ConnectionMethod Unit := do
  let c ← get
  match c.transport with
  | some transport => ask (.transportClose transport)
  | none => pure ()

def abortWriter : ConnectionMethod Unit := do
  let c ← get
  if c.writer.active then onWriter abort else pure ()

def terminate (reason : HttpCompletionReason) (bodyReason : HttpBodyAbortReason) :
    ConnectionMethod Unit := do
  let c ← get
  if ¬ c.active then pure ()
  else
    abortBody bodyReason
    abortWriter
    notifyCompletion reason
    closeTransport
    modify fun c => { c with active := false, state := .idle }

/-- The end of `BeginResponse`: the response is being written. -/
def enterWriting : ConnectionMethod Unit :=
  modify fun c => { c with
    state := .writingResponse, phaseTimingPending := true,
    responseCompletion := c.writer.response.completion, completionNotified := false }

def rejectResponse (response : HttpResponse) : ConnectionMethod Unit :=
  match response.completion with
  | some completion => ask (.complete completion .invalidResponse)
  | none => pure ()

/-- A response that cannot be sent is replaced by an error of the router, whose completion hook is
dropped. -/
def beginFallback (suppressBody : Bool) : ConnectionMethod Unit := do
  let c ← get
  let fallback ← ask (.errorResponse .internalError c.errorRequest)
  let start ← onWriter (start { fallback with completion := none } suppressBody)
  if start = .ok then enterWriting
  else terminate .invalidResponse .transportError

def beginResponse (response : HttpResponse) : ConnectionMethod Unit := do
  let c ← get
  let start ← onWriter (start response c.suppressesBody)
  if start = .ok then enterWriting
  else
    rejectResponse response
    beginFallback c.suppressesBody

def beginError (error : HttpServerError) : ConnectionMethod Unit := do
  let c ← get
  let response ← ask (.errorResponse error c.errorRequest)
  beginResponse response

def finishBody : ConnectionMethod Unit := do
  let c ← get
  match c.bodySink with
  | none => beginError .internalError
  | some sink =>
    if c.bodySinkEnded then beginError .internalError
    else
      set { c with bodySinkEnded := true, bodySink := none }
      match ← ask (.sinkFinish sink) with
      | none =>
        ask (.sinkAbort sink .sinkRejected)
        beginError .bodyRejected
      | some response => beginResponse response

def rejectBody : ConnectionMethod Unit := do
  let c ← get
  match c.bodySink with
  | none => beginError .internalError
  | some sink =>
    if c.bodySinkEnded then beginError .internalError
    else
      set { c with bodySinkEnded := true, bodySink := none }
      match ← ask (.sinkReject sink) with
      | some response => beginResponse response
      | none =>
        ask (.sinkAbort sink .sinkRejected)
        beginError .bodyRejected

/-- The sink of a body, when its length is known and not too large. -/
def receiveBody (sink : SinkId) (maximumBodyBytes : Nat) : ConnectionMethod Unit := do
  modify fun c => { c with bodySink := some sink, bodySinkEnded := false }
  let c ← get
  if ¬ c.parser.request.hasContentLength then
    abortBody .missingLength
    beginError .lengthRequired
  else if c.parser.request.contentLength > maximumBodyBytes then
    abortBody .tooLarge
    beginError .payloadTooLarge
  else
    modify fun c => { c with
      bodyRemaining := c.parser.request.contentLength, state := .readingBody,
      phaseTimingPending := true }
    let c ← get
    if c.bodyRemaining = 0 then
      if c.readOffset < c.readBuffer.length then
        abortBody .unexpectedData
        beginError .unexpectedBodyData
      else finishBody
    else pure ()

def routeRequest : ConnectionMethod Unit := do
  let c ← get
  let route ← ask (.route c.parser.request)
  match route.action, route.bodySink with
  | .respond, _ => beginResponse route.response
  | .receiveBody, some sink => receiveBody sink route.maximumBodyBytes
  | _, _ => beginError .internalError

/-- One round of the loop while the head is read: whether the loop goes on. -/
def processHead : ConnectionMethod Bool := do
  let c ← get
  let (consumed, parser) := c.parser.feed c.unread
  set { c with parser := parser, readOffset := c.readOffset + consumed }
  if parser.status = .needMoreData then return false
  else if parser.status ≠ .complete then
    beginError (parseError parser.status)
    return false
  else
    routeRequest
    return true

def writeBody (sink : SinkId) (data : Bytes) : ConnectionMethod Bool :=
  if data = [] then pure true else ask (.sinkWrite sink data)

/-- One round of the loop while the body is read: whether the loop goes on. A connection that reads
a body has a sink. -/
def processBody : ConnectionMethod Bool := do
  let c ← get
  let available := c.unread.length
  if available > c.bodyRemaining then
    abortBody .unexpectedData
    beginError .unexpectedBodyData
    return false
  else
    match c.bodySink with
    | none => return false
    | some sink =>
      let taken ← writeBody sink c.unread
      modify fun c => { c with readOffset := c.readOffset + available }
      if ¬ taken then
        rejectBody
        return false
      else
        modify fun c => { c with bodyRemaining := c.bodyRemaining - available }
        let c ← get
        if c.bodyRemaining = 0 then
          finishBody
          return true
        else return true

/-- The loop of `ProcessBufferedInput`. Every round that goes on has used a byte. -/
def processLoop : Nat → ConnectionMethod Unit
  | 0 => pure ()
  | fuel + 1 => do
    let c ← get
    if c.active ∧ c.readOffset < c.readBuffer.length then
      let more ←
        match c.state with
        | .readingHead => processHead
        | .readingBody => processBody
        -- an early response ignores the unread body, which goes with the connection
        | .idle | .writingResponse => pure false
      if more then processLoop fuel else pure ()
    else pure ()

def processBufferedInput : ConnectionMethod Unit := do
  let c ← get
  processLoop (c.unread.length + 1)
  modify fun c =>
    if c.readOffset = c.readBuffer.length then { c with readOffset := 0, readBuffer := [] } else c

/-- While no response bytes are pending, the request side is probed for the end of the peer. -/
def probe (transport : TransportId) : ConnectionMethod Unit := do
  let (status, data) ← ask (.transportRead transport httpConnectionReadBufferBytes)
  match status, data with
  | .wouldBlock, [] => pure ()
  | .closed, [] => terminate .clientDisconnected .clientDisconnected
  | _, _ => terminate .transportError .transportError

def concludePoll (transport : TransportId) : HttpResponseWriteStatus → ConnectionMethod Unit
  | .pending => pure ()
  | .waitingForStream => probe transport
  | .complete => terminate .responseSent .serverStopped
  | .clientDisconnected => terminate .clientDisconnected .clientDisconnected
  | .transportError | .invalidState => terminate .transportError .transportError
  | .streamError => terminate .streamError .transportError

/-- `PollResponse`, with whether it made progress. -/
def pollResponse (transport : TransportId) (nowMs : Nat) : ConnectionMethod Bool := do
  let c ← get
  if c.writer.streaming ∧ c.readOffset < c.readBuffer.length then
    terminate .transportError .unexpectedData
    return false
  if c.writer.hasPendingOutput ∧ expired nowMs c.lastProgressMs c.config.writeTimeoutMs then
    terminate .timeout .timeout
    return false
  if c.writer.streaming ∧ ¬ c.writer.hasPendingOutput ∧
      expired nowMs c.lastProgressMs c.config.streamIdleTimeoutMs then
    terminate .timeout .timeout
    return false
  let (status, progress) ← onWriter (poll transport)
  modify fun c => if progress then { c with lastProgressMs := nowMs } else c
  concludePoll transport status
  return progress

def pollRead (transport : TransportId) (nowMs : Nat) : ConnectionMethod Bool := do
  let (status, data) ← ask (.transportRead transport httpConnectionReadBufferBytes)
  match status with
  | .progress =>
    if data = [] ∨ data.length > httpConnectionReadBufferBytes then
      terminate .transportError .transportError
      return false
    modify fun c => { c with readBuffer := data, readOffset := 0, lastProgressMs := nowMs }
    processBufferedInput
    return true
  | .wouldBlock =>
    if data ≠ [] then terminate .transportError .transportError
    return false
  | .closed =>
    terminate .clientDisconnected .clientDisconnected
    return false
  | .error =>
    terminate .transportError .transportError
    return false

/-- A phase that was entered in an earlier poll begins now. -/
def armPhase (c : HttpConnection) (nowMs : Nat) : HttpConnection :=
  if c.phaseTimingPending then
    { c with phaseTimingPending := false, phaseStartedMs := nowMs, lastProgressMs := nowMs }
  else c

/-- `Poll` of a connection that is active, with whether it made progress. -/
def pollActive (transport : TransportId) (nowMs : Nat) : ConnectionMethod Bool := do
  modify fun c => c.armPhase nowMs
  let c ← get
  if c.state = .writingResponse then pollResponse transport nowMs
  else if c.state = .readingHead ∧ (expired nowMs c.phaseStartedMs c.config.headerTimeoutMs ∨
      expired nowMs c.lastProgressMs c.config.idleTimeoutMs) then
    beginError .requestTimeout
    return false
  else if c.state = .readingBody ∧ (expired nowMs c.phaseStartedMs c.config.bodyTimeoutMs ∨
      expired nowMs c.lastProgressMs c.config.idleTimeoutMs) then
    abortBody .timeout
    beginError .requestTimeout
    return false
  else if c.readOffset < c.readBuffer.length then
    processBufferedInput
    return true
  else pollRead transport nowMs

/-- `Poll`, with whether it made progress. An active connection has a transport. -/
def poll (nowMs : Nat) : ConnectionMethod Bool := do
  let c ← get
  match c.active, c.transport with
  | true, some transport => pollActive transport nowMs
  | _, _ => return false

def stop : ConnectionMethod Unit := terminate .serverStopped .serverStopped

def takeFinishedTransport (c : HttpConnection) : Option TransportId × HttpConnection :=
  if c.active then (none, c) else (c.transport, { c with transport := none })

end HttpConnection

end Bmx.Remote
