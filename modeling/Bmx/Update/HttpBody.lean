import Bmx.Base.Bytes
import Bmx.Interaction.Program

/-!
# The body decoder of the update client

`HttpBodyDecoder` is fed the bytes that follow the head of a response in whatever pieces the network
gives, undoes the framing the head selects and writes the data to a sink. Its only surroundings are
the sink, which may refuse a write.
-/

namespace Bmx.Update

open Interaction

structure HttpResponseHead where
  statusCode : Nat
  hasContentLength : Bool
  contentLength : Nat
  chunked : Bool
  connectionClose : Bool
  location : Bytes
  contentType : Bytes

inductive HttpBodyStatus
  | ok | complete | invalidArgument | tooLarge | sinkRejected | invalidChunk | unexpectedData
  | truncated
  deriving DecidableEq

/-- `HttpBodySink::Write` and whether the sink took the bytes. -/
@[reducible] def bodySinkSignature : Signature := ⟨Bytes, fun _ => Bool⟩

def semicolon : UInt8 := 59

/-- The size of `chunk_line_`. -/
def chunkLineBytes : Nat := 18

inductive HttpBodyDecoder.State
  | contentLength | chunkSize | chunkSizeLf | chunkData | chunkDataCr | chunkDataLf | finalCr
  | finalLf | complete | failed
  deriving DecidableEq

/-- The decoder between two calls. Of `chunk_line_` only the bytes filled so far are kept. -/
structure HttpBodyDecoder where
  state : HttpBodyDecoder.State
  remaining : Nat
  decodedBytes : Nat
  maximumBodyBytes : Nat
  chunkLine : Bytes

namespace HttpBodyDecoder

/-- The constructor. A head that selects no framing, or two, leaves a decoder that has failed. -/
def init (head : HttpResponseHead) (maximumBodyBytes : Nat) (hasSink : Bool) : HttpBodyDecoder where
  state :=
    if hasSink = false ∨ head.hasContentLength = head.chunked then .failed
    else if head.chunked then .chunkSize
    else if head.contentLength > maximumBodyBytes then .failed
    else if head.contentLength = 0 then .complete
    else .contentLength
  remaining := if head.hasContentLength then head.contentLength else 0
  decodedBytes := 0
  maximumBodyBytes := maximumBodyBytes
  chunkLine := []

def fail (d : HttpBodyDecoder) : HttpBodyDecoder := { d with state := .failed }

def write (d : HttpBodyDecoder) (bytes : Bytes) :
    Program bodySinkSignature (HttpBodyStatus × HttpBodyDecoder) :=
  if bytes = [] then .done (.ok, d)
  else if d.decodedBytes > d.maximumBodyBytes ∨
      bytes.length > d.maximumBodyBytes - d.decodedBytes then
    .done (.tooLarge, d.fail)
  else do
    let accepted ← Program.perform (S := bodySinkSignature) bytes
    if accepted then return (.ok, { d with decodedBytes := d.decodedBytes + bytes.length })
    else return (.sinkRejected, d.fail)

def hexDigit (c : UInt8) : Option Nat :=
  if 48 ≤ c ∧ c ≤ 57 then some (c.toNat - 48)
  else if 97 ≤ c ∧ c ≤ 102 then some (c.toNat - 97 + 10)
  else if 65 ≤ c ∧ c ≤ 70 then some (c.toNat - 65 + 10)
  else none

/-- The loop over the digits of a chunk size, with its overflow check. -/
def chunkSizeLoop : Nat → Bytes → Option Nat
  | chunkSize, [] => some chunkSize
  | chunkSize, c :: rest =>
    match hexDigit c with
    | none => none
    | some digit =>
      if chunkSize > (uint64Max - digit) / 16 then none
      else chunkSizeLoop (chunkSize * 16 + digit) rest

/-- The states that consume one byte and write nothing; `none` is `InvalidChunk`. -/
def frameByte (d : HttpBodyDecoder) (c : UInt8) : Option HttpBodyDecoder :=
  match d.state with
  | .chunkSize =>
    if c = cr then
      if d.chunkLine = [] then none
      else
        match chunkSizeLoop 0 d.chunkLine with
        | none => none
        | some size =>
          some { d with state := .chunkSizeLf, remaining := size, chunkLine := [] }
    else if c = lf ∨ c = semicolon ∨ d.chunkLine.length ≥ chunkLineBytes then none
    else some { d with chunkLine := d.chunkLine ++ [c] }
  | .chunkSizeLf =>
    if c = lf then some { d with state := if d.remaining = 0 then .finalCr else .chunkData }
    else none
  | .chunkDataCr => if c = cr then some { d with state := .chunkDataLf } else none
  | .chunkDataLf => if c = lf then some { d with state := .chunkSize } else none
  | .finalCr => if c = cr then some { d with state := .finalLf } else none
  | .finalLf => if c = lf then some { d with state := .complete } else none
  | .contentLength | .chunkData | .complete | .failed => some d

/-- The status of a `Feed` that has consumed everything. -/
def restingStatus (d : HttpBodyDecoder) : HttpBodyStatus :=
  if d.state = .complete then .complete else .ok

/-- The loop of `Feed`. Every pass consumes a byte or returns, so a bound of the number of bytes
never stops it. -/
def feedLoop : Nat → HttpBodyDecoder → Nat → Bytes →
    Program bodySinkSignature (HttpBodyStatus × Nat × HttpBodyDecoder)
  | _, d, consumed, [] => .done (d.restingStatus, consumed, d)
  | 0, d, consumed, _ :: _ => .done (d.restingStatus, consumed, d)
  | fuel + 1, d, consumed, c :: rest =>
    match d.state with
    | .contentLength => do
      let available := (c :: rest).take d.remaining
      let (status, d) ← d.write available
      if status ≠ .ok then return (status, consumed, d)
      let d := { d with remaining := d.remaining - available.length }
      let consumed := consumed + available.length
      let rest := (c :: rest).drop available.length
      if d.remaining = 0 then
        return (if rest = [] then .complete else .unexpectedData, consumed,
          { d with state := .complete })
      feedLoop fuel d consumed rest
    | .chunkData => do
      let (status, d) ← d.write [c]
      if status ≠ .ok then return (status, consumed + 1, d)
      let d := { d with remaining := d.remaining - 1 }
      -- the rest of the data is copied in one write
      let available := rest.take d.remaining
      let (status, d) ← d.write available
      if status ≠ .ok then return (status, consumed + 1, d)
      let d := { d with remaining := d.remaining - available.length }
      let d := if d.remaining = 0 then { d with state := .chunkDataCr } else d
      feedLoop fuel d (consumed + 1 + available.length) (rest.drop available.length)
    | .finalLf =>
      match d.frameByte c with
      | none => .done (.invalidChunk, consumed + 1, d.fail)
      | some d =>
        .done (if rest = [] then .complete else .unexpectedData, consumed + 1, d)
    | _ =>
      match d.frameByte c with
      | none => .done (.invalidChunk, consumed + 1, d.fail)
      | some d => feedLoop fuel d (consumed + 1) rest

/-- `Feed`, with the number of bytes consumed. -/
def feed (d : HttpBodyDecoder) (data : Bytes) :
    Program bodySinkSignature (HttpBodyStatus × Nat × HttpBodyDecoder) :=
  match d.state with
  | .failed => .done (.invalidArgument, 0, d)
  | .complete => .done (if data = [] then .complete else .unexpectedData, 0, d)
  | _ => feedLoop data.length d 0 data

def finish (d : HttpBodyDecoder) : HttpBodyStatus × HttpBodyDecoder :=
  match d.state with
  | .complete => (.complete, d)
  | .failed => (.invalidArgument, d)
  | _ => (.truncated, d.fail)

/-- A caller that feeds the pieces in order, stops at the first error and calls `Finish` when there
are no more. -/
def session (d : HttpBodyDecoder) : List Bytes → Program bodySinkSignature HttpBodyStatus
  | [] => .done d.finish.1
  | piece :: pieces => do
    let (status, _, d) ← d.feed piece
    if status = .ok ∨ status = .complete then d.session pieces
    else return status

end HttpBodyDecoder

end Bmx.Update
