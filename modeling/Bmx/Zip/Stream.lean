import Bmx.Zip.Inventory

/-!
# Streaming and extracting

`StreamFile` reads one member, feeds its bytes to a hash sink and an extraction sink, and commits
only what it has checked. Everything that extracts is made of calls to it.
-/

namespace Bmx.Zip

open Interaction Update Fallible

/-- The collaborators a caller of `StreamFile` may leave out. -/
structure Sinks where
  hash : Bool
  extract : Bool
  progress : Bool

/-- The running CRC and byte count of a member. -/
structure Produced where
  crc : UInt32
  produced : Nat

def Produced.none : Produced := ⟨0xffffffff, 0⟩

def feedHash (sinks : Sinks) (bytes : Bytes) : ZipM Unit :=
  if sinks.hash then
    ask (S := zipSignature) (.hashUpdate bytes) >>= fun accepted =>
      require (accepted = true) .hashSinkError
  else pure ()

def feedSink (sinks : Sinks) (bytes : Bytes) : ZipM Unit :=
  if sinks.extract then
    ask (S := zipSignature) (.sinkWrite bytes) >>= fun accepted =>
      require (accepted = true) .sinkError
  else pure ()

/-- Output handed to the sinks, in the order of both loops: hash, extraction sink, progress. -/
def deliver (sinks : Sinks) (size : Nat) (bytes : Bytes) (before : Produced) : ZipM Produced := do
  let after : Produced := ⟨updateCrc32 before.crc bytes, before.produced + bytes.length⟩
  feedHash sinks bytes
  feedSink sinks bytes
  reportProgress sinks.progress .stream after.produced size
  pure after

def readSource (offset count : Nat) : ZipM Bytes :=
  ask (S := zipSignature) (.readAt offset count) >>= fun answer =>
    match answer with
    | none => throw .sourceIo
    | some bytes => pure bytes.1

/-- The loop over a stored member. -/
def streamStored (sinks : Sinks) (size : Nat) :
    (fuel offset remaining : Nat) → Produced → ZipM Produced
  | 0, _, _, before => pure before
  | fuel + 1, offset, remaining, before =>
    if remaining ≠ 0 then do
      let amount := min remaining zipInputBufferBytes
      let bytes ← readSource offset amount
      require (before.produced ≤ size ∧ amount ≤ size - before.produced)
        .uncompressedSizeMismatch
      let after ← deliver sinks size bytes before
      streamStored sinks size fuel (offset + amount) (remaining - amount) after
    else pure before

/-- The state of the inflate loop: what is still to be read, what was read and not consumed, and
where the dictionary is written next. -/
structure InflateState where
  remaining : Nat
  sourceOffset : Nat
  pending : Bytes
  dictionaryOffset : Nat
  output : Produced

/-- Input for the next call of the inflater: a new buffer once the old one is used up. -/
def InflateState.refill (state : InflateState) : ZipM InflateState :=
  if state.pending = [] ∧ state.remaining ≠ 0 then
    let amount := min state.remaining zipInputBufferBytes
    readSource state.sourceOffset amount >>= fun bytes =>
      pure { state with pending := bytes, sourceOffset := state.sourceOffset + amount,
                        remaining := state.remaining - amount }
  else pure state

/-- The output of one inflater call, which may be empty. -/
def InflateState.emit (sinks : Sinks) (size : Nat) (state : InflateState) (output : Bytes) :
    ZipM InflateState := do
  require (state.output.produced ≤ size ∧ output.length ≤ size - state.output.produced)
    .uncompressedSizeMismatch
  if output ≠ [] then
    let after ← deliver sinks size output state.output
    pure { state with
      output := after,
      dictionaryOffset := (state.dictionaryOffset + output.length) % zipInflateDictionaryBytes }
  else pure state

/-- An inflater call that ended neither the member nor the loop must leave something to do: it made
progress and can make more, or its input ran out and there is more to read. -/
def InflateState.requireProgress (state : InflateState) (consumed : Nat) (output : Bytes)
    (status : TinflStatus) : ZipM Unit :=
  if consumed = 0 ∧ output = [] then
    require (state.pending = [] ∧ state.remaining ≠ 0) .deflateInvalid
  else
    require (¬ (status = .needsMoreInput ∧ state.pending = [] ∧ state.remaining = 0))
      .deflateInvalid

/-- One round over a deflated member, going on with `next`. -/
def inflateRound (sinks : Sinks) (size : Nat) (next : InflateState → ZipM Produced)
    (state : InflateState) : ZipM Produced := do
  let state ← state.refill
  let answer ← ask (S := zipSignature) (.inflate state.pending
    (zipInflateDictionaryBytes - state.dictionaryOffset) (state.remaining ≠ 0))
  let pending := state.pending.drop answer.consumed
  let state ← InflateState.emit sinks size { state with pending := pending } answer.output
  match answer.status with
  | .failed => throw .deflateInvalid
  | .done =>
    require (state.remaining = 0 ∧ state.pending = []) .deflateInvalid
    pure state.output
  | status =>
    state.requireProgress answer.consumed answer.output status
    next state

def streamDeflated (sinks : Sinks) (size : Nat) : (fuel : Nat) → InflateState → ZipM Produced
  | 0, _ => throw .deflateInvalid
  | fuel + 1, state => inflateRound sinks size (streamDeflated sinks size fuel) state

/-- One of the two loops. Every round of the second consumes input or produces output. -/
def streamMember (sinks : Sinks) (entry : ZipEntry) : ZipM Produced :=
  match entry.compression with
  | .store =>
    streamStored sinks entry.size entry.compressedSize entry.dataOffset entry.compressedSize .none
  | .deflate =>
    ask (S := zipSignature) .inflateInit >>= fun _ =>
      streamDeflated sinks entry.size (entry.compressedSize + entry.size + 1)
        ⟨entry.compressedSize, entry.dataOffset, [], 0, .none⟩

/-- The member's bytes through the sinks, with the size and CRC checks at the end. -/
def streamBody (sinks : Sinks) (entry : ZipEntry) : ZipM Unit := do
  let output ← streamMember sinks entry
  require (output.produced = entry.size) .uncompressedSizeMismatch
  require ((output.crc ^^^ 0xffffffff).toNat = entry.crc32) .crcMismatch

/-- `hash_sink->FinishFile` and the comparison with the expected digest: the status so far, and
whether the hash sink is still started. -/
def finishHash (started : Bool) (expected : ZipExpectedFile) (status : ZipStatus) :
    Program zipSignature (ZipStatus × Bool) :=
  if status = .ok ∧ started then
    Program.perform (S := zipSignature) .hashFinish >>= fun answer =>
      match answer with
      | none => pure (.hashSinkError, true)
      | some digest =>
        match expected.sha256 with
        | none => pure (.ok, false)
        | some wanted =>
          pure (if constantTimeDigestEqual digest wanted then .ok else .hashMismatch, false)
  else pure (status, started)

/-- `extract_sink->CommitEntry`: the status so far, and whether the sink is still started. -/
def commitSink (started : Bool) (entry : ZipEntry) (status : ZipStatus) :
    Program zipSignature (ZipStatus × Bool) :=
  if status = .ok ∧ started then
    Program.perform (S := zipSignature) (.sinkCommit entry) >>= fun committed =>
      if committed then pure (.ok, false) else pure (.sinkError, true)
  else pure (status, started)

def abortHash (started : Bool) : Program zipSignature Unit :=
  if started then Program.perform (S := zipSignature) .hashAbort else pure ()

def abortSink (started : Bool) (entry : ZipEntry) : Program zipSignature Unit :=
  if started then Program.perform (S := zipSignature) (.sinkAbort entry) else pure ()

/-- The end of `StreamFile`, once its body has run with these collaborators started. -/
def closeStream (sinks : Sinks) (entry : ZipEntry) (expected : ZipExpectedFile)
    (status : ZipStatus) : Program zipSignature ZipStatus := do
  let (status, hashStarted) ← finishHash sinks.hash expected status
  let (status, extractStarted) ← commitSink sinks.extract entry status
  abortHash hashStarted
  abortSink extractStarted entry
  pure status

/-- The opening of the extraction sink; when it declines, a started hash is aborted. -/
def beginSink (sinks : Sinks) (entry : ZipEntry) : ZipM Unit :=
  if sinks.extract then
    ask (S := zipSignature) (.sinkBegin entry) >>= fun accepted =>
      if accepted then pure ()
      else
        ExceptT.lift (abortHash sinks.hash) >>= fun _ => throw .sinkError
  else pure ()

def beginHash (sinks : Sinks) (entry : ZipEntry) (expected : ZipExpectedFile) : ZipM Unit :=
  if sinks.hash then
    ask (S := zipSignature) (.hashBegin entry.path entry.size) >>= fun accepted =>
      require (accepted = true) .hashSinkError
  else require (expected.sha256 = none) .hashSinkRequired

/-- Everything before the sinks are fed. -/
def ZipReader.beginStream (reader : ZipReader) (sinks : Sinks) (entry : ZipEntry)
    (expected : ZipExpectedFile) : ZipM Unit := do
  require (reader.hasWorkspace = true) .workspaceRequired
  let size ← ask (S := zipSignature) .getSize
  match size with
  | none => throw .sourceIo
  | some size =>
    require (size = reader.inventory.archiveSize) .offsetInvalid
    beginHash sinks entry expected
    beginSink sinks entry

def ZipReader.streamFile (reader : ZipReader) (sinks : Sinks) (entry : ZipEntry)
    (expected : Option ZipExpectedFile) : Program zipSignature ZipStatus :=
  match expected with
  | none => pure .invalidArgument
  | some expected =>
    if reader.isOpen = false ∨ entry.isDirectory = true then pure .invalidArgument
    else do
      match ← (reader.beginStream sinks entry expected).run with
      | .error status => pure status
      | .ok _ =>
        match ← (streamBody sinks entry).run with
        | .error status => closeStream sinks entry expected status
        | .ok _ => closeStream sinks entry expected .ok

end Bmx.Zip
