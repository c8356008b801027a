import Bmx.Interaction.Monitor
import Bmx.Zip.Extract

/-!
# The sink protocol

A monitor watches the calls to the two sinks. It holds what the extraction sink and the hash sink
have accepted so far, and admits a commit only of bytes that are the whole, checked member.
-/

namespace Bmx.Zip

open Interaction Update Fallible InflateState

/-! ### The monitor -/

/-- What an exchange does to the extraction sink. -/
def sinkAct : Event zipSignature → Option (Act ZipEntry UInt8)
  | ⟨.sinkBegin entry, accepted⟩ => some (.start entry accepted)
  | ⟨.sinkWrite bytes, accepted⟩ => some (.feed bytes accepted)
  | ⟨.sinkCommit entry, accepted⟩ => some (.finish entry accepted)
  | ⟨.sinkAbort entry, _⟩ => some (.abort entry)
  | _ => none

/-- What an exchange does to the hash sink, which is told the name only at the start. -/
def hashAct : Event zipSignature → Option (Act Unit UInt8)
  | ⟨.hashBegin _ _, accepted⟩ => some (.start () accepted)
  | ⟨.hashUpdate bytes, accepted⟩ => some (.feed bytes accepted)
  | ⟨.hashFinish, answer⟩ => some (.finish () answer.isSome)
  | ⟨.hashAbort, _⟩ => some (.abort ())
  | _ => none

/-- What the extraction sink has accepted of whole members. -/
inductive Milestone
  | begun (entry : ZipEntry)
  | committed (entry : ZipEntry)

/-- The two sinks, the digest reported last with the bytes it was of, and the milestones passed. -/
structure Protocol where
  sink : Transaction ZipEntry UInt8
  hash : Transaction Unit UInt8
  digest : Option (Bytes × Digest)
  log : List Milestone

namespace Protocol

def start : Protocol := ⟨.idle, .idle, none, []⟩

def noteDigest (p : Protocol) : Event zipSignature → Option (Bytes × Digest)
  | ⟨.hashFinish, some digest⟩ =>
    match p.hash with
    | .active _ fed => some (fed, digest)
    | _ => p.digest
  | _ => p.digest

def noteMilestone (p : Protocol) : Event zipSignature → List Milestone
  | ⟨.sinkBegin entry, true⟩ => p.log ++ [.begun entry]
  | ⟨.sinkCommit entry, true⟩ => p.log ++ [.committed entry]
  | _ => p.log

def observe (p : Protocol) (event : Event zipSignature) : Protocol where
  sink := p.sink.after (sinkAct event)
  hash := p.hash.after (hashAct event)
  digest := p.noteDigest event
  log := p.noteMilestone event

/-- Between two members: neither sink is open. -/
def Idle (p : Protocol) : Prop := p.sink = .idle ∧ p.hash = .idle

/-- The extraction sink holds the whole member, of its size, its CRC and its expected digest. -/
def Verified (expected : ZipExpectedInventory) (entry : ZipEntry) (p : Protocol) : Prop :=
  ∃ fed, p.sink = .active entry fed ∧ fed.length = entry.size ∧ crc32 fed = entry.crc32 ∧
    (entry.isDirectory = false → ∀ file digest, findExpectedFile expected entry.path = some file →
      file.sha256 = some digest → p.digest = some (fed, digest))

/-- When the reader may make a call. A sink may be good for some members only: `permit` says after
which milestones it can be opened for which entry. -/
def Allows (expected : ZipExpectedInventory) (permit : List Milestone → ZipEntry → Prop) :
    ZipOp → Protocol → Prop
  | .sinkBegin entry, p => p.sink = .idle ∧ permit p.log entry
  | .sinkWrite _, p => ∃ entry fed, p.sink = .active entry fed
  | .sinkCommit entry, p => p.Verified expected entry
  | .sinkAbort entry, p => p.sink.IsOpen entry
  | .hashBegin _ _, p => p.hash = .idle
  | .hashUpdate _, p => ∃ fed, p.hash = .active () fed
  | .hashFinish, p => ∃ fed, p.hash = .active () fed
  | .hashAbort, p => p.hash.IsOpen ()
  | _, _ => True

theorem IsOpen.admits_abort {κ α : Type} {t : Transaction κ α} {key : κ} (h : t.IsOpen key) :
    t.Admits (.abort key) := by
  rcases h with ⟨fed, rfl⟩ | rfl <;> rfl

variable {expected : ZipExpectedInventory} {permit : List Milestone → ZipEntry → Prop}

theorem allows_sink (event : Event zipSignature)
    (act : Act ZipEntry UInt8) (p : Protocol) (hact : sinkAct event = some act)
    (hallows : Allows expected permit event.op p) : p.sink.Admits act := by
  obtain ⟨op, answer⟩ := event
  cases op <;> cases hact
  case sinkBegin entry =>
    rw [show p.sink = .idle from hallows.1]
    trivial
  case sinkWrite bytes =>
    obtain ⟨entry, fed, h⟩ := hallows
    rw [h]
    trivial
  case sinkCommit entry =>
    obtain ⟨fed, h, -⟩ := hallows
    rw [h]
    rfl
  case sinkAbort entry => exact IsOpen.admits_abort hallows

theorem allows_hash (event : Event zipSignature)
    (act : Act Unit UInt8) (p : Protocol) (hact : hashAct event = some act)
    (hallows : Allows expected permit event.op p) : p.hash.Admits act := by
  obtain ⟨op, answer⟩ := event
  cases op <;> cases hact
  case hashBegin path size =>
    rw [show p.hash = .idle from hallows]
    trivial
  case hashUpdate bytes =>
    obtain ⟨fed, h⟩ := hallows
    rw [h]
    trivial
  case hashFinish =>
    obtain ⟨fed, h⟩ := hallows
    rw [h]
    rfl
  case hashAbort => exact IsOpen.admits_abort hallows

end Protocol

/-- The calls of the reader, watched. -/
def protocolContract (expected : ZipExpectedInventory) (permit : List Milestone → ZipEntry → Prop) :
    Contract zipSignature Protocol :=
  monitorContract (Protocol.Allows expected permit) Protocol.observe

/-! ### Feeding the sinks -/

/-- The member's first bytes are in the sinks that take part. -/
structure Streaming (sinks : Sinks) (entry : ZipEntry) (fed : Bytes) (p : Protocol) : Prop where
  sink : p.sink = if sinks.extract then .active entry fed else .idle
  hash : p.hash = if sinks.hash then .active () fed else .idle

/-- The sinks that take part are open; whatever happened, they can be aborted. -/
structure Interrupted (sinks : Sinks) (entry : ZipEntry) (p : Protocol) : Prop where
  sink : if sinks.extract then p.sink.IsOpen entry else p.sink = .idle
  hash : if sinks.hash then p.hash.IsOpen () else p.hash = .idle

theorem Streaming.interrupted {sinks : Sinks} {entry : ZipEntry} {fed : Bytes} {p : Protocol}
    (h : Streaming sinks entry fed p) : Interrupted sinks entry p where
  sink := by
    have hsink := h.sink
    split
    · rename_i hextract
      rw [if_pos hextract] at hsink
      exact .inl ⟨fed, hsink⟩
    · rename_i hextract
      rw [if_neg hextract] at hsink
      exact hsink
  hash := by
    have hhash := h.hash
    split
    · rename_i hstarted
      rw [if_pos hstarted] at hhash
      exact .inl ⟨fed, hhash⟩
    · rename_i hstarted
      rw [if_neg hstarted] at hhash
      exact hhash

/-- The running CRC and count are those of these bytes. -/
def Produced.Of (output : Produced) (fed : Bytes) : Prop :=
  output.crc = updateCrc32 0xffffffff fed ∧ output.produced = fed.length

/-- A stage of the streaming of one member: it ends with more bytes in the sinks, or fails with the
sinks still open. -/
def Streams {α : Type} (expected : ZipExpectedInventory) (permit : List Milestone → ZipEntry → Prop)
    (sinks : Sinks) (entry : ZipEntry) (log : List Milestone) (p : ZipM α) (s : Protocol)
    (Q : α → Protocol → Prop) : Prop :=
  Upholds (protocolContract expected permit) (fun a s' => s'.log = log ∧ Q a s')
    (fun status s' => status ≠ .ok ∧ s'.log = log ∧ Interrupted sinks entry s') p s

section Stages

variable {α β : Type} {expected : ZipExpectedInventory} {sinks : Sinks} {entry : ZipEntry}
  {permit : List Milestone → ZipEntry → Prop} {log : List Milestone} {s : Protocol} {Q : α → Protocol → Prop}
  {fed : Bytes}

variable {p : ZipM α} {P : α → Protocol → Prop} {status : ZipStatus} {offset count produced total size fuel : Nat}
  {hook : ProgressHook} {bytes output : Bytes} {before : Produced} {state : InflateState}

theorem Streams.bind {f : α → ZipM β} {Q : β → Protocol → Prop} (hp : Streams expected permit sinks entry log p s P)
    (hf : ∀ a s', s'.log = log → P a s' →
      Streams expected permit sinks entry log (f a) s' Q) :
    Streams expected permit sinks entry log (p >>= f) s Q :=
  Upholds.bind hp fun a s' ha => hf a s' ha.1 ha.2

theorem Streams.mono (hp : Streams expected permit sinks entry log p s P) (h : ∀ a s', P a s' → Q a s') :
    Streams expected permit sinks entry log p s Q :=
  Upholds.mono hp (fun a s' ha => ⟨ha.1, h a s' ha.2⟩) fun _ _ h => h

theorem streams_pure {value : α} (hlog : s.log = log) (h : Q value s) :
    Streams expected permit sinks entry log (pure value) s Q := ⟨hlog, h⟩

theorem streams_throw (hstatus : status ≠ .ok) (hlog : s.log = log) (h : Interrupted sinks entry s) :
    Streams expected permit sinks entry log (throw status : ZipM α) s Q := ⟨hstatus, hlog, h⟩

theorem streams_require {condition : Prop} [Decidable condition] (hstatus : status ≠ .ok) (hlog : s.log = log)
    (h : Interrupted sinks entry s) :
    Streams expected permit sinks entry log (Fallible.require condition status) s
      fun _ s' => s' = s ∧ condition :=
  upholds_require.2 ⟨fun hcondition => ⟨hlog, rfl, hcondition⟩,
    fun _ => ⟨hstatus, hlog, h⟩⟩

/-- Calls to the source, the inflater and the progress hooks are none of the sinks' business. -/
def Quiet (op : ZipOp) : Prop :=
  (∀ expected permit p, Protocol.Allows expected permit op p) ∧
    ∀ (answer : zipSignature.Answer op) p, Protocol.observe p ⟨op, answer⟩ = p

theorem quiet_readAt : Quiet (.readAt offset count) :=
  ⟨fun _ _ _ => trivial, fun _ _ => rfl⟩
theorem quiet_inflateInit : Quiet .inflateInit := ⟨fun _ _ _ => trivial, fun _ _ => rfl⟩
theorem quiet_inflate {input : Bytes} {capacity : Nat} {hasMoreInput : Bool} :
    Quiet (.inflate input capacity hasMoreInput) := ⟨fun _ _ _ => trivial, fun _ _ => rfl⟩
theorem quiet_progress :
    Quiet (.progress hook produced total) := ⟨fun _ _ _ => trivial, fun _ _ => rfl⟩

theorem streams_quiet {op : ZipOp} (hquiet : Quiet op) (hlog : s.log = log) :
    Streams expected permit sinks entry log (Fallible.ask (S := zipSignature) op) s
      fun _ s' => s' = s := by
  refine upholds_ask.2 ⟨hquiet.1 _ _ _, fun answer s' hpost => ?_⟩
  have hsame : s' = s := hpost.trans (hquiet.2 answer s)
  exact ⟨hsame ▸ hlog, hsame⟩

theorem streams_reportProgress {present : Bool} (hlog : s.log = log) (h : Interrupted sinks entry s) :
    Streams expected permit sinks entry log (reportProgress present hook produced total) s
      fun _ s' => s' = s := by
  unfold reportProgress
  split
  · refine (streams_quiet quiet_progress hlog).bind fun answer s' hlog hs' => ?_
    subst hs'
    exact (streams_require (by decide) hlog h).mono fun _ _ h => h.1
  · exact streams_pure hlog rfl

theorem streams_readSource (hlog : s.log = log) (h : Interrupted sinks entry s) :
    Streams expected permit sinks entry log (readSource offset count) s
      fun bytes s' => s' = s ∧ bytes.length = count := by
  unfold readSource
  refine (streams_quiet quiet_readAt hlog).bind fun answer s' hlog hs' => ?_
  subst hs'
  cases answer with
  | none => exact streams_throw (by decide) hlog h
  | some bytes => exact streams_pure hlog ⟨rfl, bytes.2⟩

theorem streams_feedHash (hlog : s.log = log) (h : Streaming sinks entry fed s) :
    Streams expected permit sinks entry log (feedHash sinks bytes) s fun _ s' => s'.sink = s.sink ∧
      s'.hash = if sinks.hash then .active () (fed ++ bytes) else .idle := by
  have hhash := h.hash
  unfold feedHash
  split
  · rename_i hstarted
    rw [if_pos hstarted] at hhash
    refine upholds_ask_bind.2 ⟨⟨fed, hhash⟩, fun accepted s' hpost => ?_⟩
    obtain rfl : s' = s.observe ⟨.hashUpdate bytes, accepted⟩ := hpost
    have hafter : (s.observe ⟨.hashUpdate bytes, accepted⟩).hash =
        if accepted then .active () (fed ++ bytes) else .refused () := by
      change s.hash.next _ = _
      rw [hhash]
      rfl
    refine upholds_require.2 ⟨fun haccepted => ⟨hlog, rfl, ?_⟩,
      fun hrefused => ⟨by decide, hlog, h.interrupted.sink, ?_⟩⟩
    · rw [hafter, if_pos haccepted]
    · rw [if_pos hstarted, hafter, if_neg hrefused]
      exact .inr rfl
  · rename_i hstarted
    rw [if_neg hstarted] at hhash
    exact streams_pure hlog ⟨rfl, hhash⟩

theorem streams_feedSink (hlog : s.log = log) (hsink : s.sink = if sinks.extract then .active entry fed else .idle)
    (hhash : s.hash = if sinks.hash then .active () (fed ++ bytes) else .idle) :
    Streams expected permit sinks entry log (feedSink sinks bytes) s
      fun _ s' => Streaming sinks entry (fed ++ bytes) s' := by
  have hopen : if sinks.hash then s.hash.IsOpen () else s.hash = .idle := by
    rw [hhash]
    split
    · exact .inl ⟨_, rfl⟩
    · rfl
  unfold feedSink
  split
  · rename_i hstarted
    rw [if_pos hstarted] at hsink
    refine upholds_ask_bind.2 ⟨⟨entry, fed, hsink⟩, fun accepted s' hpost => ?_⟩
    obtain rfl : s' = s.observe ⟨.sinkWrite bytes, accepted⟩ := hpost
    have hafter : (s.observe ⟨.sinkWrite bytes, accepted⟩).sink =
        if accepted then .active entry (fed ++ bytes) else .refused entry := by
      change s.sink.next _ = _
      rw [hsink]
      rfl
    refine upholds_require.2 ⟨fun haccepted => ⟨hlog, ?_, hhash⟩,
      fun hrefused => ⟨by decide, hlog, ?_, hopen⟩⟩
    · rw [hafter, if_pos haccepted, if_pos hstarted]
    · rw [if_pos hstarted, hafter, if_neg hrefused]
      exact .inr rfl
  · rename_i hstarted
    rw [if_neg hstarted] at hsink
    exact streams_pure hlog ⟨by rw [hsink, if_neg hstarted], hhash⟩

theorem Produced.Of.append (h : before.Of fed) :
    Produced.Of ⟨updateCrc32 before.crc bytes, before.produced + bytes.length⟩ (fed ++ bytes) :=
  ⟨by rw [updateCrc32_append, ← h.1], by rw [List.length_append, ← h.2]⟩

theorem streams_deliver (hlog : s.log = log) (h : Streaming sinks entry fed s) (hof : before.Of fed) :
    Streams expected permit sinks entry log (deliver sinks size bytes before) s
      fun after s' => Streaming sinks entry (fed ++ bytes) s' ∧ after.Of (fed ++ bytes) := by
  unfold deliver
  refine (streams_feedHash hlog h).bind fun _ s₁ hlog h₁ => ?_
  obtain ⟨hsink, hhash⟩ := h₁
  refine (streams_feedSink hlog (hsink.trans h.sink) hhash).bind fun _ s₂ hlog h₂ => ?_
  refine (streams_reportProgress hlog h₂.interrupted).bind fun _ s₃ hlog h₃ => ?_
  subst h₃
  exact streams_pure hlog ⟨h₂, hof.append⟩

/-! ### The two loops -/

/-- What a loop leaves in the sinks is what its count and CRC are of. -/
def Delivered (sinks : Sinks) (entry : ZipEntry) (output : Produced) (s : Protocol) : Prop :=
  ∃ fed, Streaming sinks entry fed s ∧ output.Of fed

theorem streams_streamStored {remaining : Nat} (hlog : s.log = log) (h : Delivered sinks entry before s) :
    Streams expected permit sinks entry log (streamStored sinks size fuel offset remaining before) s
      (Delivered sinks entry) := by
  induction fuel generalizing offset remaining before s with
  | zero => exact streams_pure hlog h
  | succ fuel ih =>
    obtain ⟨fed, hstreaming, hof⟩ := h
    unfold streamStored
    split
    · refine (streams_readSource hlog hstreaming.interrupted).bind
        fun bytes s₁ hlog h₁ => ?_
      obtain ⟨rfl, -⟩ := h₁
      refine (streams_require (by decide) hlog hstreaming.interrupted).bind
        fun _ s₂ hlog h₂ => ?_
      obtain ⟨rfl, -⟩ := h₂
      refine (streams_deliver hlog hstreaming hof).bind fun after s₃ hlog h₃ => ?_
      exact ih hlog ⟨_, h₃⟩
    · exact streams_pure hlog ⟨fed, hstreaming, hof⟩

theorem streams_refill (hlog : s.log = log) (h : Interrupted sinks entry s) :
    Streams expected permit sinks entry log state.refill s fun state' s' =>
      s' = s ∧ state'.output = state.output := by
  unfold refill
  split
  · refine (streams_readSource hlog h).bind fun bytes s₁ hlog h₁ => ?_
    obtain ⟨rfl, -⟩ := h₁
    exact streams_pure hlog ⟨rfl, rfl⟩
  · exact streams_pure hlog ⟨rfl, rfl⟩

theorem streams_emit (hlog : s.log = log) (h : Delivered sinks entry state.output s) :
    Streams expected permit sinks entry log (emit sinks size state output) s
      fun state' s' => Delivered sinks entry state'.output s' := by
  obtain ⟨fed, hstreaming, hof⟩ := h
  unfold emit
  refine (streams_require (by decide) hlog hstreaming.interrupted).bind
    fun _ s₁ hlog h₁ => ?_
  obtain ⟨rfl, -⟩ := h₁
  split
  · refine (streams_deliver hlog hstreaming hof).bind fun after s₂ hlog h₂ => ?_
    exact streams_pure hlog ⟨_, h₂⟩
  · exact streams_pure hlog ⟨fed, hstreaming, hof⟩

theorem streams_requireProgress {consumed : Nat}
    {status : TinflStatus} (hlog : s.log = log) (h : Interrupted sinks entry s) :
    Streams expected permit sinks entry log (state.requireProgress consumed output status) s
      fun _ s' => s' = s := by
  unfold requireProgress
  split
  all_goals exact (streams_require (by decide) hlog h).mono fun _ _ h => h.1

theorem streams_streamDeflated (hlog : s.log = log) (h : Delivered sinks entry state.output s) :
    Streams expected permit sinks entry log (streamDeflated sinks size fuel state) s
      (Delivered sinks entry) := by
  induction fuel generalizing state s with
  | zero =>
    obtain ⟨fed, hstreaming, -⟩ := h
    exact streams_throw (by decide) hlog hstreaming.interrupted
  | succ fuel ih =>
    obtain ⟨fed, hstreaming, hof⟩ := h
    unfold streamDeflated inflateRound
    refine (streams_refill hlog hstreaming.interrupted).bind fun state₁ s₁ hlog h₁ => ?_
    obtain ⟨rfl, hout⟩ := h₁
    refine (streams_quiet quiet_inflate hlog).bind fun answer s₂ hlog h₂ => ?_
    subst h₂
    refine (streams_emit hlog ⟨fed, hstreaming, by rw [hout]; exact hof⟩).bind
      fun state₂ s₃ hlog h₃ => ?_
    obtain ⟨fed', hstreaming', hof'⟩ := h₃
    have hinterrupted := hstreaming'.interrupted
    have hagain : Streams expected permit sinks entry log (streamDeflated sinks size fuel state₂) s₃
        (Delivered sinks entry) := ih hlog ⟨fed', hstreaming', hof'⟩
    cases hstatus : answer.status with
    | failed => exact streams_throw (by decide) hlog hinterrupted
    | done =>
      refine (streams_require (by decide) hlog hinterrupted).bind fun _ s₄ hlog h₄ => ?_
      obtain ⟨rfl, -⟩ := h₄
      exact streams_pure hlog ⟨fed', hstreaming', hof'⟩
    | needsMoreInput | hasMoreOutput =>
      refine (streams_requireProgress hlog hinterrupted).bind fun _ s₄ hlog h₄ => ?_
      subst h₄
      exact hagain

theorem streams_streamBody (hlog : s.log = log) (h : Streaming sinks entry [] s) :
    Streams expected permit sinks entry log (streamBody sinks entry) s fun _ s' =>
      ∃ fed, Streaming sinks entry fed s' ∧ fed.length = entry.size ∧ crc32 fed = entry.crc32 := by
  have hmember : Streams expected permit sinks entry log (streamMember sinks entry) s
      (Delivered sinks entry) := by
    have hnone : Delivered sinks entry .none s := ⟨[], h, rfl, rfl⟩
    unfold streamMember
    split
    · exact streams_streamStored hlog hnone
    · refine (streams_quiet quiet_inflateInit hlog).bind fun _ s₁ hlog h₁ => ?_
      subst h₁
      exact streams_streamDeflated hlog hnone
  unfold streamBody
  refine hmember.bind fun output s₁ hlog h₁ => ?_
  obtain ⟨fed, hstreaming, hcrc, hproduced⟩ := h₁
  refine (streams_require (by decide) hlog hstreaming.interrupted).bind
    fun _ s₂ hlog h₂ => ?_
  obtain ⟨rfl, hsize⟩ := h₂
  refine (streams_require (by decide) hlog hstreaming.interrupted).mono fun _ s₃ h₃ => ?_
  obtain ⟨rfl, hcheck⟩ := h₃
  refine ⟨fed, hstreaming, hproduced.symm.trans hsize, ?_⟩
  rw [← hcheck, hcrc]
  rfl

end Stages

/-! ### Opening and closing the sinks -/

section Closing

variable {expected : ZipExpectedInventory} {permit : List Milestone → ZipEntry → Prop} {sinks : Sinks}
  {entry : ZipEntry} {file : ZipExpectedFile} {status : ZipStatus} {fed : Bytes} {s : Protocol}

variable {started : Bool} {result : ZipStatus} {log : List Milestone} {reader : ZipReader}

theorem abortHash_holds (hhash : if started then s.hash.IsOpen () else s.hash = .idle) :
    (abortHash started).Holds (protocolContract expected permit)
      (fun _ s' => s'.hash = .idle ∧ s'.sink = s.sink ∧ s'.log = s.log) s := by
  unfold abortHash
  split
  · rename_i hstarted
    rw [if_pos hstarted] at hhash
    refine ⟨hhash, fun _ s' hpost => ?_⟩
    obtain rfl : s' = s.observe ⟨.hashAbort, _⟩ := hpost
    refine ⟨?_, rfl, rfl⟩
    rcases hhash with ⟨fed, h⟩ | h
    all_goals exact congrArg (fun t => Transaction.next t (.abort ())) h
  · rename_i hstarted
    rw [if_neg hstarted] at hhash
    exact ⟨hhash, rfl, rfl⟩

theorem abortSink_holds (hsink : if started then s.sink.IsOpen entry else s.sink = .idle) :
    (abortSink started entry).Holds (protocolContract expected permit)
      (fun _ s' => s'.sink = .idle ∧ s'.hash = s.hash ∧ s'.log = s.log) s := by
  unfold abortSink
  split
  · rename_i hstarted
    rw [if_pos hstarted] at hsink
    refine ⟨hsink, fun _ s' hpost => ?_⟩
    obtain rfl : s' = s.observe ⟨.sinkAbort entry, _⟩ := hpost
    refine ⟨?_, rfl, rfl⟩
    rcases hsink with ⟨fed, h⟩ | h
    all_goals exact congrArg (fun t => Transaction.next t (.abort entry)) h
  · rename_i hstarted
    rw [if_neg hstarted] at hsink
    exact ⟨hsink, rfl, rfl⟩

/-- Nothing is asked of the hash sink after a failure; after a success its digest has been compared
or it refuses. -/
theorem finishHash_holds (hhash : if started then s.hash.IsOpen () else s.hash = .idle)
    (hfed : status = .ok → s.hash = if started then .active () fed else .idle)
    (hneeds : status = .ok → started = false → file.sha256 = none) :
    (finishHash started file status).Holds (protocolContract expected permit) (fun result s' =>
      s'.sink = s.sink ∧ s'.log = s.log ∧
      (if result.2 then s'.hash.IsOpen () else s'.hash = .idle) ∧
      (result.1 = .ok → status = .ok ∧
        ∀ digest, file.sha256 = some digest → s'.digest = some (fed, digest)) ∧
      (status ≠ .ok → result.1 ≠ .ok)) s := by
  unfold finishHash
  split
  · rename_i hstart
    obtain ⟨hok, hstarted⟩ := hstart
    have hactive := hfed hok
    rw [if_pos hstarted] at hactive
    refine ⟨⟨fed, hactive⟩, fun answer s' hpost => ?_⟩
    obtain rfl : s' = s.observe ⟨.hashFinish, answer⟩ := hpost
    cases answer with
    | none =>
      refine ⟨rfl, rfl, .inr ?_, (fun h => by cases h), fun h => absurd hok h⟩
      exact congrArg (fun t => Transaction.next t (.finish () false)) hactive
    | some reported =>
      have hidle : (s.observe ⟨.hashFinish, some reported⟩).hash = .idle :=
        congrArg (fun t => Transaction.next t (.finish () true)) hactive
      have hdigest : (s.observe ⟨.hashFinish, some reported⟩).digest = some (fed, reported) := by
        change s.noteDigest ⟨.hashFinish, some reported⟩ = _
        simp only [Protocol.noteDigest, hactive]
      cases hwanted : file.sha256 with
      | none => exact ⟨rfl, rfl, hidle, fun _ => ⟨hok, fun _ h => by cases h⟩, fun h => absurd hok h⟩
      | some wanted =>
        refine ⟨rfl, rfl, hidle, fun h => ⟨hok, fun digest hsome => ?_⟩, fun h => absurd hok h⟩
        split at h
        · rename_i hequal
          obtain rfl := constantTimeDigestEqual_iff.1 hequal
          rw [hdigest, Option.some.inj hsome]
        · cases h
  · rename_i hstart
    refine ⟨rfl, rfl, hhash, fun hok => ⟨hok, fun digest hsome => ?_⟩, id⟩
    have hstarted : started = false := Bool.eq_false_iff.2 fun h => hstart ⟨hok, h⟩
    rw [hneeds hok hstarted] at hsome
    cases hsome

theorem commitSink_holds (hsink : if started then s.sink.IsOpen entry else s.sink = .idle)
    (hverified : status = .ok → started = true → s.Verified expected entry) :
    (commitSink started entry status).Holds (protocolContract expected permit) (fun result s' =>
      s'.hash = s.hash ∧ (if result.2 then s'.sink.IsOpen entry else s'.sink = .idle) ∧
      (result.1 = .ok → status = .ok) ∧
      s'.log = if result.1 = .ok ∧ started then s.log ++ [.committed entry] else s.log) s := by
  unfold commitSink
  split
  · rename_i hstart
    obtain ⟨hok, hstarted⟩ := hstart
    obtain ⟨fed, hactive, -⟩ := hverified hok hstarted
    refine ⟨hverified hok hstarted, fun committed s' hpost => ?_⟩
    obtain rfl : s' = s.observe ⟨.sinkCommit entry, committed⟩ := hpost
    cases committed with
    | false =>
      refine ⟨rfl, .inr ?_, (fun h => by cases h), rfl⟩
      exact congrArg (fun t => Transaction.next t (.finish entry false)) hactive
    | true =>
      refine ⟨rfl, ?_, fun _ => hok, ?_⟩
      · exact congrArg (fun t => Transaction.next t (.finish entry true)) hactive
      · rw [if_pos ⟨rfl, hstarted⟩]
        rfl
  · rename_i hstart
    exact ⟨rfl, hsink, id, by rw [if_neg hstart]⟩

/-- After a member the sinks are closed, and the member is committed if all went well. -/
theorem closeStream_holds (permit : List Milestone → ZipEntry → Prop) (status : ZipStatus) (fed : Bytes)
    (hinterrupted : Interrupted sinks entry s)
    (hstreaming : status = .ok → Streaming sinks entry fed s)
    (hneeds : status = .ok → sinks.hash = false → file.sha256 = none)
    (hmember : status = .ok → fed.length = entry.size ∧ crc32 fed = entry.crc32)
    (hwanted : findExpectedFile expected entry.path = some file) :
    (closeStream sinks entry file status).Holds (protocolContract expected permit) (fun result s' =>
      s'.Idle ∧ s'.log =
        if result = .ok ∧ sinks.extract then s.log ++ [.committed entry] else s.log) s := by
  unfold closeStream
  refine (finishHash_holds hinterrupted.hash (fun h => (hstreaming h).hash) hneeds).bind
    fun result s₁ h₁ => ?_
  obtain ⟨status₁, hashStarted⟩ := result
  obtain ⟨hsink₁, hlog₁, hhash₁, hok₁, -⟩ := h₁
  have hopen : if sinks.extract then s₁.sink.IsOpen entry else s₁.sink = .idle := by
    rw [hsink₁]
    exact hinterrupted.sink
  have hverified : status₁ = .ok → sinks.extract = true → s₁.Verified expected entry := by
    intro hok hextract
    obtain ⟨hok, hdigest⟩ := hok₁ hok
    have hsink := (hstreaming hok).sink
    rw [if_pos hextract] at hsink
    refine ⟨fed, hsink₁.trans hsink, (hmember hok).1, (hmember hok).2, fun _ other digest hother => ?_⟩
    rw [hwanted] at hother
    cases hother
    exact hdigest digest
  refine (commitSink_holds hopen hverified).bind fun result s₂ h₂ => ?_
  obtain ⟨hhash₂, hsink₂, -, hlog₂⟩ := h₂
  refine (abortHash_holds (hhash₂ ▸ hhash₁)).bind fun _ s₃ h₃ => ?_
  obtain ⟨hidle₃, hsink₃, hlog₃⟩ := h₃
  refine (abortSink_holds (hsink₃ ▸ hsink₂)).bind fun _ s₄ h₄ => ?_
  obtain ⟨hidle₄, hhash₄, hlog₄⟩ := h₄
  refine ⟨⟨hidle₄, hhash₄.trans hidle₃⟩, ?_⟩
  rw [hlog₄, hlog₃, hlog₂, hlog₁]

theorem beginHash_holds (hidle : s.Idle) :
    Upholds (protocolContract expected permit)
      (fun _ s' => s'.sink = .idle ∧ (s'.hash = if sinks.hash then .active () [] else .idle) ∧
        s'.log = s.log ∧ (sinks.hash = false → file.sha256 = none))
      (fun status s' => status ≠ .ok ∧ s'.Idle ∧ s'.log = s.log)
      (beginHash sinks entry file) s := by
  unfold beginHash
  split
  · rename_i hstarted
    refine upholds_ask_bind.2 ⟨hidle.2, fun accepted s' hpost => ?_⟩
    obtain rfl : s' = s.observe ⟨.hashBegin entry.path entry.size, accepted⟩ := hpost
    have hafter : (s.observe ⟨.hashBegin entry.path entry.size, accepted⟩).hash =
        if accepted then .active () [] else s.hash := rfl
    refine upholds_require.2 ⟨fun haccepted => ⟨hidle.1, ?_, rfl, fun h => ?_⟩,
      fun hrefused => ⟨by decide, ⟨hidle.1, ?_⟩, rfl⟩⟩
    · rw [hafter, if_pos haccepted]
    · rw [hstarted] at h
      cases h
    · rw [hafter, if_neg hrefused, hidle.2]
  · refine upholds_require.2 ⟨fun hnone => ⟨hidle.1, hidle.2, rfl, fun _ => hnone⟩,
      fun _ => ⟨by decide, hidle, rfl⟩⟩

/-- What the opening of the sinks for a member adds to the milestones. -/
def Sinks.opened (sinks : Sinks) (entry : ZipEntry) : List Milestone :=
  if sinks.extract then [.begun entry] else []

/-- What the streaming of a member, with this result, adds to the milestones. -/
def Sinks.Passes (sinks : Sinks) (entry : ZipEntry) (result : ZipStatus)
    (log log' : List Milestone) : Prop :=
  if sinks.extract then
    if result = .ok then log' = log ++ [.begun entry, .committed entry]
    else log' = log ∨ log' = log ++ [.begun entry]
  else log' = log

theorem Sinks.passes_none (hfailed : result ≠ .ok) : sinks.Passes entry result log log := by
  unfold Sinks.Passes
  split
  · exact .inl rfl
  · rfl

theorem Sinks.passes_closed {log' : List Milestone}
    (h : log' = if result = .ok ∧ sinks.extract then log ++ sinks.opened entry ++ [.committed entry]
      else log ++ sinks.opened entry) : sinks.Passes entry result log log' := by
  subst h
  unfold Sinks.Passes Sinks.opened
  by_cases hextract : sinks.extract = true
  · by_cases hok : result = .ok
    · simp [hextract, hok]
    · simp [hextract, hok]
  · simp [hextract]

theorem beginSink_holds (hsink : s.sink = .idle) (hhash : s.hash = if sinks.hash then .active () [] else .idle)
    (hpermit : sinks.extract = true → permit s.log entry) :
    Upholds (protocolContract expected permit)
      (fun _ s' => Streaming sinks entry [] s' ∧ s'.log = s.log ++ sinks.opened entry)
      (fun status s' => status ≠ .ok ∧ s'.Idle ∧ s'.log = s.log)
      (beginSink sinks entry) s := by
  have hopen : if sinks.hash then s.hash.IsOpen () else s.hash = .idle := by
    rw [hhash]
    split
    · exact .inl ⟨_, rfl⟩
    · rfl
  unfold beginSink Sinks.opened
  split
  · rename_i hextract
    refine upholds_ask_bind.2 ⟨⟨hsink, hpermit hextract⟩, fun accepted s' hpost => ?_⟩
    obtain rfl : s' = s.observe ⟨.sinkBegin entry, accepted⟩ := hpost
    cases accepted with
    | true => exact ⟨⟨by rw [if_pos hextract]; rfl, hhash⟩, rfl⟩
    | false =>
      have hafter : (s.observe ⟨.sinkBegin entry, false⟩).sink = .idle := hsink
      refine Upholds.bind (upholds_lift.2 (abortHash_holds hopen)) fun _ s'' h => ?_
      obtain ⟨hhash', hsink', hlog⟩ := h
      exact ⟨by decide, ⟨hsink'.trans hafter, hhash'⟩, hlog⟩
  · rename_i hextract
    exact ⟨⟨by rw [if_neg hextract, hsink], hhash⟩, (List.append_nil s.log).symm⟩

theorem beginStream_holds (hidle : s.Idle) (hpermit : sinks.extract = true → permit s.log entry) :
    Upholds (protocolContract expected permit)
      (fun _ s' => Streaming sinks entry [] s' ∧ s'.log = s.log ++ sinks.opened entry ∧
        (sinks.hash = false → file.sha256 = none))
      (fun status s' => status ≠ .ok ∧ s'.Idle ∧ s'.log = s.log)
      (reader.beginStream sinks entry file) s := by
  unfold ZipReader.beginStream
  refine Upholds.bind (P := fun _ s' => s' = s) ?_ fun _ s₁ h₁ => ?_
  · exact upholds_require.2 ⟨fun _ => rfl, fun _ => ⟨by decide, hidle, rfl⟩⟩
  subst h₁
  refine upholds_ask_bind.2 ⟨trivial, fun size s₂ hpost => ?_⟩
  obtain rfl : s₂ = s₁ := hpost
  cases size with
  | none => exact ⟨by decide, hidle, rfl⟩
  | some size =>
    refine Upholds.bind (P := fun _ s' => s' = s₂) ?_ fun _ s₃ h₃ => ?_
    · exact upholds_require.2 ⟨fun _ => rfl, fun _ => ⟨by decide, hidle, rfl⟩⟩
    subst h₃
    refine Upholds.bind (beginHash_holds hidle) fun _ s₄ h₄ => ?_
    obtain ⟨hsink, hhash, hlog, hneeds⟩ := h₄
    have hpermit₄ : sinks.extract = true → permit s₄.log entry := by
      rw [hlog]
      exact hpermit
    refine (beginSink_holds hsink hhash hpermit₄).mono (fun _ s₅ h₅ => ?_) fun status s₅ h₅ => ?_
    · exact ⟨h₅.1, by rw [h₅.2, hlog], hneeds⟩
    · exact ⟨h₅.1, h₅.2.1, h₅.2.2.trans hlog⟩

/-- One member through the sinks: they are closed afterwards, and it is committed exactly when the
call succeeds. -/
theorem streamFile_holds (hidle : s.Idle) (hpermit : sinks.extract = true → permit s.log entry) :
    (reader.streamFile sinks entry (findExpectedFile expected entry.path)).Holds
      (protocolContract expected permit)
      (fun result s' => s'.Idle ∧ sinks.Passes entry result s.log s'.log) s := by
  unfold ZipReader.streamFile
  cases hwanted : findExpectedFile expected entry.path with
  | none => exact ⟨hidle, Sinks.passes_none (by simp)⟩
  | some file =>
    dsimp only
    split
    · exact ⟨hidle, Sinks.passes_none (by simp)⟩
    refine Program.Holds.bind (beginStream_holds hidle hpermit) fun result s₁ h₁ => ?_
    cases result with
    | error status =>
      obtain ⟨hstatus, hidle₁, hlog⟩ := h₁
      refine ⟨hidle₁, ?_⟩
      rw [hlog]
      exact Sinks.passes_none hstatus
    | ok u =>
      obtain ⟨hstreaming, hlog, hneeds⟩ := h₁
      refine Program.Holds.bind (streams_streamBody hlog hstreaming) fun result s₂ h₂ => ?_
      cases result with
      | error status =>
        obtain ⟨hstatus, hlog₂, hinterrupted⟩ := h₂
        have hclose := closeStream_holds permit status [] hinterrupted
          (fun h => absurd h hstatus) (fun h => absurd h hstatus) (fun h => absurd h hstatus)
          hwanted
        rw [hlog₂] at hclose
        exact hclose.mono fun _ _ h => ⟨h.1, Sinks.passes_closed h.2⟩
      | ok u =>
        obtain ⟨hlog₂, fed, hstreaming₂, hsize, hcrc⟩ := h₂
        have hclose := closeStream_holds permit .ok fed hstreaming₂.interrupted
          (fun _ => hstreaming₂) (fun _ => hneeds) (fun _ => ⟨hsize, hcrc⟩) hwanted
        rw [hlog₂] at hclose
        exact hclose.mono fun _ _ h => ⟨h.1, Sinks.passes_closed h.2⟩

end Closing

end Bmx.Zip
