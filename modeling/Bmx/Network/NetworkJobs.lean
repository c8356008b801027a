import Bmx.Interaction.Feed
import Bmx.Interaction.Lives
import Bmx.Network.NetworkService

/-!
# The life of a network job

What becomes of one update job is followed from its acceptance on: the changes of phase that the worker
presents are a feed which the polls read, and of which the newest are kept. The job ends with a poll
that finds the feed empty and the worker done. A scan has no such feed.
-/

namespace Bmx.Network

open Bmx.Update Interaction UpdateForegroundUiEvent

/-! ### Changes of phase -/

/-- The events at which the phase changes, after an event of phase `last`. -/
def changesAfter (last : Option UpdateForegroundPhase) :
    List UpdateForegroundUiEvent → List UpdateForegroundUiEvent
  | [] => []
  | event :: rest =>
    if last = some event.phase then changesAfter last rest
    else event :: changesAfter (some event.phase) rest

def phaseChanges (presented : List UpdateForegroundUiEvent) : List UpdateForegroundUiEvent :=
  changesAfter none presented

theorem changesAfter_concat (last : Option UpdateForegroundPhase) (presented : List UpdateForegroundUiEvent)
    (event : UpdateForegroundUiEvent) :
    changesAfter last (presented ++ [event]) = changesAfter last presented ++
      if (presented.getLast?.map phase).or last = some event.phase then [] else [event] := by
  induction presented generalizing last with
  | nil =>
    change (if last = some event.phase then [] else [event]) = _
    rfl
  | cons first rest ih =>
    have hlast : ((first :: rest).getLast?.map phase).or last =
        (rest.getLast?.map phase).or (some first.phase) := by
      rw [List.getLast?_cons]
      cases rest.getLast? with
      | none => rfl
      | some value => rfl
    rw [hlast, List.cons_append]
    unfold changesAfter
    split
    · rename_i hsame
      rw [ih, hsame]
    · rw [ih, List.cons_append]

theorem phaseChanges_concat (presented : List UpdateForegroundUiEvent) (event : UpdateForegroundUiEvent) :
    phaseChanges (presented ++ [event]) =
      if presented.getLast?.map phase = some event.phase then phaseChanges presented
      else phaseChanges presented ++ [event] := by
  unfold phaseChanges
  rw [changesAfter_concat, Option.or_none]
  split
  · rw [List.append_nil]
  · rfl

/-! ### Update jobs -/

inductive UpdateStage
  | waiting
  | running
  | finished (result : Int) (message : Bytes)

/-- How far an update job has come. -/
structure UpdateCourse where
  stage : UpdateStage := .waiting
  presented : List UpdateForegroundUiEvent := []
  feed : Feed UpdateForegroundUiEvent := {}
  cancelled : Bool := false

namespace UpdateCourse

def present (event : UpdateForegroundUiEvent) (course : UpdateCourse) : UpdateCourse :=
  { course with
    presented := course.presented ++ [event]
    feed :=
      if course.presented.getLast?.map phase = some event.phase then course.feed
      else course.feed.write event }

def finished (course : UpdateCourse) : Bool :=
  match course.stage with
  | .finished _ _ => true
  | _ => false

end UpdateCourse

inductive UpdateUnderway (token : UInt32) (operation : UpdateServiceOperation) (consent : Bool) :
    List NetworkEvent → UpdateCourse → Prop
  | accepted : UpdateUnderway token operation consent [.updateAccepted token operation consent] {}
  | started {trace : List NetworkEvent} {course : UpdateCourse}
      (h : UpdateUnderway token operation consent trace course) (hstage : course.stage = .waiting) :
      UpdateUnderway token operation consent (trace ++ [.updateStarted operation consent])
        { course with stage := .running }
  | presented {trace : List NetworkEvent} {course : UpdateCourse} (event : UpdateForegroundUiEvent)
      (h : UpdateUnderway token operation consent trace course) (hstage : course.stage = .running) :
      UpdateUnderway token operation consent (trace ++ [.presented event]) (course.present event)
  | cancelRead {trace : List NetworkEvent} {course : UpdateCourse}
      (h : UpdateUnderway token operation consent trace course) (hstage : course.stage = .running) :
      UpdateUnderway token operation consent (trace ++ [.cancelRead course.cancelled]) course
  | finished {trace : List NetworkEvent} {course : UpdateCourse} (result : Int) (message : Bytes)
      (h : UpdateUnderway token operation consent trace course) (hstage : course.stage = .running) :
      UpdateUnderway token operation consent (trace ++ [.updateFinished result message])
        { course with stage := .finished result message }
  | popped {trace : List NetworkEvent} {course : UpdateCourse} {event : UpdateForegroundUiEvent}
      (h : UpdateUnderway token operation consent trace course)
      (hnext : course.feed.next? transitionCapacity = some event) :
      UpdateUnderway token operation consent (trace ++ [.popped token event])
        { course with feed := course.feed.take transitionCapacity }
  | reported {trace : List NetworkEvent} {course : UpdateCourse}
      (h : UpdateUnderway token operation consent trace course)
      (hnext : course.feed.next? transitionCapacity = none) (hstage : course.finished = false) :
      UpdateUnderway token operation consent (trace ++ [.reported token course.presented.getLast?]) course
  | cancelRequested {trace : List NetworkEvent} {course : UpdateCourse}
      (h : UpdateUnderway token operation consent trace course) (hstage : course.finished = false) :
      UpdateUnderway token operation consent (trace ++ [.cancelRequested token]) { course with cancelled := true }

/-! ### Scans -/

inductive ScanStage
  | waiting
  | running
  | finished (found : Option (List WifiAccessPoint)) (requiresReboot : Bool)

def scanTrace (token timeoutMs : UInt32) : ScanStage → List NetworkEvent
  | .waiting => [.scanAccepted token timeoutMs]
  | .running => [.scanAccepted token timeoutMs, .scanStarted timeoutMs]
  | .finished found requiresReboot =>
    [.scanAccepted token timeoutMs, .scanStarted timeoutMs, .scanFinished found requiresReboot]

/-- What a caller gets of a scan. -/
def scanResult (found : Option (List WifiAccessPoint)) (requiresReboot : Bool) (capacity : Nat) : WifiScanResult where
  copied := (found.getD []).take capacity
  count := found.elim (-1) fun aps => aps.length
  requiresReboot := requiresReboot

/-! ### Lives -/

/-- Everything that ever happens to one job. -/
inductive JobLife : List NetworkEvent → Prop
  | update {token : UInt32} {operation : UpdateServiceOperation} {consent : Bool} {trace : List NetworkEvent}
      {course : UpdateCourse} {result : Int} {message : Bytes}
      (h : UpdateUnderway token operation consent trace course) (hstage : course.stage = .finished result message)
      (hdrained : course.feed.next? transitionCapacity = none) :
      JobLife (trace ++ [.updateCompleted token ⟨course.presented.getLast?, result, message⟩])
  | scan (token timeoutMs : UInt32) (found : Option (List WifiAccessPoint)) (requiresReboot : Bool) (capacity : Nat) :
      JobLife (scanTrace token timeoutMs (.finished found requiresReboot) ++
        [.scanCompleted token (some (scanResult found requiresReboot capacity))])

def UpdateStage.Held (stage : UpdateStage) (s : NetworkState) : Prop :=
  match stage with
  | .waiting => (s.service.updateState = .posted ∧ s.worker = .idle) ∨
      (s.service.updateState = .running ∧ s.worker = .updateTaken)
  | .running => s.service.updateState = .running ∧ ∃ progress point, s.worker = .updating progress point
  | .finished result message => s.service.updateState = .complete ∧ s.worker = .idle ∧
      s.service.updateResult = result ∧ s.service.updateMessage = message

/-- The service has an update job that has come so far. -/
structure HoldsUpdate (s : NetworkState) (token : UInt32) (operation : UpdateServiceOperation) (consent : Bool)
    (course : UpdateCourse) : Prop where
  scan : s.service.scanState = .empty
  same : s.service.updateToken = token
  nonzero : token ≠ 0
  operation : s.service.updateOperation = operation
  consent : s.service.updateDestructiveResetConsent = consent
  cancel : s.service.updateCancelRequested = course.cancelled
  latest : s.service.updateProgressMailbox.latest = course.presented.getLast?
  kept : course.feed.KeptIn s.service.updateProgressMailbox.transitions s.service.updateProgressMailbox.head
    s.service.updateProgressMailbox.count
  stage : course.stage.Held s

def ScanStage.Held (stage : ScanStage) (timeoutMs : UInt32) (s : NetworkState) : Prop :=
  match stage with
  | .waiting => (s.service.scanState = .posted ∧ s.worker = .idle) ∨
      (s.service.scanState = .running ∧ s.worker = .scanTaken)
  | .running => s.service.scanState = .running ∧ s.worker = .scanning timeoutMs
  | .finished found requiresReboot => s.service.scanState = .complete ∧ s.worker = .idle ∧
      s.service.scanAPs = found.getD [] ∧ s.service.scanCount = found.elim (-1 : Int) (fun aps => aps.length) ∧
      s.service.scanRequiresReboot = requiresReboot

structure HoldsScan (s : NetworkState) (token timeoutMs : UInt32) (stage : ScanStage) : Prop where
  update : s.service.updateState = .empty
  same : s.service.scanToken = token
  nonzero : token ≠ 0
  timeout : s.service.scanTimeoutMs = timeoutMs
  none : (∀ found requiresReboot, stage ≠ .finished found requiresReboot) → s.service.scanAPs = []
  stage : stage.Held timeoutMs s

/-- The unfinished life that the service is in. -/
inductive UnfinishedJob (s : NetworkState) : List NetworkEvent → Prop
  | free (hupdate : s.service.updateState = .empty) (hscan : s.service.scanState = .empty) (hworker : s.worker = .idle) :
      UnfinishedJob s []
  | update {token : UInt32} {operation : UpdateServiceOperation} {consent : Bool} {trace : List NetworkEvent}
      {course : UpdateCourse} (hcourse : UpdateUnderway token operation consent trace course)
      (hholds : HoldsUpdate s token operation consent course) : UnfinishedJob s trace
  | scan {token timeoutMs : UInt32} {stage : ScanStage} (hholds : HoldsScan s token timeoutMs stage) :
      UnfinishedJob s (scanTrace token timeoutMs stage)

end Bmx.Network
