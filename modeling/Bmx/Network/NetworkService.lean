import Bmx.Update.ProgressMailbox

/-!
# The jobs of the network service

The service has one worker and takes one job at a time, an update operation or a scan for access
points. A job is submitted, run by the worker and polled, and an update can be cancelled. Each section
between `m_jobLock.Acquire` and `Release` is one function here.
-/

namespace Bmx.Network

open Bmx.Update

inductive UpdateServiceOperation
  | check | draftBegin | draftComplete | cancel | install
  deriving DecidableEq

inductive JobState
  | empty | posted | running | complete
  deriving DecidableEq

inductive NetworkJobPollStatus
  | pending | complete | missing
  deriving DecidableEq

structure WifiAccessPoint where
  ssid : Bytes
  freqMhz : Int
  channel : Int
  rssiDbm : Int
  deriving DecidableEq

/-- `progress` is there when `progress_valid` is set. -/
structure NetworkUpdateJobSnapshot where
  progress : Option UpdateForegroundUiEvent := none
  result : Int := 0
  message : Bytes := []
  deriving DecidableEq

/-- The members that the jobs use. Of `m_scanAPs` the access points that were copied in are kept. -/
structure NetworkService where
  workerTask : Bool := false
  updateState : JobState := .empty
  updateOperation : UpdateServiceOperation := .check
  updateDestructiveResetConsent : Bool := false
  updateCancelRequested : Bool := false
  updateProgressMailbox : UpdateProgressMailbox := .init
  updateResult : Int := 0
  updateMessage : Bytes := []
  updateToken : UInt32 := 0
  scanState : JobState := .empty
  scanTimeoutMs : UInt32 := 0
  scanAPs : List WifiAccessPoint := []
  scanCount : Int := 0
  scanRequiresReboot : Bool := false
  scanToken : UInt32 := 0
  nextToken : UInt32 := 1

def scanCapacity : Nat := 32

/-- `++m_nextToken`, which leaves out 0. -/
def followingToken (token : UInt32) : UInt32 := if token + 1 = 0 then 1 else token + 1

/-- What `PollWifiScan` gives its caller of a complete scan. -/
structure WifiScanResult where
  copied : List WifiAccessPoint
  count : Int
  requiresReboot : Bool
  deriving DecidableEq

namespace NetworkService

def startWorkers (service : NetworkService) : NetworkService := { service with workerTask := true }

/-- `none` is a job that is not accepted. -/
def submitUpdateJob (operation : UpdateServiceOperation) (destructiveResetConsent : Bool)
    (service : NetworkService) : Option UInt32 × NetworkService :=
  if service.workerTask = false then (none, service)
  else if service.updateState ≠ .empty ∨ service.scanState ≠ .empty then (none, service)
  else
    let token := followingToken service.nextToken
    (some token,
      { service with
        nextToken := token
        updateToken := token
        updateOperation := operation
        updateDestructiveResetConsent := destructiveResetConsent
        updateCancelRequested := false
        updateProgressMailbox := service.updateProgressMailbox.reset
        updateResult := -1
        updateMessage := []
        updateState := .posted })

def pollUpdateJob (token : UInt32) (service : NetworkService) :
    (NetworkJobPollStatus × NetworkUpdateJobSnapshot) × NetworkService :=
  if token = 0 ∨ token ≠ service.updateToken ∨ service.updateState = .empty then ((.missing, {}), service)
  else
    match service.updateProgressMailbox.popTransition with
    | (some progress, mailbox) =>
      ((.pending, { progress := some progress }), { service with updateProgressMailbox := mailbox })
    | (none, _) =>
      let progress := service.updateProgressMailbox.latest
      if service.updateState ≠ .complete then ((.pending, { progress := progress }), service)
      else
        ((.complete, { progress := progress, result := service.updateResult, message := service.updateMessage }),
          { service with updateState := .empty, updateToken := 0 })

def cancelUpdateJob (token : UInt32) (service : NetworkService) : NetworkService :=
  if token ≠ 0 ∧ token = service.updateToken ∧
      (service.updateState = .posted ∨ service.updateState = .running) then
    { service with updateCancelRequested := true }
  else service

def submitWifiScan (timeoutMs : UInt32) (service : NetworkService) : Option UInt32 × NetworkService :=
  if service.workerTask = false then (none, service)
  else if service.scanState ≠ .empty ∨ service.updateState ≠ .empty then (none, service)
  else
    let token := followingToken service.nextToken
    (some token,
      { service with
        nextToken := token
        scanToken := token
        scanTimeoutMs := timeoutMs
        scanCount := 0
        scanRequiresReboot := false
        scanAPs := []
        scanState := .posted })

def pollWifiScan (token : UInt32) (capacity : Nat) (service : NetworkService) :
    (NetworkJobPollStatus × Option WifiScanResult) × NetworkService :=
  if token = 0 ∨ token ≠ service.scanToken ∨ service.scanState = .empty then ((.missing, none), service)
  else if service.scanState ≠ .complete then ((.pending, none), service)
  else
    let available := service.scanCount.toNat
    let copied := if capacity < available then capacity else available
    ((.complete, some ⟨service.scanAPs.take copied, service.scanCount, service.scanRequiresReboot⟩),
      { service with scanState := .empty, scanToken := 0 })

/-! ### The worker's sections -/

/-- The job that `ProcessJobs` takes. -/
inductive TakenJob
  | none | update | scan

def processJobs (service : NetworkService) : TakenJob × NetworkService :=
  if service.updateState = .posted then (.update, { service with updateState := .running })
  else if service.scanState = .posted then (.scan, { service with scanState := .running })
  else (.none, service)

def present (event : UpdateForegroundUiEvent) (service : NetworkService) : NetworkService :=
  { service with updateProgressMailbox := service.updateProgressMailbox.present event }

/-- The end of `ProcessUpdateJob`. -/
def finishUpdateJob (result : Int) (message : Bytes) (service : NetworkService) : NetworkService :=
  { service with updateResult := result, updateMessage := message, updateState := .complete }

/-- The end of `ProcessWifiScan`, with what `ScanWifi` found; `none` is a scan that failed. -/
def finishWifiScan (found : Option (List WifiAccessPoint)) (requiresReboot : Bool) (service : NetworkService) :
    NetworkService :=
  { service with
    scanAPs := if found.getD [] ≠ [] then found.getD [] else service.scanAPs
    scanCount := found.elim (-1) fun aps => aps.length
    scanRequiresReboot := requiresReboot
    scanState := .complete }

end NetworkService

/-! ### The worker -/

/-- A checkpoint on its way: the event that was presented, and whether it belongs to `BeginExplicit`. -/
structure Checkpoint where
  event : UpdateForegroundUiEvent
  behavior : UpdateForegroundCancelBehavior
  starting : Bool
  deriving DecidableEq

/-- Where the worker is in `ProcessUpdateJob`. -/
inductive UpdatePoint
  | begun
  | presented (checkpoint : Checkpoint)
  | cancelling (checkpoint : Checkpoint)
  | operating
  | refused
  deriving DecidableEq

inductive WorkerTask
  | idle
  | updateTaken
  | updating (progress : UpdateForegroundProgress) (point : UpdatePoint)
  | scanTaken
  | scanning (timeoutMs : UInt32)

/-- What the worker does next: what its code says, or what the operation or the scan chooses. -/
inductive WorkerMove
  | next
  | checkpoint (phase : UpdateForegroundPhase) (completed total : UInt64) (behavior : UpdateForegroundCancelBehavior)
  | operationReturns (result : Int) (message : Bytes)
  | scanReturns (found : Option (List WifiAccessPoint)) (requiresReboot : Bool)

def progressNotStarted : Bytes := ascii "Network service progress could not be initialized."

/-- What the calls on the service and the worker's sections do, as far as it can be told from outside. -/
inductive NetworkEvent
  | updateAccepted (token : UInt32) (operation : UpdateServiceOperation) (destructiveResetConsent : Bool)
  | updateStarted (operation : UpdateServiceOperation) (destructiveResetConsent : Bool)
  | presented (event : UpdateForegroundUiEvent)
  | cancelRead (cancel : Bool)
  | updateFinished (result : Int) (message : Bytes)
  | popped (token : UInt32) (event : UpdateForegroundUiEvent)
  | reported (token : UInt32) (latest : Option UpdateForegroundUiEvent)
  | cancelRequested (token : UInt32)
  | updateCompleted (token : UInt32) (snapshot : NetworkUpdateJobSnapshot)
  | scanAccepted (token : UInt32) (timeoutMs : UInt32)
  | scanStarted (timeoutMs : UInt32)
  | scanFinished (found : Option (List WifiAccessPoint)) (requiresReboot : Bool)
  | scanCompleted (token : UInt32) (result : Option WifiScanResult)
  deriving DecidableEq

structure NetworkState where
  service : NetworkService := {}
  worker : WorkerTask := .idle

/-- The point after a checkpoint that returned `accepted`. Only `BeginExplicit` has its way with it. -/
def Checkpoint.after (checkpoint : Checkpoint) (accepted : Bool) : UpdatePoint :=
  if checkpoint.starting = false ∨ accepted = true then .operating else .refused

namespace NetworkState

/-- A section of the worker, with what it tells; `none` where the worker cannot move so. -/
def work (move : WorkerMove) (s : NetworkState) : Option (List NetworkEvent × NetworkState) :=
  match s.worker, move with
  | .idle, .next =>
    if s.service.workerTask = false then none
    else
      let (taken, service) := s.service.processJobs
      match taken with
      | .none => some ([], s)
      | .update => some ([], ⟨service, .updateTaken⟩)
      | .scan => some ([], ⟨service, .scanTaken⟩)
  | .updateTaken, .next =>
    some ([.updateStarted s.service.updateOperation s.service.updateDestructiveResetConsent],
      { s with worker := .updating { active := true } .begun })
  | .updating progress .begun, .next =>
    let event := progress.event .discovery 0 0 .cancelAtCheckpoint
    some ([.presented event], ⟨s.service.present event,
      .updating { progress with phase := .discovery } (.presented ⟨event, .cancelAtCheckpoint, true⟩)⟩)
  | .updating progress (.presented checkpoint), .next =>
    let cancel := s.service.updateCancelRequested
    let requested := progress.cancelRequested || cancel
    let progress := { progress with cancelRequested := requested }
    let checkpoint := { checkpoint with event := { checkpoint.event with cancelPending := requested } }
    some ([.cancelRead cancel],
      { s with
        worker := .updating progress (if requested then .cancelling checkpoint else checkpoint.after true) })
  | .updating progress (.cancelling checkpoint), .next =>
    some ([.presented checkpoint.event], ⟨s.service.present checkpoint.event,
      .updating progress (checkpoint.after (checkpoint.behavior = .mandatoryCompletion))⟩)
  | .updating progress .operating, .checkpoint phase completed total behavior =>
    let event := progress.event phase completed total behavior
    some ([.presented event], ⟨s.service.present event,
      .updating { progress with phase := phase } (.presented ⟨event, behavior, false⟩)⟩)
  | .updating _ .operating, .operationReturns result message =>
    some ([.updateFinished result message], ⟨s.service.finishUpdateJob result message, .idle⟩)
  | .updating _ .refused, .next =>
    some ([.updateFinished (-1) progressNotStarted],
      ⟨s.service.finishUpdateJob (-1) progressNotStarted, .idle⟩)
  | .scanTaken, .next =>
    some ([.scanStarted s.service.scanTimeoutMs], { s with worker := .scanning s.service.scanTimeoutMs })
  | .scanning _, .scanReturns found requiresReboot =>
    if (found.getD []).length > scanCapacity then none
    else
      some ([.scanFinished found requiresReboot], ⟨s.service.finishWifiScan found requiresReboot, .idle⟩)
  | _, _ => none

end NetworkState

/-- The calls on the service and the moves of the worker. -/
inductive NetworkAction
  | startWorkers
  | submitUpdateJob (operation : UpdateServiceOperation) (destructiveResetConsent : Bool)
  | pollUpdateJob (token : UInt32)
  | cancelUpdateJob (token : UInt32)
  | submitWifiScan (timeoutMs : UInt32)
  | pollWifiScan (token : UInt32) (capacity : Nat)
  | work (move : WorkerMove)

namespace NetworkState

/-- A call that is refused, or that finds no job under its token, tells nothing. -/
def step (action : NetworkAction) (s : NetworkState) : Option (List NetworkEvent × NetworkState) :=
  match action with
  | .startWorkers => some ([], { s with service := s.service.startWorkers })
  | .submitUpdateJob operation consent =>
    let (token, service) := s.service.submitUpdateJob operation consent
    some (token.toList.map (.updateAccepted · operation consent), { s with service := service })
  | .pollUpdateJob token =>
    let ((status, snapshot), service) := s.service.pollUpdateJob token
    let events : List NetworkEvent :=
      match status, s.service.updateProgressMailbox.popTransition.1 with
      | .missing, _ => []
      | .pending, some event => [.popped token event]
      | .pending, none => [.reported token snapshot.progress]
      | .complete, _ => [.updateCompleted token snapshot]
    some (events, { s with service := service })
  | .cancelUpdateJob token =>
    let accepted := token ≠ 0 ∧ token = s.service.updateToken ∧
      (s.service.updateState = .posted ∨ s.service.updateState = .running)
    some (if accepted then [.cancelRequested token] else [], { s with service := s.service.cancelUpdateJob token })
  | .submitWifiScan timeoutMs =>
    let (token, service) := s.service.submitWifiScan timeoutMs
    some (token.toList.map (.scanAccepted · timeoutMs), { s with service := service })
  | .pollWifiScan token capacity =>
    let ((status, result), service) := s.service.pollWifiScan token capacity
    some (if status = .complete then [.scanCompleted token result] else [], { s with service := service })
  | .work move => s.work move

end NetworkState

end Bmx.Network
