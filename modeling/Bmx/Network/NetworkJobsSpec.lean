import Bmx.Network.NetworkJobs

/-!
# Every step prolongs a life

In every interleaving of calls and of the worker's sections, what happens is one job after the other.
-/

namespace Bmx.Network

open Bmx.Update Interaction NetworkService UnfinishedJob NetworkState List

/-! ### The mailbox -/

section

variable {m : UpdateProgressMailbox} {presented : List UpdateForegroundUiEvent}
  {feed : Feed UpdateForegroundUiEvent}

theorem popTransition_none (h : feed.KeptIn m.transitions m.head m.count) (hpop : m.popTransition.1 = none) :
    feed.next? transitionCapacity = none := by
  rw [h.next?]
  unfold UpdateProgressMailbox.popTransition at hpop
  split at hpop
  · rename_i hzero
    exact if_pos hzero
  · cases hpop

theorem popTransition_some (h : feed.KeptIn m.transitions m.head m.count) {event : UpdateForegroundUiEvent}
    (hpop : m.popTransition.1 = some event) :
    feed.next? transitionCapacity = some event ∧ m.popTransition.2.latest = m.latest ∧
      (feed.take transitionCapacity).KeptIn m.popTransition.2.transitions m.popTransition.2.head
        m.popTransition.2.count := by
  rw [h.next?]
  unfold UpdateProgressMailbox.popTransition at hpop ⊢
  split at hpop
  · cases hpop
  · rename_i hsome
    rw [if_neg hsome, if_neg hsome]
    exact ⟨hpop, rfl, h.take hsome⟩

/-- A presented event is the latest, and a change of phase is kept for the polls. -/
theorem present_kept (h : feed.KeptIn m.transitions m.head m.count) (hlatest : m.latest = presented.getLast?)
    (event : UpdateForegroundUiEvent) :
    (m.present event).latest = some event ∧
      (if presented.getLast?.map UpdateForegroundUiEvent.phase = some event.phase then feed
        else feed.write event).KeptIn (m.present event).transitions (m.present event).head
          (m.present event).count := by
  unfold UpdateProgressMailbox.present
  rw [← hlatest]
  split
  · exact ⟨rfl, h⟩
  · by_cases hfull : m.count = transitionCapacity
    · rw [if_pos hfull]
      exact ⟨rfl, h.write_full hfull event⟩
    · rw [if_neg hfull]
      exact ⟨rfl, h.write hfull event⟩

end

/-! ### Calls on the service -/

namespace NetworkService

variable {service : NetworkService} {token : UInt32}

theorem submitUpdateJob_busy (h : service.updateState ≠ .empty ∨ service.scanState ≠ .empty)
    (operation : UpdateServiceOperation) (consent : Bool) :
    service.submitUpdateJob operation consent = (none, service) := by
  by_cases hworker : service.workerTask = false
  · exact if_pos hworker
  · exact (if_neg hworker).trans (if_pos h)

theorem submitWifiScan_busy (h : service.updateState ≠ .empty ∨ service.scanState ≠ .empty)
    (timeoutMs : UInt32) : service.submitWifiScan timeoutMs = (none, service) := by
  by_cases hworker : service.workerTask = false
  · exact if_pos hworker
  · exact (if_neg hworker).trans (if_pos h.symm)

theorem pollUpdateJob_missing (h : token = 0 ∨ token ≠ service.updateToken ∨ service.updateState = .empty) :
    service.pollUpdateJob token = ((.missing, {}), service) := if_pos h

theorem pollUpdateJob_popped (h : ¬ (token = 0 ∨ token ≠ service.updateToken ∨ service.updateState = .empty))
    {event : UpdateForegroundUiEvent} (hpop : service.updateProgressMailbox.popTransition.1 = some event) :
    service.pollUpdateJob token = ((.pending, { progress := some event }),
      { service with updateProgressMailbox := service.updateProgressMailbox.popTransition.2 }) := by
  unfold pollUpdateJob
  rw [if_neg h]
  split
  · rename_i event' mailbox hpop'
    rw [hpop'] at hpop ⊢
    rw [Option.some.inj hpop]
  · rename_i mailbox hpop'
    rw [hpop'] at hpop
    cases hpop

theorem pollUpdateJob_drained (h : ¬ (token = 0 ∨ token ≠ service.updateToken ∨ service.updateState = .empty))
    (hpop : service.updateProgressMailbox.popTransition.1 = none) :
    service.pollUpdateJob token =
      if service.updateState ≠ .complete then
        ((.pending, { progress := service.updateProgressMailbox.latest }), service)
      else
        ((.complete, ⟨service.updateProgressMailbox.latest, service.updateResult, service.updateMessage⟩),
          { service with updateState := .empty, updateToken := 0 }) := by
  unfold pollUpdateJob
  rw [if_neg h]
  split
  · rename_i event mailbox hpop'
    rw [hpop'] at hpop
    cases hpop
  · rfl

theorem pollWifiScan_missing (h : token = 0 ∨ token ≠ service.scanToken ∨ service.scanState = .empty)
    (capacity : Nat) : service.pollWifiScan token capacity = ((.missing, none), service) := if_pos h

end NetworkService

/-! ### Steps of an update job -/

abbrev Prolonged (s' : NetworkState) (trace new : List NetworkEvent) : Prop :=
  Prolongs JobLife UnfinishedJob s' trace new

variable {s s' : NetworkState} {trace new : List NetworkEvent} {action : NetworkAction} {stage : UpdateStage}

theorem UnfinishedJob.idle (h : UnfinishedJob s trace) : Prolonged s trace [] := by
  left
  rwa [append_nil]

theorem UnfinishedJob.unchanged (h : UnfinishedJob s trace)
    (hnothing : s.step action = some ([], s)) (hstep : s.step action = some (new, s')) : Prolonged s' trace new := by
  obtain ⟨rfl, rfl⟩ := Prod.mk.inj (Option.some.inj (hnothing.symm.trans hstep))
  exact h.idle

section

variable {s : NetworkState}

theorem step_submitUpdateJob_busy (h : s.service.updateState ≠ .empty ∨ s.service.scanState ≠ .empty)
    (operation : UpdateServiceOperation) (consent : Bool) :
    s.step (.submitUpdateJob operation consent) = some ([], s) := by
  unfold step
  dsimp only
  rw [submitUpdateJob_busy h]
  rfl

theorem step_submitWifiScan_busy (h : s.service.updateState ≠ .empty ∨ s.service.scanState ≠ .empty)
    (timeoutMs : UInt32) : s.step (.submitWifiScan timeoutMs) = some ([], s) := by
  unfold step
  dsimp only
  rw [submitWifiScan_busy h]
  rfl

variable {asked : UInt32}

theorem step_pollUpdateJob_missing
    (h : asked = 0 ∨ asked ≠ s.service.updateToken ∨ s.service.updateState = .empty) :
    s.step (.pollUpdateJob asked) = some ([], s) := by
  unfold step
  dsimp only
  rw [pollUpdateJob_missing h]

theorem step_pollWifiScan_missing
    (h : asked = 0 ∨ asked ≠ s.service.scanToken ∨ s.service.scanState = .empty) (capacity : Nat) :
    s.step (.pollWifiScan asked capacity) = some ([], s) := by
  unfold step
  dsimp only
  rw [pollWifiScan_missing h]
  rfl

theorem step_cancelUpdateJob_refused (h : ¬ (asked ≠ 0 ∧ asked = s.service.updateToken ∧
      (s.service.updateState = .posted ∨ s.service.updateState = .running))) :
    s.step (.cancelUpdateJob asked) = some ([], s) := by
  unfold step cancelUpdateJob
  dsimp only
  rw [if_neg h, if_neg h]

theorem step_cancelUpdateJob_empty (h : s.service.updateState = .empty) (asked : UInt32) :
    s.step (.cancelUpdateJob asked) = some ([], s) := by
  apply step_cancelUpdateJob_refused
  rw [h]
  rintro ⟨-, -, hposted | hrunning⟩
  · cases hposted
  · cases hrunning

end

theorem UpdateStage.Held.congr (h : stage.Held s)
    (hstate : s'.service.updateState = s.service.updateState) (hworker : s'.worker = s.worker)
    (hresult : s'.service.updateResult = s.service.updateResult)
    (hmessage : s'.service.updateMessage = s.service.updateMessage) : stage.Held s' := by
  cases stage with
  | waiting =>
    change (s'.service.updateState = .posted ∧ _) ∨ (s'.service.updateState = .running ∧ _)
    rw [hstate, hworker]
    exact h
  | running =>
    change s'.service.updateState = .running ∧ _
    rw [hstate, hworker]
    exact h
  | finished result message =>
    change s'.service.updateState = .complete ∧ s'.worker = .idle ∧ s'.service.updateResult = result ∧
      s'.service.updateMessage = message
    rw [hstate, hworker, hresult, hmessage]
    exact h

theorem UpdateStage.Held.busy (h : stage.Held s) : s.service.updateState ≠ .empty := by
  intro hempty
  cases stage with
  | waiting =>
    rcases h with ⟨hposted, -⟩ | ⟨hrunning, -⟩
    · cases hempty.symm.trans hposted
    · cases hempty.symm.trans hrunning
  | running | finished result message => cases hempty.symm.trans h.1

/-- The service says that a job is complete exactly when it is finished. -/
theorem UpdateStage.Held.complete_iff {course : UpdateCourse} (h : course.stage.Held s) :
    s.service.updateState = .complete ↔ course.finished = true := by
  unfold UpdateCourse.finished
  cases hstage : course.stage with
  | waiting =>
    rw [hstage] at h
    constructor
    · intro hcomplete
      rcases h with ⟨hposted, -⟩ | ⟨hrunning, -⟩
      · cases hcomplete.symm.trans hposted
      · cases hcomplete.symm.trans hrunning
    · intro hfinished
      cases hfinished
  | running =>
    rw [hstage] at h
    constructor
    · intro hcomplete
      cases hcomplete.symm.trans h.1
    · intro hfinished
      cases hfinished
  | finished result message =>
    rw [hstage] at h
    exact ⟨fun _ => rfl, fun _ => h.1⟩

section

variable {s s' : NetworkState} {token : UInt32} {operation : UpdateServiceOperation} {consent : Bool}
  {trace new : List NetworkEvent} {course : UpdateCourse}

theorem pollUpdateJob_prolongs (hcourse : UpdateUnderway token operation consent trace course)
    (h : HoldsUpdate s token operation consent course) (asked : UInt32)
    (hstep : s.step (.pollUpdateJob asked) = some (new, s')) : Prolonged s' trace new := by
  by_cases hmissing : asked = 0 ∨ asked ≠ s.service.updateToken ∨ s.service.updateState = .empty
  · exact (update hcourse h).unchanged (step_pollUpdateJob_missing hmissing) hstep
  unfold step at hstep
  dsimp only at hstep
  have htoken : asked = token := by
    have hsame : ¬ asked ≠ s.service.updateToken := fun hother => hmissing (.inr (.inl hother))
    exact (not_not.1 hsame).trans h.same
  cases hpop : s.service.updateProgressMailbox.popTransition.1 with
  | some event =>
    rw [pollUpdateJob_popped hmissing hpop, hpop] at hstep
    cases hstep
    obtain ⟨hnext, hlatest, hkept⟩ := popTransition_some h.kept hpop
    rw [htoken]
    exact .inl (.update (.popped hcourse hnext) ⟨h.scan, h.same, h.nonzero, h.operation, h.consent, h.cancel,
      hlatest.trans h.latest, hkept, h.stage.congr rfl rfl rfl rfl⟩)
  | none =>
    have hdrained := popTransition_none h.kept hpop
    rw [pollUpdateJob_drained hmissing hpop, hpop, h.latest] at hstep
    by_cases hcomplete : s.service.updateState = .complete
    · rw [if_neg (not_not.2 hcomplete)] at hstep
      cases hstep
      have hfinished := h.stage.complete_iff.1 hcomplete
      have hheld := h.stage
      unfold UpdateCourse.finished at hfinished
      split at hfinished
      · rename_i result message hstage
        rw [hstage] at hheld
        obtain ⟨-, hworker, rfl, rfl⟩ := hheld
        rw [htoken]
        exact .inr ⟨.update hcourse hstage hdrained, .free rfl h.scan hworker⟩
      · cases hfinished
    · rw [if_pos hcomplete] at hstep
      cases hstep
      have hunfinished := Bool.eq_false_iff.2 fun hfinished => hcomplete (h.stage.complete_iff.2 hfinished)
      rw [htoken]
      exact .inl (.update (.reported hcourse hdrained hunfinished) h)

theorem cancelUpdateJob_prolongs (hcourse : UpdateUnderway token operation consent trace course)
    (h : HoldsUpdate s token operation consent course) (asked : UInt32)
    (hstep : s.step (.cancelUpdateJob asked) = some (new, s')) : Prolonged s' trace new := by
  by_cases haccepted : asked ≠ 0 ∧ asked = s.service.updateToken ∧
      (s.service.updateState = .posted ∨ s.service.updateState = .running)
  · cases hstep
    unfold cancelUpdateJob
    rw [if_pos haccepted, if_pos haccepted]
    obtain ⟨-, htoken, hstate⟩ := haccepted
    have hunfinished : course.finished = false := by
      apply Bool.eq_false_iff.2
      intro hfinished
      have hcomplete := h.stage.complete_iff.2 hfinished
      rcases hstate with hposted | hrunning
      · cases hcomplete.symm.trans hposted
      · cases hcomplete.symm.trans hrunning
    obtain rfl : asked = token := htoken.trans h.same
    exact .inl (.update (.cancelRequested hcourse hunfinished) ⟨h.scan, h.same, h.nonzero, h.operation, h.consent,
      rfl, h.latest, h.kept, h.stage.congr rfl rfl rfl rfl⟩)
  · exact (update hcourse h).unchanged (step_cancelUpdateJob_refused haccepted) hstep

theorem HoldsUpdate.present (h : HoldsUpdate s token operation consent course)
    (hstage : course.stage = .running) (event : UpdateForegroundUiEvent) (progress : UpdateForegroundProgress)
    (point : UpdatePoint) :
    HoldsUpdate ⟨s.service.present event, .updating progress point⟩ token operation consent
      (course.present event) := by
  obtain ⟨hlatest, hkept⟩ := present_kept h.kept h.latest event
  have hheld := h.stage
  rw [hstage] at hheld
  refine ⟨h.scan, h.same, h.nonzero, h.operation, h.consent, h.cancel, ?_, hkept, ?_⟩
  · change _ = (course.presented ++ [event]).getLast?
    rw [getLast?_concat]
    exact hlatest
  · change course.stage.Held _
    rw [hstage]
    exact ⟨hheld.1, progress, point, rfl⟩

theorem HoldsUpdate.move (h : HoldsUpdate s token operation consent course) (worker : WorkerTask)
    {stage : UpdateStage} (hheld : stage.Held ⟨s.service, worker⟩) :
    HoldsUpdate ⟨s.service, worker⟩ token operation consent { course with stage := stage } :=
  ⟨h.scan, h.same, h.nonzero, h.operation, h.consent, h.cancel, h.latest, h.kept, hheld⟩

theorem HoldsUpdate.finish (h : HoldsUpdate s token operation consent course) (result : Int) (message : Bytes) :
    HoldsUpdate ⟨s.service.finishUpdateJob result message, .idle⟩ token operation consent
      { course with stage := .finished result message } :=
  ⟨h.scan, h.same, h.nonzero, h.operation, h.consent, h.cancel, h.latest, h.kept, rfl, rfl, rfl, rfl⟩

theorem processJobs_update (h : s.service.updateState = .posted) :
    s.service.processJobs = (.update, { s.service with updateState := .running }) := if_pos h

variable {move : WorkerMove}

theorem work_idle_prolongs (hcourse : UpdateUnderway token operation consent trace course)
    (h : HoldsUpdate s token operation consent course) (hworker : s.worker = .idle)
    (hstep : s.work move = some (new, s')) : Prolonged s' trace new := by
  unfold work at hstep
  rw [hworker] at hstep
  cases move with
  | next =>
    dsimp only at hstep
    split at hstep
    · cases hstep
    by_cases hposted : s.service.updateState = .posted
    · rw [processJobs_update hposted] at hstep
      cases hstep
      have hheld := h.stage
      left
      rw [append_nil]
      refine .update hcourse ⟨h.scan, h.same, h.nonzero, h.operation, h.consent, h.cancel, h.latest, h.kept, ?_⟩
      cases hstage : course.stage with
      | waiting => exact .inr ⟨rfl, rfl⟩
      | running | finished result message =>
        rw [hstage] at hheld
        cases hposted.symm.trans hheld.1
    · have hnone : s.service.processJobs = (.none, s.service) := by
        have hscan : s.service.scanState ≠ .posted := by
          rw [h.scan]
          intro hempty
          cases hempty
        exact (if_neg hposted).trans (if_neg hscan)
      rw [hnone] at hstep
      cases hstep
      exact (update hcourse h).idle
  | checkpoint phase completed total behavior | operationReturns result message
  | scanReturns found requiresReboot => cases hstep

theorem work_updating_prolongs (hcourse : UpdateUnderway token operation consent trace course)
    (h : HoldsUpdate s token operation consent course) (hstage : course.stage = .running)
    {progress : UpdateForegroundProgress} {point : UpdatePoint} (hworker : s.worker = .updating progress point)
    (hstep : s.work move = some (new, s')) : Prolonged s' trace new := by
  have hheld := h.stage
  rw [hstage] at hheld
  unfold work at hstep
  rw [hworker] at hstep
  cases point with
  | begun | cancelling checkpoint =>
    cases move with
    | next =>
      cases hstep
      exact .inl (.update (.presented _ hcourse hstage) (h.present hstage _ _ _))
    | _ => cases hstep
  | presented checkpoint =>
    cases move with
    | next =>
      cases hstep
      rw [h.cancel]
      refine .inl (.update (.cancelRead hcourse hstage) (h.move _ ?_))
      rw [hstage]
      exact ⟨hheld.1, _, _, rfl⟩
    | _ => cases hstep
  | operating =>
    cases move with
    | checkpoint phase completed total behavior =>
      cases hstep
      exact .inl (.update (.presented _ hcourse hstage) (h.present hstage _ _ _))
    | operationReturns result message =>
      cases hstep
      exact .inl (.update (.finished _ _ hcourse hstage) (h.finish _ _))
    | _ => cases hstep
  | refused =>
    cases move with
    | next =>
      cases hstep
      exact .inl (.update (.finished _ _ hcourse hstage) (h.finish _ _))
    | _ => cases hstep

theorem work_taken_prolongs (hcourse : UpdateUnderway token operation consent trace course)
    (h : HoldsUpdate s token operation consent course) (hstage : course.stage = .waiting)
    (hstate : s.service.updateState = .running) (hworker : s.worker = .updateTaken)
    (hstep : s.work move = some (new, s')) : Prolonged s' trace new := by
  unfold work at hstep
  rw [hworker] at hstep
  cases move with
  | next =>
    cases hstep
    rw [h.operation, h.consent]
    exact .inl (.update (.started hcourse hstage) (h.move _ ⟨hstate, _, _, rfl⟩))
  | _ => cases hstep

theorem work_update_prolongs (hcourse : UpdateUnderway token operation consent trace course)
    (h : HoldsUpdate s token operation consent course)
    (hstep : s.work move = some (new, s')) : Prolonged s' trace new := by
  have hheld := h.stage
  cases hstage : course.stage with
  | waiting =>
    rw [hstage] at hheld
    rcases hheld with ⟨-, hworker⟩ | ⟨hstate, hworker⟩
    · exact work_idle_prolongs hcourse h hworker hstep
    · exact work_taken_prolongs hcourse h hstage hstate hworker hstep
  | running =>
    rw [hstage] at hheld
    obtain ⟨-, progress, point, hworker⟩ := hheld
    exact work_updating_prolongs hcourse h hstage hworker hstep
  | finished result message =>
    rw [hstage] at hheld
    exact work_idle_prolongs hcourse h hheld.2.1 hstep

theorem HoldsUpdate.step (hcourse : UpdateUnderway token operation consent trace course)
    (h : HoldsUpdate s token operation consent course) {action : NetworkAction}
    (hstep : s.step action = some (new, s')) : Prolonged s' trace new := by
  have hbusy := h.stage.busy
  cases action with
  | startWorkers =>
    cases hstep
    refine (update hcourse ?_).idle
    exact ⟨h.scan, h.same, h.nonzero, h.operation, h.consent, h.cancel, h.latest, h.kept, h.stage.congr rfl rfl rfl rfl⟩
  | submitUpdateJob other consent' =>
    exact (update hcourse h).unchanged (step_submitUpdateJob_busy (.inl hbusy) _ _) hstep
  | pollUpdateJob asked => exact pollUpdateJob_prolongs hcourse h asked hstep
  | cancelUpdateJob asked => exact cancelUpdateJob_prolongs hcourse h asked hstep
  | submitWifiScan timeoutMs =>
    exact (update hcourse h).unchanged (step_submitWifiScan_busy (.inl hbusy) _) hstep
  | pollWifiScan asked capacity =>
    exact (update hcourse h).unchanged (step_pollWifiScan_missing (.inr (.inr h.scan)) _) hstep
  | work move => exact work_update_prolongs hcourse h hstep

end

/-! ### Steps of a scan -/

theorem ScanStage.Held.busy {stage : ScanStage} {timeoutMs : UInt32}
    (h : stage.Held timeoutMs s) : s.service.scanState ≠ .empty := by
  intro hempty
  cases stage with
  | waiting =>
    rcases h with ⟨hposted, -⟩ | ⟨hrunning, -⟩
    · cases hempty.symm.trans hposted
    · cases hempty.symm.trans hrunning
  | running | finished found requiresReboot => cases hempty.symm.trans h.1

section

variable {s s' : NetworkState} {token timeoutMs : UInt32} {stage : ScanStage} {new : List NetworkEvent}

theorem pollWifiScan_prolongs (h : HoldsScan s token timeoutMs stage) (asked : UInt32) (capacity : Nat)
    (hstep : s.step (.pollWifiScan asked capacity) = some (new, s')) :
    Prolonged s' (scanTrace token timeoutMs stage) new := by
  by_cases hmissing : asked = 0 ∨ asked ≠ s.service.scanToken ∨ s.service.scanState = .empty
  · exact (scan h).unchanged (step_pollWifiScan_missing hmissing capacity) hstep
  unfold step at hstep
  dsimp only at hstep
  have htoken : asked = token := by
    have hsame : ¬ asked ≠ s.service.scanToken := fun hother => hmissing (.inr (.inl hother))
    exact (not_not.1 hsame).trans h.same
  unfold pollWifiScan at hstep
  rw [if_neg hmissing] at hstep
  by_cases hcomplete : s.service.scanState = .complete
  · rw [if_neg (not_not.2 hcomplete)] at hstep
    cases hstep
    have hheld := h.stage
    cases stage with
    | waiting =>
      rcases hheld with ⟨hposted, -⟩ | ⟨hrunning, -⟩
      · cases hcomplete.symm.trans hposted
      · cases hcomplete.symm.trans hrunning
    | running => cases hcomplete.symm.trans hheld.1
    | finished found requiresReboot =>
      obtain ⟨-, hworker, haps, hcount, hreboot⟩ := hheld
      right
      rw [htoken, haps, hcount, hreboot]
      refine ⟨?_, .free h.update rfl hworker⟩
      have hcopied : (found.getD []).take (if capacity < (found.elim (-1 : Int) fun aps => aps.length).toNat
          then capacity else (found.elim (-1 : Int) fun aps => aps.length).toNat) = (found.getD []).take capacity := by
        cases found with
        | none => rw [Option.getD_none, take_nil, take_nil]
        | some aps =>
          change aps.take (if capacity < aps.length then capacity else aps.length) = aps.take capacity
          split
          · rfl
          · rename_i hfits
            rw [take_length, take_of_length_le (Nat.not_lt.1 hfits)]
      have hlife := JobLife.scan token timeoutMs found requiresReboot capacity
      unfold scanResult at hlife
      rw [← hcopied] at hlife
      exact hlife
  · rw [if_pos hcomplete] at hstep
    cases hstep
    exact (scan h).idle

variable {move : WorkerMove}

theorem work_scan_idle_prolongs (h : HoldsScan s token timeoutMs stage) (hworker : s.worker = .idle)
    (hstep : s.work move = some (new, s')) : Prolonged s' (scanTrace token timeoutMs stage) new := by
  have hupdate : s.service.updateState ≠ .posted := by
    rw [h.update]
    intro hempty
    cases hempty
  unfold work at hstep
  rw [hworker] at hstep
  cases move with
  | next =>
    dsimp only at hstep
    split at hstep
    · cases hstep
    by_cases hposted : s.service.scanState = .posted
    · have htaken : s.service.processJobs = (.scan, { s.service with scanState := .running }) :=
        (if_neg hupdate).trans (if_pos hposted)
      rw [htaken] at hstep
      cases hstep
      left
      rw [append_nil]
      refine .scan ⟨h.update, h.same, h.nonzero, h.timeout, h.none, ?_⟩
      have hheld := h.stage
      cases stage with
      | waiting => exact .inr ⟨rfl, rfl⟩
      | running | finished found requiresReboot => cases hposted.symm.trans hheld.1
    · have hnone : s.service.processJobs = (.none, s.service) := (if_neg hupdate).trans (if_neg hposted)
      rw [hnone] at hstep
      cases hstep
      exact (scan h).idle
  | _ => cases hstep

theorem work_scan_prolongs (h : HoldsScan s token timeoutMs stage)
    (hstep : s.work move = some (new, s')) : Prolonged s' (scanTrace token timeoutMs stage) new := by
  have hheld := h.stage
  cases stage with
  | waiting =>
    rcases hheld with ⟨-, hworker⟩ | ⟨hrunning, hworker⟩
    · exact work_scan_idle_prolongs h hworker hstep
    unfold work at hstep
    rw [hworker] at hstep
    cases move with
    | next =>
      cases hstep
      rw [h.timeout]
      have hscanning : HoldsScan ⟨s.service, .scanning timeoutMs⟩ token timeoutMs .running := by
        refine ⟨h.update, h.same, h.nonzero, h.timeout, fun _ => h.none ?_, hrunning, rfl⟩
        intro found requiresReboot hstage
        cases hstage
      exact .inl (.scan hscanning)
    | _ => cases hstep
  | running =>
    obtain ⟨hrunning, hworker⟩ := hheld
    unfold work at hstep
    rw [hworker] at hstep
    cases move with
    | scanReturns found requiresReboot =>
      dsimp only at hstep
      split at hstep
      · cases hstep
      cases hstep
      have haps : (s.service.finishWifiScan found requiresReboot).scanAPs = found.getD [] := by
        have hnone : s.service.scanAPs = [] := h.none fun _ _ hstage => by cases hstage
        unfold finishWifiScan
        split
        · rfl
        · rename_i hempty
          rw [hnone, not_not.1 hempty]
      have hfinished : HoldsScan ⟨s.service.finishWifiScan found requiresReboot, .idle⟩ token timeoutMs
          (.finished found requiresReboot) := by
        refine ⟨h.update, h.same, h.nonzero, h.timeout, ?_, rfl, rfl, haps, rfl, rfl⟩
        intro hstage
        exact absurd rfl (hstage found requiresReboot)
      exact .inl (.scan hfinished)
    | _ => cases hstep
  | finished found requiresReboot => exact work_scan_idle_prolongs h hheld.2.1 hstep

theorem HoldsScan.step (h : HoldsScan s token timeoutMs stage) {action : NetworkAction}
    (hstep : s.step action = some (new, s')) : Prolonged s' (scanTrace token timeoutMs stage) new := by
  have hbusy := h.stage.busy
  cases action with
  | startWorkers =>
    cases hstep
    have hholds : HoldsScan { s with service := s.service.startWorkers } token timeoutMs stage := by
      refine ⟨h.update, h.same, h.nonzero, h.timeout, h.none, ?_⟩
      cases stage with
      | waiting | running | finished found requiresReboot => exact h.stage
    exact (scan hholds).idle
  | submitUpdateJob operation consent =>
    exact (scan h).unchanged (step_submitUpdateJob_busy (.inr hbusy) _ _) hstep
  | pollUpdateJob asked =>
    exact (scan h).unchanged (step_pollUpdateJob_missing (.inr (.inr h.update))) hstep
  | cancelUpdateJob asked =>
    exact (scan h).unchanged (step_cancelUpdateJob_empty h.update _) hstep
  | submitWifiScan other =>
    exact (scan h).unchanged (step_submitWifiScan_busy (.inr hbusy) _) hstep
  | pollWifiScan asked capacity => exact pollWifiScan_prolongs h asked capacity hstep
  | work move => exact work_scan_prolongs h hstep

end

/-! ### Every step -/

theorem followingToken_ne_zero (token : UInt32) : followingToken token ≠ 0 := by
  unfold followingToken
  split
  · decide
  · rename_i hnonzero
    exact hnonzero

theorem free_step (hupdate : s.service.updateState = .empty)
    (hscan : s.service.scanState = .empty) (hworker : s.worker = .idle)
    (hstep : s.step action = some (new, s')) : Prolonged s' [] new := by
  have hfree := free hupdate hscan hworker
  have hboth : ¬ (s.service.updateState ≠ .empty ∨ s.service.scanState ≠ .empty) := by
    rintro (hbusy | hbusy)
    · exact hbusy hupdate
    · exact hbusy hscan
  cases action with
  | startWorkers =>
    cases hstep
    have hstarted : UnfinishedJob { s with service := s.service.startWorkers } [] := .free hupdate hscan hworker
    exact hstarted.idle
  | submitUpdateJob operation consent =>
    unfold step submitUpdateJob at hstep
    dsimp only at hstep
    by_cases hstarted : s.service.workerTask = false
    · rw [if_pos hstarted] at hstep
      cases hstep
      exact hfree.idle
    · rw [if_neg hstarted, if_neg hboth] at hstep
      cases hstep
      have hkept : ({} : Feed UpdateForegroundUiEvent).KeptIn s.service.updateProgressMailbox.transitions 0 0 :=
        Feed.window_empty _
      exact .inl (.update .accepted
        ⟨hscan, rfl, followingToken_ne_zero _, rfl, rfl, rfl, rfl, hkept, .inl ⟨rfl, hworker⟩⟩)
  | pollUpdateJob asked =>
    exact hfree.unchanged (step_pollUpdateJob_missing (.inr (.inr hupdate))) hstep
  | cancelUpdateJob asked =>
    exact hfree.unchanged (step_cancelUpdateJob_empty hupdate _) hstep
  | submitWifiScan timeoutMs =>
    unfold step submitWifiScan at hstep
    dsimp only at hstep
    by_cases hstarted : s.service.workerTask = false
    · rw [if_pos hstarted] at hstep
      cases hstep
      exact hfree.idle
    · rw [if_neg hstarted, if_neg fun hbusy => hboth hbusy.symm] at hstep
      cases hstep
      have hholds : HoldsScan { s with service := (s.service.submitWifiScan timeoutMs).2 }
          (followingToken s.service.nextToken) timeoutMs .waiting := by
        unfold submitWifiScan
        rw [if_neg hstarted, if_neg fun hbusy => hboth hbusy.symm]
        exact ⟨hupdate, rfl, followingToken_ne_zero _, rfl, fun _ => rfl, .inl ⟨rfl, hworker⟩⟩
      unfold submitWifiScan at hholds
      rw [if_neg hstarted, if_neg fun hbusy => hboth hbusy.symm] at hholds
      exact .inl (.scan hholds)
  | pollWifiScan asked capacity =>
    exact hfree.unchanged (step_pollWifiScan_missing (.inr (.inr hscan)) _) hstep
  | work move =>
    have hnone : s.service.processJobs = (.none, s.service) := by
      unfold processJobs
      rw [hupdate, hscan]
      rfl
    change s.work move = some (new, s') at hstep
    unfold work at hstep
    rw [hworker] at hstep
    cases move with
    | next =>
      dsimp only at hstep
      rw [hnone] at hstep
      split at hstep
      · cases hstep
      cases hstep
      exact hfree.idle
    | _ => cases hstep

theorem UnfinishedJob.step (action : NetworkAction) (s : NetworkState) (new : List NetworkEvent)
    (s' : NetworkState) (hstep : s.step action = some (new, s')) (trace : List NetworkEvent)
    (h : UnfinishedJob s trace) : Prolonged s' trace new := by
  cases h with
  | free hupdate hscan hworker => exact free_step hupdate hscan hworker hstep
  | update hcourse hholds => exact hholds.step hcourse hstep
  | scan hholds => exact hholds.step hstep

theorem lived_run {actions : List NetworkAction}
    (hrun : happens (fun action s => s.step action) actions ({} : NetworkState) = some (trace, s)) :
    Lived JobLife UnfinishedJob s trace := by
  have hstart : Lived JobLife UnfinishedJob ({} : NetworkState) [] := .start (.free rfl rfl rfl)
  exact hstart.happens (fun action s new s' hstep trace h => h.step action s new s' hstep trace) hrun

end Bmx.Network
