import Bmx.Network.NetworkJobsSpec
import Bmx.Remote.MailboxSpec
import Mathlib.Data.List.Forall2

/-!
# Jobs complete once and in order

What a life of an update job means for those who poll it, told of the events alone: the changes of
phase come in order and the newest are never left out, the latest report is the last that was
presented, and the worker is asked to stop only by a cancellation under the job's token.
-/

namespace Bmx.Network

open Bmx.Update Interaction NetworkService NetworkEvent Remote List Option

/-! ### What the events of an update job tell -/

def NetworkEvent.presented? : NetworkEvent → Option UpdateForegroundUiEvent
  | .presented event => some event
  | _ => none

def NetworkEvent.popped? : NetworkEvent → Option UpdateForegroundUiEvent
  | .popped _ event => some event
  | _ => none

def presentedEvents (trace : List NetworkEvent) : List UpdateForegroundUiEvent :=
  trace.filterMap presented?

def poppedEvents (trace : List NetworkEvent) : List UpdateForegroundUiEvent :=
  trace.filterMap popped?

/-- The changes of phase that were presented. -/
def changesOf (trace : List NetworkEvent) : List UpdateForegroundUiEvent := phaseChanges (presentedEvents trace)

/-- The polls popped the changes of phase at these places, in order. Up to the last of them none of the
newest was left out. -/
structure PoppedInOrder (trace : List NetworkEvent) (taken : List Nat) : Prop where
  increasing : taken.Pairwise (· < ·)
  events : List.Forall₂ (fun place event => (changesOf trace)[place]? = some event) taken (poppedEvents trace)
  newest : ∀ place, ∀ last ∈ taken, place ≤ last → (changesOf trace).length - transitionCapacity ≤ place →
    place ∈ taken

/-- What may happen to an update job after its acceptance and before its completion. -/
def NetworkEvent.IsOf (token : UInt32) (operation : UpdateServiceOperation) (consent : Bool) : NetworkEvent → Prop
  | .updateStarted other consent' => other = operation ∧ consent' = consent
  | .presented _ => True
  | .cancelRead _ => True
  | .updateFinished _ _ => True
  | .popped asked _ => asked = token
  | .reported asked _ => asked = token
  | .cancelRequested asked => asked = token
  | _ => False

/-- The events of one update job, from its acceptance on. -/
structure OneUpdate (token : UInt32) (operation : UpdateServiceOperation) (consent : Bool)
    (trace : List NetworkEvent) : Prop where
  own : ∃ rest, trace = .updateAccepted token operation consent :: rest ∧
    ∀ event ∈ rest, event.IsOf token operation consent
  popped : ∀ before, before <+: trace → ∃ taken, PoppedInOrder before taken
  latest : ∀ before asked event, before ++ [.reported asked event] <+: trace →
    event = (presentedEvents before).getLast?
  cancel : ∀ before cancel, before ++ [.cancelRead cancel] <+: trace →
    (cancel = true ↔ .cancelRequested token ∈ before)

/-- An update job that was completed, once and after everything else. -/
def CompletedUpdate (life : List NetworkEvent) : Prop :=
  ∃ token operation consent trace result message,
    life = trace ++ [.updateCompleted token ⟨(presentedEvents trace).getLast?, result, message⟩] ∧
    OneUpdate token operation consent trace ∧ .updateFinished result message ∈ trace ∧
    ∃ taken, PoppedInOrder trace taken ∧ ∀ place, (changesOf trace).length - transitionCapacity ≤ place →
      place < (changesOf trace).length → place ∈ taken

def CompletedScan (life : List NetworkEvent) : Prop :=
  ∃ token timeoutMs found requiresReboot capacity,
    life = [.scanAccepted token timeoutMs, .scanStarted timeoutMs, .scanFinished found requiresReboot,
      .scanCompleted token (some (scanResult found requiresReboot capacity))]

/-! ### The course of a job and its events -/

theorem presentedEvents_concat (trace : List NetworkEvent) (event : NetworkEvent) :
    presentedEvents (trace ++ [event]) = presentedEvents trace ++ event.presented?.toList := by
  unfold presentedEvents
  rw [filterMap_append]
  cases event <;> rfl

theorem poppedEvents_concat (trace : List NetworkEvent) (event : NetworkEvent) :
    poppedEvents (trace ++ [event]) = poppedEvents trace ++ event.popped?.toList := by
  unfold poppedEvents
  rw [filterMap_append]
  cases event <;> rfl

/-- What the course of a job says about its events. -/
structure CourseOf (token : UInt32) (trace : List NetworkEvent) (course : UpdateCourse) : Prop where
  presented : course.presented = presentedEvents trace
  written : course.feed.written = changesOf trace
  orderly : course.feed.Orderly transitionCapacity
  popped : List.Forall₂ (fun place event => course.feed.written[place]? = some event) course.feed.taken
    (poppedEvents trace)
  cancelled : course.cancelled = true ↔ .cancelRequested token ∈ trace
  finished : ∀ result message, course.stage = .finished result message → .updateFinished result message ∈ trace

section

variable {token : UInt32} {operation : UpdateServiceOperation} {consent : Bool} {trace : List NetworkEvent}
  {course : UpdateCourse}

variable {event : NetworkEvent}

theorem CourseOf.cancelled_concat (h : CourseOf token trace course) (hevent : event ≠ .cancelRequested token) :
    course.cancelled = true ↔ .cancelRequested token ∈ trace ++ [event] := by
  rw [mem_append, mem_singleton, h.cancelled]
  constructor
  · exact .inl
  · rintro (hmem | hlast)
    · exact hmem
    · exact absurd hlast.symm hevent

theorem CourseOf.quiet (h : CourseOf token trace course) {stage : UpdateStage}
    {cancelled : Bool} (hpresented : event.presented? = none) (hpopped : event.popped? = none)
    (hcancelled : cancelled = true ↔ .cancelRequested token ∈ trace ++ [event])
    (hfinished : ∀ result message, stage = .finished result message →
      .updateFinished result message ∈ trace ++ [event]) :
    CourseOf token (trace ++ [event]) { course with stage := stage, cancelled := cancelled } := by
  have hsame : presentedEvents (trace ++ [event]) = presentedEvents trace := by
    rw [presentedEvents_concat, hpresented]
    exact append_nil _
  refine ⟨?_, ?_, h.orderly, ?_, hcancelled, hfinished⟩
  · rw [hsame]
    exact h.presented
  · unfold changesOf
    rw [hsame]
    exact h.written
  · rw [poppedEvents_concat, hpopped]
    change List.Forall₂ _ _ (poppedEvents trace ++ [])
    rw [append_nil]
    exact h.popped

theorem CourseOf.present (h : CourseOf token trace course) (event : UpdateForegroundUiEvent) :
    CourseOf token (trace ++ [.presented event]) (course.present event) := by
  have hpresented : presentedEvents (trace ++ [.presented event]) = course.presented ++ [event] := by
    rw [presentedEvents_concat, h.presented]
    rfl
  refine ⟨hpresented.symm, ?_, ?_, ?_, ?_, ?_⟩
  · unfold changesOf UpdateCourse.present
    rw [hpresented, phaseChanges_concat]
    split
    · rw [h.presented]
      exact h.written
    · rw [h.presented]
      exact congrArg (· ++ [event]) h.written
  · unfold UpdateCourse.present
    split
    · exact h.orderly
    · exact h.orderly.write event
  · rw [poppedEvents_concat]
    change List.Forall₂ _ _ (poppedEvents trace ++ [])
    rw [append_nil]
    unfold UpdateCourse.present
    split
    · exact h.popped
    · refine h.popped.imp ?_
      intro place value hvalue
      have hbound : place < course.feed.written.length := (List.getElem?_eq_some_iff.1 hvalue).1
      exact (getElem?_append_left hbound).trans hvalue
  · apply h.cancelled_concat
    intro hevent
    cases hevent
  · intro result message hstage
    exact mem_append_left _ (h.finished result message hstage)

theorem CourseOf.pop (h : CourseOf token trace course) {event : UpdateForegroundUiEvent}
    (hnext : course.feed.next? transitionCapacity = some event) :
    CourseOf token (trace ++ [.popped token event]) { course with feed := course.feed.take transitionCapacity } := by
  have hsame : presentedEvents (trace ++ [.popped token event]) = presentedEvents trace := by
    rw [presentedEvents_concat]
    exact append_nil _
  refine ⟨?_, ?_, ?_, ?_, ?_, ?_⟩
  · rw [hsame]
    exact h.presented
  · unfold changesOf
    rw [hsame]
    exact h.written
  · exact h.orderly.take (List.getElem?_eq_some_iff.1 hnext).1
  · rw [poppedEvents_concat]
    exact rel_append h.popped (.cons hnext .nil)
  · apply h.cancelled_concat
    intro hevent
    cases hevent
  · intro result message hstage
    exact mem_append_left _ (h.finished result message hstage)

theorem UpdateUnderway.courseOf (h : UpdateUnderway token operation consent trace course) :
    CourseOf token trace course := by
  induction h with
  | accepted =>
    refine ⟨rfl, rfl, Feed.orderly_empty, .nil, ?_, ?_⟩
    · constructor
      · intro hcancelled
        cases hcancelled
      · intro hmem
        cases mem_singleton.1 hmem
    · intro result message hstage
      cases hstage
  | started h hstage ih =>
    refine ih.quiet rfl rfl (ih.cancelled_concat fun hevent => by cases hevent) ?_
    intro result message hfinished
    cases hfinished
  | presented event h hstage ih => exact ih.present event
  | cancelRead h hstage ih | reported h hnext hstage ih =>
    refine ih.quiet rfl rfl (ih.cancelled_concat fun hevent => by cases hevent) ?_
    intro result message hfinished
    exact mem_append_left _ (ih.finished result message hfinished)
  | finished result message h hstage ih =>
    refine ih.quiet rfl rfl (ih.cancelled_concat fun hevent => by cases hevent) ?_
    intro result' message' hfinished
    obtain ⟨rfl, rfl⟩ := UpdateStage.finished.inj hfinished
    exact mem_append_right _ mem_cons_self
  | popped h hnext ih => exact ih.pop hnext
  | cancelRequested h hstage ih =>
    refine ih.quiet rfl rfl ?_ ?_
    · exact ⟨fun _ => mem_append_right _ mem_cons_self, fun _ => rfl⟩
    · intro result message hfinished
      exact mem_append_left _ (ih.finished result message hfinished)

theorem CourseOf.poppedInOrder (h : CourseOf token trace course) : PoppedInOrder trace course.feed.taken := by
  have hevents := h.popped
  rw [h.written] at hevents
  refine ⟨h.orderly.increasing, hevents, ?_⟩
  intro place last hlast hplace hnew
  have hbefore := h.orderly.before last hlast
  rw [← h.written] at hnew
  exact h.orderly.newest place hnew (by omega)

/-! ### One update job -/

theorem OneUpdate.concat (h : OneUpdate token operation consent trace)
    (hof : event.IsOf token operation consent) (hpopped : ∃ taken, PoppedInOrder (trace ++ [event]) taken)
    (hlatest : ∀ asked latest, event = .reported asked latest → latest = (presentedEvents trace).getLast?)
    (hcancel : ∀ cancel, event = .cancelRead cancel → (cancel = true ↔ .cancelRequested token ∈ trace)) :
    OneUpdate token operation consent (trace ++ [event]) := by
  constructor
  · obtain ⟨rest, rfl, hrest⟩ := h.own
    refine ⟨rest ++ [event], rfl, ?_⟩
    intro other hother
    rcases mem_append.1 hother with hold | hlast
    · exact hrest other hold
    · rw [mem_singleton.1 hlast]
      exact hof
  · intro before hbefore
    rcases prefix_concat_iff.1 hbefore with rfl | hshorter
    · exact hpopped
    · exact h.popped before hshorter
  · intro before asked latest hbefore
    rcases prefix_concat_iff.1 hbefore with hwhole | hshorter
    · obtain ⟨rfl, hevent⟩ := append_inj' hwhole rfl
      exact hlatest asked latest (singleton_inj.1 hevent).symm
    · exact h.latest before asked latest hshorter
  · intro before cancel hbefore
    rcases prefix_concat_iff.1 hbefore with hwhole | hshorter
    · obtain ⟨rfl, hevent⟩ := append_inj' hwhole rfl
      exact hcancel cancel (singleton_inj.1 hevent).symm
    · exact h.cancel before cancel hshorter

theorem UpdateUnderway.oneUpdate (h : UpdateUnderway token operation consent trace course) :
    OneUpdate token operation consent trace := by
  have hpopped : ∀ {trace : List NetworkEvent} {course : UpdateCourse},
      UpdateUnderway token operation consent trace course → ∃ taken, PoppedInOrder trace taken := by
    intro trace course hcourse
    exact ⟨_, hcourse.courseOf.poppedInOrder⟩
  induction h with
  | accepted =>
    constructor
    · exact ⟨[], rfl, fun _ hevent => absurd hevent not_mem_nil⟩
    · intro before hbefore
      rcases prefix_cons_iff.1 hbefore with rfl | ⟨rest, rfl, hrest⟩
      · exact ⟨[], .nil, .nil, fun _ _ hlast => absurd hlast not_mem_nil⟩
      · rw [prefix_nil.1 hrest]
        exact hpopped .accepted
    · intro before asked latest hbefore
      have hmem := hbefore.subset (mem_append_right _ mem_cons_self)
      cases mem_singleton.1 hmem
    · intro before cancel hbefore
      have hmem := hbefore.subset (mem_append_right _ mem_cons_self)
      cases mem_singleton.1 hmem
  | started h hstage ih =>
    exact ih.concat ⟨rfl, rfl⟩ (hpopped (.started h hstage)) (fun _ _ hevent => by cases hevent)
      fun _ hevent => by cases hevent
  | presented event h hstage ih =>
    exact ih.concat trivial (hpopped (.presented event h hstage)) (fun _ _ hevent => by cases hevent)
      fun _ hevent => by cases hevent
  | cancelRead h hstage ih =>
    refine ih.concat trivial (hpopped (.cancelRead h hstage)) (fun _ _ hevent => by cases hevent) ?_
    intro cancel hevent
    rw [← cancelRead.inj hevent]
    exact h.courseOf.cancelled
  | finished result message h hstage ih =>
    exact ih.concat trivial (hpopped (.finished result message h hstage)) (fun _ _ hevent => by cases hevent)
      fun _ hevent => by cases hevent
  | popped h hnext ih =>
    exact ih.concat rfl (hpopped (.popped h hnext)) (fun _ _ hevent => by cases hevent)
      fun _ hevent => by cases hevent
  | reported h hnext hstage ih =>
    refine ih.concat rfl (hpopped (.reported h hnext hstage)) ?_ fun _ hevent => by cases hevent
    intro asked latest hevent
    rw [← (reported.inj hevent).2, h.courseOf.presented]
  | cancelRequested h hstage ih =>
    exact ih.concat rfl (hpopped (.cancelRequested h hstage)) (fun _ _ hevent => by cases hevent)
      fun _ hevent => by cases hevent

end

/-! ### Lives -/

theorem JobLife.completed {life : List NetworkEvent} (h : JobLife life) :
    CompletedUpdate life ∨ CompletedScan life := by
  cases h with
  | @update token operation consent trace course result message hcourse hstage hdrained =>
    left
    have hof := hcourse.courseOf
    refine ⟨token, operation, consent, trace, result, message, ?_, hcourse.oneUpdate, hof.finished _ _ hstage,
      course.feed.taken, hof.poppedInOrder, ?_⟩
    · rw [hof.presented]
    · rw [← hof.written]
      exact hof.orderly.drained hdrained
  | scan token timeoutMs found requiresReboot capacity =>
    exact .inr ⟨token, timeoutMs, found, requiresReboot, capacity, rfl⟩

/-- What has happened of the job that is in the service: it is complete there exactly when it was finished. -/
inductive Unfinished (s : NetworkState) (trace : List NetworkEvent) : Prop
  | free (hnothing : trace = []) (hupdate : s.service.updateState = .empty) (hscan : s.service.scanState = .empty)
  | update {operation : UpdateServiceOperation} {consent : Bool}
      (hjob : OneUpdate s.service.updateToken operation consent trace) (hheld : s.service.updateState ≠ .empty)
      (hfinished : (∃ result message, .updateFinished result message ∈ trace) ↔ s.service.updateState = .complete)
  | scan {timeoutMs : UInt32} {stage : ScanStage} (hjob : trace = scanTrace s.service.scanToken timeoutMs stage)
      (hheld : s.service.scanState ≠ .empty)
      (hfinished : (∃ found requiresReboot, stage = .finished found requiresReboot) ↔
        s.service.scanState = .complete)

variable {s s' : NetworkState} {trace : List NetworkEvent}

/-- Only a finished job has told its result. -/
theorem UpdateUnderway.finished_of_mem {token : UInt32} {operation : UpdateServiceOperation} {consent : Bool}
    {course : UpdateCourse} (h : UpdateUnderway token operation consent trace course) {result : Int} {message : Bytes}
    (hmem : .updateFinished result message ∈ trace) : course.finished = true := by
  induction h with
  | accepted => cases mem_singleton.1 hmem
  | finished result' message' h hstage ih => rfl
  | started h hstage ih | presented event h hstage ih | cancelRead h hstage ih =>
    rcases mem_append.1 hmem with hold | hlast
    · have hfinished := ih hold
      unfold UpdateCourse.finished at hfinished
      rw [hstage] at hfinished
      cases hfinished
    · cases mem_singleton.1 hlast
  | popped h hnext ih | reported h hnext hstage ih | cancelRequested h hstage ih =>
    rcases mem_append.1 hmem with hold | hlast
    · exact ih hold
    · cases mem_singleton.1 hlast

theorem ScanStage.Held.complete_iff {stage : ScanStage} {timeoutMs : UInt32} (h : stage.Held timeoutMs s) :
    (∃ found requiresReboot, stage = .finished found requiresReboot) ↔ s.service.scanState = .complete := by
  constructor
  · rintro ⟨found, requiresReboot, rfl⟩
    exact h.1
  · intro hcomplete
    cases stage with
    | waiting =>
      rcases h with ⟨hposted, -⟩ | ⟨hrunning, -⟩
      · cases hcomplete.symm.trans hposted
      · cases hcomplete.symm.trans hrunning
    | running => cases hcomplete.symm.trans h.1
    | finished found requiresReboot => exact ⟨found, requiresReboot, rfl⟩

theorem UnfinishedJob.unfinished (h : UnfinishedJob s trace) : Unfinished s trace := by
  cases h with
  | free hupdate hscan => exact .free rfl hupdate hscan
  | @update token operation consent trace course hcourse hholds =>
    refine .update (hholds.same ▸ hcourse.oneUpdate) hholds.stage.busy ?_
    rw [hholds.stage.complete_iff]
    constructor
    · rintro ⟨result, message, hmem⟩
      exact hcourse.finished_of_mem hmem
    · intro hfinished
      unfold UpdateCourse.finished at hfinished
      split at hfinished
      · rename_i result message hstage
        exact ⟨result, message, hcourse.courseOf.finished result message hstage⟩
      · cases hfinished
  | @scan token timeoutMs stage hholds =>
    refine .scan (show _ = scanTrace _ timeoutMs _ from ?_) hholds.stage.busy hholds.stage.complete_iff
    rw [hholds.same]

/-! ### Tokens -/

def NetworkEvent.accepted? : NetworkEvent → Option UInt32
  | .updateAccepted token _ _ => some token
  | .scanAccepted token _ => some token
  | _ => none

def acceptedTokens (trace : List NetworkEvent) : List UInt32 := trace.filterMap accepted?

theorem acceptedTokens_step {action : NetworkAction} {new : List NetworkEvent}
    (hstep : s.step action = some (new, s')) :
    (acceptedTokens new = [] ∧ s'.service.nextToken = s.service.nextToken) ∨
      (acceptedTokens new = [followingToken s.service.nextToken] ∧
        s'.service.nextToken = followingToken s.service.nextToken) := by
  cases action with
  | startWorkers =>
    cases hstep
    exact .inl ⟨rfl, rfl⟩
  | submitUpdateJob operation consent =>
    unfold NetworkState.step submitUpdateJob at hstep
    dsimp only at hstep
    split at hstep
    · cases hstep
      exact .inl ⟨rfl, rfl⟩
    split at hstep
    · cases hstep
      exact .inl ⟨rfl, rfl⟩
    · cases hstep
      exact .inr ⟨rfl, rfl⟩
  | pollUpdateJob asked =>
    unfold NetworkState.step pollUpdateJob at hstep
    grind [acceptedTokens, accepted?]
  | cancelUpdateJob asked =>
    unfold NetworkState.step cancelUpdateJob at hstep
    grind [acceptedTokens, accepted?]
  | submitWifiScan timeoutMs =>
    unfold NetworkState.step submitWifiScan at hstep
    dsimp only at hstep
    split at hstep
    · cases hstep
      exact .inl ⟨rfl, rfl⟩
    split at hstep
    · cases hstep
      exact .inl ⟨rfl, rfl⟩
    · cases hstep
      exact .inr ⟨rfl, rfl⟩
  | pollWifiScan asked capacity =>
    unfold NetworkState.step pollWifiScan at hstep
    grind [acceptedTokens, accepted?]
  | work move =>
    change s.work move = some (new, s') at hstep
    unfold NetworkState.work processJobs at hstep
    grind [acceptedTokens, accepted?, present, finishUpdateJob, finishWifiScan]

theorem acceptedTokens_happens {actions : List NetworkAction}
    (number : Nat) (hnext : followingToken s.service.nextToken = tokenOf number)
    (hrun : happens (fun action s => s.step action) actions s = some (trace, s')) :
    ∃ count, acceptedTokens trace = (List.range' number count).map tokenOf := by
  induction actions generalizing s trace number with
  | nil =>
    cases hrun
    exact ⟨0, rfl⟩
  | cons action rest ih =>
    obtain ⟨new, next, later, hfirst, hrest, rfl⟩ := happens_cons hrun
    unfold acceptedTokens
    rw [filterMap_append]
    rcases acceptedTokens_step hfirst with ⟨hnone, hsame⟩ | ⟨hone, hmoved⟩
    · obtain ⟨count, hlater⟩ := ih number (by rw [hsame, hnext]) hrest
      refine ⟨count, ?_⟩
      unfold acceptedTokens at hnone hlater
      rw [hnone, hlater, nil_append]
    · have hmoved' : followingToken next.service.nextToken = tokenOf (number + 1) := by
        rw [hmoved, hnext]
        exact nextToken_tokenOf number
      obtain ⟨count, hlater⟩ := ih (number + 1) hmoved' hrest
      refine ⟨count + 1, ?_⟩
      unfold acceptedTokens at hone hlater
      rw [hone, hlater, hnext, range'_succ, map_cons]
      rfl

/-! ### Delivery -/

/-- The worker is done with an update job, and `count` changes of phase are still to be popped. -/
structure AwaitsPoll (s : NetworkState) (token : UInt32) (count : Nat) : Prop where
  worker : s.worker = .idle
  state : s.service.updateState = .complete
  scan : s.service.scanState = .empty
  same : s.service.updateToken = token
  nonzero : token ≠ 0
  count : s.service.updateProgressMailbox.count = count

def NetworkAction.polls (token : UInt32) : NetworkAction → Bool
  | .pollUpdateJob asked => asked = token
  | _ => false

section

variable {s s' : NetworkState} {token : UInt32} {count : Nat} {action : NetworkAction} {new : List NetworkEvent}

/-- A poll pops one change of phase, or delivers the result when there is none. -/
theorem AwaitsPoll.poll (h : AwaitsPoll s token count) (hpolls : action.polls token = true)
    (hstep : s.step action = some (new, s')) :
    (∃ snapshot, .updateCompleted token snapshot ∈ new) ∨ (0 < count ∧ AwaitsPoll s' token (count - 1)) := by
  unfold NetworkAction.polls at hpolls
  split at hpolls
  · rename_i asked
    obtain rfl : asked = token := of_decide_eq_true hpolls
    have hfound : ¬ (asked = 0 ∨ asked ≠ s.service.updateToken ∨ s.service.updateState = .empty) := by
      rw [h.state]
      rintro (hzero | hother | hempty)
      · exact h.nonzero hzero
      · exact hother h.same.symm
      · cases hempty
    unfold NetworkState.step at hstep
    dsimp only at hstep
    by_cases hcount : count = 0
    · have hpop : s.service.updateProgressMailbox.popTransition.1 = none := by
        unfold UpdateProgressMailbox.popTransition
        rw [if_pos (h.count.trans hcount)]
      rw [pollUpdateJob_drained hfound hpop, if_neg (not_not.2 h.state)] at hstep
      cases hstep
      exact .inl ⟨_, mem_cons_self⟩
    · have hsome : ¬ s.service.updateProgressMailbox.count = 0 := by
        rw [h.count]
        exact hcount
      have hpop : s.service.updateProgressMailbox.popTransition.1 =
          some (s.service.updateProgressMailbox.transitions
            (Fin.ofNat transitionCapacity s.service.updateProgressMailbox.head)) := by
        unfold UpdateProgressMailbox.popTransition
        rw [if_neg hsome]
        rfl
      have hleft : s.service.updateProgressMailbox.popTransition.2.count = count - 1 := by
        unfold UpdateProgressMailbox.popTransition
        rw [if_neg hsome, ← h.count]
      rw [pollUpdateJob_popped hfound hpop] at hstep
      obtain ⟨-, rfl⟩ := Prod.mk.inj (some.inj hstep)
      exact .inr ⟨Nat.pos_of_ne_zero hcount, h.worker, h.state, h.scan, h.same, h.nonzero, hleft⟩
  · cases hpolls

/-- Nothing but a poll under its token touches a job that the worker is done with. -/
theorem AwaitsPoll.other (h : AwaitsPoll s token count) (hpolls : action.polls token = false)
    (hstep : s.step action = some (new, s')) : AwaitsPoll s' token count := by
  have hbusy : s.service.updateState ≠ .empty := by
    rw [h.state]
    intro hempty
    cases hempty
  have hunchanged : s.step action = some ([], s) → AwaitsPoll s' token count := by
    intro hnothing
    obtain ⟨-, rfl⟩ := Prod.mk.inj (some.inj (hnothing.symm.trans hstep))
    exact h
  cases action with
  | startWorkers =>
    obtain ⟨-, rfl⟩ := Prod.mk.inj (some.inj hstep)
    exact ⟨h.worker, h.state, h.scan, h.same, h.nonzero, h.count⟩
  | submitUpdateJob operation consent => exact hunchanged (step_submitUpdateJob_busy (.inl hbusy) _ _)
  | pollUpdateJob asked =>
    have hother : asked ≠ token := of_decide_eq_false hpolls
    apply hunchanged
    apply step_pollUpdateJob_missing
    rw [h.same]
    exact .inr (.inl hother)
  | cancelUpdateJob asked =>
    apply hunchanged
    apply step_cancelUpdateJob_refused
    rw [h.state]
    rintro ⟨-, -, hposted | hrunning⟩
    · cases hposted
    · cases hrunning
  | submitWifiScan timeoutMs => exact hunchanged (step_submitWifiScan_busy (.inl hbusy) _)
  | pollWifiScan asked capacity => exact hunchanged (step_pollWifiScan_missing (.inr (.inr h.scan)) _)
  | work move =>
    have hnone : s.service.processJobs = (.none, s.service) := by
      unfold processJobs
      rw [h.state, h.scan]
      rfl
    change s.work move = some (new, s') at hstep
    unfold NetworkState.work at hstep
    rw [h.worker] at hstep
    cases move with
    | next =>
      dsimp only at hstep
      rw [hnone] at hstep
      split at hstep
      · cases hstep
      obtain ⟨-, rfl⟩ := Prod.mk.inj (some.inj hstep)
      exact h
    | _ => cases hstep

/-- Enough polls under its token complete a job that the worker is done with, whatever else is done. -/
theorem AwaitsPoll.delivered {actions : List NetworkAction} {later : List NetworkEvent} (h : AwaitsPoll s token count)
    (hrun : happens (fun action s => s.step action) actions s = some (later, s'))
    (hpolls : count < actions.countP (NetworkAction.polls token)) :
    ∃ snapshot, .updateCompleted token snapshot ∈ later := by
  induction actions generalizing s count later with
  | nil => exact absurd hpolls (Nat.not_lt_zero count)
  | cons action rest ih =>
    obtain ⟨new, next, after, hfirst, hrest, rfl⟩ := happens_cons hrun
    rw [countP_cons] at hpolls
    by_cases hpoll : action.polls token = true
    · rw [if_pos hpoll] at hpolls
      rcases h.poll hpoll hfirst with ⟨snapshot, hmem⟩ | ⟨hpositive, hnext⟩
      · exact ⟨snapshot, mem_append_left _ hmem⟩
      · obtain ⟨snapshot, hmem⟩ := ih hnext hrest (by omega)
        exact ⟨snapshot, mem_append_right _ hmem⟩
    · rw [if_neg hpoll] at hpolls
      have hnext := h.other (Bool.eq_false_iff.2 hpoll) hfirst
      obtain ⟨snapshot, hmem⟩ := ih hnext hrest hpolls
      exact ⟨snapshot, mem_append_right _ hmem⟩

end

/-! ### Progress -/

/-- The worker's sections, and the polls under a token. -/
def NetworkAction.serves (token : UInt32) : NetworkAction → Bool
  | .work _ => true
  | .pollUpdateJob asked => asked = token
  | .pollWifiScan asked _ => asked = token
  | _ => false

def NetworkEvent.completes (token : UInt32) : NetworkEvent → Bool
  | .updateCompleted other _ => other = token
  | .scanCompleted other result => other = token && result.isSome
  | _ => false

/-- The worker and polls under the token, and nothing else, can still bring the job to its completion. -/
def Completable (s : NetworkState) (token : UInt32) : Prop :=
  ∃ actions later s', (∀ action ∈ actions, action.serves token = true) ∧
    happens (fun action s => s.step action) actions s = some (later, s') ∧ ∃ event ∈ later, event.completes token = true

section

variable {s s' : NetworkState} {token : UInt32} {action : NetworkAction} {new : List NetworkEvent}

theorem Completable.before (h : Completable s' token) (hserves : action.serves token = true)
    (hstep : s.step action = some (new, s')) : Completable s token := by
  obtain ⟨actions, later, last, hall, hrun, event, hmem, hevent⟩ := h
  refine ⟨action :: actions, new ++ later, last, ?_, happens_first hstep hrun, event, ?_, hevent⟩
  · rintro other (_ | ⟨_, hother⟩)
    · exact hserves
    · exact hall other hother
  · exact mem_append_right _ hmem

theorem Completable.last (hserves : action.serves token = true) (hstep : s.step action = some (new, s'))
    {event : NetworkEvent} (hmem : event ∈ new) (hevent : event.completes token = true) : Completable s token := by
  refine ⟨[action], new ++ [], s', ?_, happens_first hstep rfl, event, mem_append_left _ hmem, hevent⟩
  intro other hother
  rw [mem_singleton.1 hother]
  exact hserves

theorem Completable.work (h : Completable s' token) (move : WorkerMove) (hwork : s.work move = some (new, s')) :
    Completable s token :=
  h.before (show (NetworkAction.work move).serves token = true from rfl) hwork

theorem AwaitsPoll.completable {count : Nat} (h : AwaitsPoll s token count) : Completable s token := by
  have hserves : (NetworkAction.pollUpdateJob token).serves token = true := decide_eq_true rfl
  have hpolls : (NetworkAction.pollUpdateJob token).polls token = true := decide_eq_true rfl
  induction count generalizing s with
  | zero =>
    rcases h.poll hpolls rfl with ⟨snapshot, hmem⟩ | ⟨hpositive, -⟩
    · exact .last hserves rfl hmem (decide_eq_true rfl)
    · exact absurd hpositive (Nat.lt_irrefl 0)
  | succ count ih =>
    rcases h.poll hpolls rfl with ⟨snapshot, hmem⟩ | ⟨-, hnext⟩
    · exact .last hserves rfl hmem (decide_eq_true rfl)
    · exact (ih hnext).before hserves rfl

structure HasUpdate (service : NetworkService) (token : UInt32) : Prop where
  scan : service.scanState = .empty
  same : service.updateToken = token
  nonzero : token ≠ 0

section

variable {service : NetworkService} {progress : UpdateForegroundProgress}

theorem HasUpdate.finished (h : HasUpdate service token) (result : Int) (message : Bytes) :
    Completable ⟨service.finishUpdateJob result message, .idle⟩ token :=
  AwaitsPoll.completable ⟨rfl, rfl, h.scan, h.same, h.nonzero, rfl⟩

theorem HasUpdate.operating (h : HasUpdate service token) : Completable ⟨service, .updating progress .operating⟩ token :=
  (h.finished 0 []).work (.operationReturns 0 []) rfl

theorem HasUpdate.after (h : HasUpdate service token) (checkpoint : Checkpoint) (accepted : Bool) :
    Completable ⟨service, .updating progress (checkpoint.after accepted)⟩ token := by
  unfold Checkpoint.after
  split
  · exact h.operating
  · exact (h.finished (-1) progressNotStarted).work .next rfl

theorem HasUpdate.cancelling (h : HasUpdate service token) (checkpoint : Checkpoint) :
    Completable ⟨service, .updating progress (.cancelling checkpoint)⟩ token := by
  have hpresent : HasUpdate (service.present checkpoint.event) token := ⟨h.scan, h.same, h.nonzero⟩
  exact (hpresent.after checkpoint (checkpoint.behavior = .mandatoryCompletion)).work .next rfl

theorem HasUpdate.presented (h : HasUpdate service token) (checkpoint : Checkpoint) :
    Completable ⟨service, .updating progress (.presented checkpoint)⟩ token := by
  refine Completable.work ?_ .next rfl
  dsimp only
  split
  · exact h.cancelling _
  · exact h.after _ true

/-- From any of its points the worker gets to the end of the job, if the operation returns. -/
theorem HasUpdate.updating (h : HasUpdate service token) (point : UpdatePoint) :
    Completable ⟨service, .updating progress point⟩ token := by
  cases point with
  | begun =>
    have hpresent : ∀ event, HasUpdate (service.present event) token := fun _ => ⟨h.scan, h.same, h.nonzero⟩
    exact ((hpresent _).presented _).work .next rfl
  | presented checkpoint => exact h.presented checkpoint
  | cancelling checkpoint => exact h.cancelling checkpoint
  | operating => exact h.operating
  | refused => exact h.after ⟨progress.event .discovery 0 0 .cancelAtCheckpoint, .cancelAtCheckpoint, true⟩ false

theorem HasUpdate.taken (h : HasUpdate service token) : Completable ⟨service, .updateTaken⟩ token :=
  (h.updating .begun).work .next rfl

structure HasScan (service : NetworkService) (token : UInt32) : Prop where
  same : service.scanToken = token
  nonzero : token ≠ 0

theorem step_pollWifiScan_complete {s : NetworkState} (hnonzero : s.service.scanToken ≠ 0)
    (hcomplete : s.service.scanState = .complete) (capacity : Nat) :
    ∃ result s', s.step (.pollWifiScan s.service.scanToken capacity) =
      some ([.scanCompleted s.service.scanToken (some result)], s') := by
  have hfound : ¬ (s.service.scanToken = 0 ∨ s.service.scanToken ≠ s.service.scanToken ∨
      s.service.scanState = .empty) := by
    rw [hcomplete]
    rintro (hzero | hother | hempty)
    · exact hnonzero hzero
    · exact hother rfl
    · cases hempty
  unfold NetworkState.step pollWifiScan
  dsimp only
  rw [if_neg hfound, if_neg (not_not.2 hcomplete)]
  exact ⟨_, _, rfl⟩

theorem HasScan.complete (h : HasScan service token) (hstate : service.scanState = .complete) (worker : WorkerTask) :
    Completable ⟨service, worker⟩ token := by
  obtain ⟨rfl, hnonzero⟩ := h
  obtain ⟨result, s', hstep⟩ := step_pollWifiScan_complete (s := ⟨service, worker⟩) hnonzero hstate 0
  have hserves : (NetworkAction.pollWifiScan service.scanToken 0).serves service.scanToken = true :=
    decide_eq_true rfl
  refine .last hserves hstep mem_cons_self ?_
  change (decide (_ = _) && true) = true
  rw [decide_eq_true rfl]
  rfl

theorem HasScan.scanning (h : HasScan service token) (timeoutMs : UInt32) :
    Completable ⟨service, .scanning timeoutMs⟩ token := by
  have hscan : HasScan (service.finishWifiScan none false) token := ⟨h.same, h.nonzero⟩
  exact (hscan.complete rfl .idle).work (.scanReturns none false) rfl

theorem HasScan.taken (h : HasScan service token) : Completable ⟨service, .scanTaken⟩ token :=
  (h.scanning service.scanTimeoutMs).work .next rfl

end

/-- The worker task runs as soon as a job was accepted. -/
def TaskStarted (s : NetworkState) : Prop :=
  s.service.workerTask = true ∨
    (s.service.updateState = .empty ∧ s.service.scanState = .empty ∧ s.worker = .idle)

theorem TaskStarted.step (h : TaskStarted s) (hstep : s.step action = some (new, s')) : TaskStarted s' := by
  unfold TaskStarted at h ⊢
  cases action with
  | work move =>
    change s.work move = some (new, s') at hstep
    unfold NetworkState.work processJobs at hstep
    grind [present, finishUpdateJob, finishWifiScan]
  | _ =>
    unfold NetworkState.step at hstep
    grind [startWorkers, submitUpdateJob, pollUpdateJob, cancelUpdateJob, submitWifiScan, pollWifiScan]

theorem TaskStarted.happens {actions : List NetworkAction} {later : List NetworkEvent} (h : TaskStarted s)
    (hrun : Interaction.happens (fun action s => s.step action) actions s = some (later, s')) : TaskStarted s' := by
  induction actions generalizing s later with
  | nil =>
    cases hrun
    exact h
  | cons action rest ih =>
    obtain ⟨new, next, after, hfirst, hrest, -⟩ := happens_cons hrun
    exact ih (h.step hfirst) hrest

theorem HoldsUpdate.completable {operation : UpdateServiceOperation} {consent : Bool} {course : UpdateCourse}
    (h : HoldsUpdate s token operation consent course) (hstarted : TaskStarted s) : Completable s token := by
  obtain ⟨service, worker⟩ := s
  have hjob : HasUpdate service token := ⟨h.scan, h.same, h.nonzero⟩
  have hheld := h.stage
  cases hstage : course.stage with
  | waiting =>
    rw [hstage] at hheld
    rcases hheld with ⟨hposted, rfl⟩ | ⟨-, rfl⟩
    · have htask : service.workerTask = true := hstarted.resolve_right fun hfree => h.stage.busy hfree.1
      have htaken : HasUpdate { service with updateState := .running } token := ⟨h.scan, h.same, h.nonzero⟩
      refine htaken.taken.work .next (show _ = some ([], _) from ?_)
      unfold NetworkState.work
      dsimp only
      rw [if_neg (ne_false_of_eq_true htask), processJobs_update hposted]
    · exact hjob.taken
  | running =>
    rw [hstage] at hheld
    obtain ⟨-, progress, point, rfl⟩ := hheld
    exact hjob.updating point
  | finished result message =>
    rw [hstage] at hheld
    exact AwaitsPoll.completable ⟨hheld.2.1, hheld.1, h.scan, h.same, h.nonzero, rfl⟩

theorem HoldsScan.completable {timeoutMs : UInt32} {stage : ScanStage} (h : HoldsScan s token timeoutMs stage)
    (hstarted : TaskStarted s) : Completable s token := by
  obtain ⟨service, worker⟩ := s
  have hjob : HasScan service token := ⟨h.same, h.nonzero⟩
  have hheld := h.stage
  cases stage with
  | waiting =>
    rcases hheld with ⟨hposted, rfl⟩ | ⟨-, rfl⟩
    · have htask : service.workerTask = true := hstarted.resolve_right fun hfree => h.stage.busy hfree.2.1
      have htaken : HasScan { service with scanState := .running } token := ⟨h.same, h.nonzero⟩
      have hupdate : service.updateState ≠ .posted := by
        intro hposted
        cases hposted.symm.trans h.update
      have hprocess : service.processJobs = (.scan, { service with scanState := .running }) :=
        (if_neg hupdate).trans (if_pos hposted)
      refine htaken.taken.work .next (show _ = some ([], _) from ?_)
      unfold NetworkState.work
      dsimp only
      rw [if_neg (ne_false_of_eq_true htask), hprocess]
    · exact hjob.taken
  | running =>
    obtain ⟨-, rfl⟩ := hheld
    exact hjob.scanning timeoutMs
  | finished found requiresReboot => exact hjob.complete hheld.1 worker

/-- The token of the job that is in the service. -/
def IsHeld (s : NetworkState) (token : UInt32) : Prop :=
  (s.service.updateState ≠ .empty ∧ token = s.service.updateToken) ∨
    (s.service.scanState ≠ .empty ∧ token = s.service.scanToken)

theorem UnfinishedJob.completable {trace : List NetworkEvent} (h : UnfinishedJob s trace) (hstarted : TaskStarted s)
    (hheld : IsHeld s token) : Completable s token := by
  rcases hheld with ⟨hbusy, rfl⟩ | ⟨hbusy, rfl⟩
  · cases h with
    | free hupdate => exact absurd hupdate hbusy
    | update hcourse hholds => exact hholds.same ▸ hholds.completable hstarted
    | scan hholds => exact absurd hholds.update hbusy
  · cases h with
    | free _ hscan => exact absurd hscan hbusy
    | update hcourse hholds => exact absurd hholds.scan hbusy
    | scan hholds => exact hholds.same ▸ hholds.completable hstarted

/-- The worker has not finished the update job, and its token is asked to be cancelled. -/
theorem UnfinishedJob.cancels {trace : List NetworkEvent} (h : UnfinishedJob s trace)
    (hbusy : s.service.updateState = .posted ∨ s.service.updateState = .running) :
    s.step (.cancelUpdateJob s.service.updateToken) = some ([.cancelRequested s.service.updateToken],
      { s with service.updateCancelRequested := true }) := by
  have hheld : s.service.updateState ≠ .empty := by
    intro hempty
    rw [hempty] at hbusy
    rcases hbusy with hposted | hrunning
    · cases hposted
    · cases hrunning
  have hnonzero : s.service.updateToken ≠ 0 := by
    cases h with
    | free hupdate => exact absurd hupdate hheld
    | update hcourse hholds => exact hholds.same ▸ hholds.nonzero
    | scan hholds => exact absurd hholds.update hheld
  unfold NetworkState.step cancelUpdateJob
  dsimp only
  rw [if_pos ⟨hnonzero, rfl, hbusy⟩, if_pos ⟨hnonzero, rfl, hbusy⟩]

end

/-! ### Every run -/

/-- What holds after a run of the service, and of what happened in it. -/
structure JobsInOrder (s : NetworkState) (trace : List NetworkEvent) : Prop where
  /-- One job lives after the other, and all but the last were completed once. -/
  lives : ∃ (lives : List (List NetworkEvent)) (unfinished : List NetworkEvent),
    (∀ life ∈ lives, CompletedUpdate life ∨ CompletedScan life) ∧ trace = lives.flatten ++ unfinished ∧
      Unfinished s unfinished
  exclusive : s.service.updateState = .empty ∨ s.service.scanState = .empty
  /-- The job in the service can be brought to its completion by the worker and by polls under its token. -/
  served : ∀ token, IsHeld s token → Completable s token
  /-- A cancellation under the token of a job that is not finished is told and kept. -/
  cancels : s.service.updateState = .posted ∨ s.service.updateState = .running →
    s.step (.cancelUpdateJob s.service.updateToken) = some ([.cancelRequested s.service.updateToken],
      { s with service.updateCancelRequested := true })
  /-- A call under any other token does nothing. -/
  others : ∀ asked, asked ≠ s.service.updateToken →
    s.step (.cancelUpdateJob asked) = some ([], s) ∧ s.step (.pollUpdateJob asked) = some ([], s)
  /-- The job that the worker is done with is completed when it was polled often enough. -/
  delivered : s.service.updateState = .complete → ∀ actions later s',
    happens (fun action s => s.step action) actions s = some (later, s') →
      s.service.updateProgressMailbox.count < actions.countP (NetworkAction.polls s.service.updateToken) →
        ∃ snapshot, .updateCompleted s.service.updateToken snapshot ∈ later
  /-- So is a scan that the worker is done with. -/
  scanned : s.service.scanState = .complete → ∀ capacity,
    ∃ result s', s.step (.pollWifiScan s.service.scanToken capacity) =
      some ([.scanCompleted s.service.scanToken (some result)], s')
  tokens : ∀ i j token, i < j → j < i + (2 ^ 32 - 1) → (acceptedTokens trace)[i]? = some token →
    (acceptedTokens trace)[j]? ≠ some token

theorem UnfinishedJob.exclusive (h : UnfinishedJob s trace) :
    s.service.updateState = .empty ∨ s.service.scanState = .empty := by
  cases h with
  | free hupdate => exact .inl hupdate
  | update hcourse hholds => exact .inr hholds.scan
  | scan hholds => exact .inl hholds.update

theorem UnfinishedJob.awaitsPoll (h : UnfinishedJob s trace) (hcomplete : s.service.updateState = .complete) :
    AwaitsPoll s s.service.updateToken s.service.updateProgressMailbox.count := by
  cases h with
  | free hupdate => cases hcomplete.symm.trans hupdate
  | @update token operation consent trace course hcourse hholds =>
    have hheld := hholds.stage
    have hnonzero : s.service.updateToken ≠ 0 := by
      rw [hholds.same]
      exact hholds.nonzero
    cases hstage : course.stage with
    | waiting =>
      rw [hstage] at hheld
      rcases hheld with ⟨hposted, -⟩ | ⟨hrunning, -⟩
      · cases hcomplete.symm.trans hposted
      · cases hcomplete.symm.trans hrunning
    | running =>
      rw [hstage] at hheld
      cases hcomplete.symm.trans hheld.1
    | finished result message =>
      rw [hstage] at hheld
      exact ⟨hheld.2.1, hcomplete, hholds.scan, rfl, hnonzero, rfl⟩
  | scan hholds => cases hcomplete.symm.trans hholds.update

theorem UnfinishedJob.scanned (h : UnfinishedJob s trace)
    (hcomplete : s.service.scanState = .complete) (capacity : Nat) :
    ∃ result s', s.step (.pollWifiScan s.service.scanToken capacity) =
      some ([.scanCompleted s.service.scanToken (some result)], s') := by
  have hnonzero : s.service.scanToken ≠ 0 := by
    cases h with
    | free _ hscan => cases hcomplete.symm.trans hscan
    | update hcourse hholds => cases hcomplete.symm.trans hholds.scan
    | scan hholds =>
      rw [hholds.same]
      exact hholds.nonzero
  exact step_pollWifiScan_complete hnonzero hcomplete capacity

/-- In every interleaving of calls and of the worker's sections, jobs complete once and in order. -/
theorem jobs_in_order {actions : List NetworkAction} {trace : List NetworkEvent} {s : NetworkState}
    (hrun : happens (fun action s => s.step action) actions ({} : NetworkState) = some (trace, s)) :
    JobsInOrder s trace := by
  obtain ⟨lives, unfinished, hlives, htrace, hunfinished⟩ := lived_run hrun
  have hfirst : followingToken ({} : NetworkState).service.nextToken = tokenOf 1 := rfl
  obtain ⟨count, htokens⟩ := acceptedTokens_happens 1 hfirst hrun
  have hstarted : TaskStarted s := TaskStarted.happens (.inr ⟨rfl, rfl, rfl⟩) hrun
  constructor
  · exact ⟨lives, unfinished, fun life hlife => (hlives life hlife).completed, htrace, hunfinished.unfinished⟩
  · exact hunfinished.exclusive
  · intro token hheld
    exact hunfinished.completable hstarted hheld
  · exact hunfinished.cancels
  · intro asked hother
    refine ⟨step_cancelUpdateJob_refused ?_, step_pollUpdateJob_missing (.inr (.inl hother))⟩
    rintro ⟨-, hsame, -⟩
    exact hother hsame
  · intro hcomplete actions later s' hlater hpolls
    exact (hunfinished.awaitsPoll hcomplete).delivered hlater hpolls
  · intro hcomplete capacity
    exact hunfinished.scanned hcomplete capacity
  · intro i j token hij hnear hi hj
    rw [htokens, getElem?_map, map_eq_some_iff] at hi hj
    obtain ⟨first, hfirst, hi⟩ := hi
    obtain ⟨second, hsecond, hj⟩ := hj
    rw [List.getElem?_eq_some_iff] at hfirst hsecond
    obtain ⟨hfirst, rfl⟩ := hfirst
    obtain ⟨hsecond, rfl⟩ := hsecond
    rw [getElem_range', Nat.one_mul] at hi hj
    exact tokenOf_ne (by omega) (by omega) (hi.trans hj.symm)

/-- A check for updates, with two phases. -/
def checkingRun : List NetworkAction :=
  [.startWorkers, .submitUpdateJob .check false, .work .next, .work .next, .work .next, .work .next,
    .work (.checkpoint .manifest 1 2 .cancelAtCheckpoint), .pollUpdateJob 2, .submitWifiScan 0, .work .next,
    .work (.operationReturns 0 []), .cancelUpdateJob 2, .pollUpdateJob 2, .pollUpdateJob 2]

def checkingTrace : List NetworkEvent :=
  let discovery : UpdateForegroundUiEvent := ⟨.discovery, 0, false, true, false⟩
  let manifest : UpdateForegroundUiEvent := ⟨.manifest, 500, true, true, false⟩
  [.updateAccepted 2 .check false, .updateStarted .check false, .presented discovery, .cancelRead false,
    .presented manifest, .popped 2 discovery, .cancelRead false, .updateFinished 0 [], .popped 2 manifest,
    .updateCompleted 2 ⟨some manifest, 0, []⟩]

theorem checkingRun_in_order : ∃ s, JobsInOrder s checkingTrace := by
  have hrun : (happens (fun action s => s.step action) checkingRun ({} : NetworkState)).map Prod.fst =
      some checkingTrace := by decide
  obtain ⟨⟨trace, s⟩, hrun, rfl⟩ := map_eq_some_iff.1 hrun
  exact ⟨s, jobs_in_order hrun⟩

end Bmx.Network
