import Bmx.Remote.EventStreamSpec

/-!
# What reaches the clients of the event streams

An invalidation that is made while a stream is open is in an event that was read from it, or waits for
the next read, which never fails. A client that is told of nothing when it comes back has missed
nothing, unless the number it names is one of an earlier start of the device.
-/

namespace Bmx.Remote

namespace EventDevice

def HasConnection (d : EventDevice) (c : EventConnection) : Prop :=
  c ∈ d.closed ∨ ∃ slot, d.opened slot = some c

/-- No invalidation is lost. -/
structure Lossless (d : EventDevice) : Prop where
  /-- What was made before a stream was last read is in its events. -/
  emitted : ∀ c, d.HasConnection c → ∀ (k : Nat) (invalidation : Invalidation),
    d.made[k]? = some invalidation → c.since ≤ k → k < c.readAt →
      ∃ emission ∈ c.emitted, k < emission.made ∧ Covers emission.event invalidation
  /-- What was made since then waits. -/
  waiting : ∀ slot c, d.opened slot = some c → ∃ stream, d.router.activeEventStreams slot = some stream ∧
    ∀ (k : Nat) (invalidation : Invalidation), d.made[k]? = some invalidation → c.readAt ≤ k →
      stream.queuedResources ≠ 0 ∧ Covers stream.event invalidation
  /-- A stream whose events were all sent is read, up to the last invalidation. -/
  readable : ∀ slot c, d.opened slot = some c → c.sent = emissionBytes c.emitted →
    ∃ d' c', d.step (.read slot) = some d' ∧ d'.opened slot = some c' ∧ c'.since = c.since ∧
      d.made.length ≤ c'.readAt ∧ c'.readAt = d'.made.length
  /-- A client that is not resynchronized was told of everything. -/
  resumed : ∀ c, d.HasConnection c → ∀ client, c.client = some client → c.resynchronized = false →
    Told d.made c.known c.since

def SteadyRun (d : EventDevice) : List EventAction → Prop
  | [] => True
  | action :: rest => Steady action d ∧ ∀ next, d.step action = some next → next.SteadyRun rest

theorem length_made_pollMenu (d : EventDevice) : d.made.length ≤ d.pollMenu.made.length := by
  by_cases hsame : d.menuChanges = d.router.menuRevision
  · have hmade : d.pollMenu.made = d.made := if_pos hsame
    exact Nat.le_of_eq (congrArg List.length hmade.symm)
  · exact Nat.le_of_lt (pollMenu_made hsame)

theorem opened_setOpened (d : EventDevice) (slot : Fin maximumEventStreams) (c : Option EventConnection) :
    (d.setOpened slot c).opened slot = c := if_pos rfl

end EventDevice

namespace EventInvariant

variable {d d' : EventDevice}

theorem faithful (h : EventInvariant d) {c : EventConnection} (hc : d.HasConnection c) :
    Faithful d.made d.receipts c := by
  rcases hc with hclosed | ⟨slot, hopened⟩
  · exact h.closed c hclosed
  · exact (h.opened slot c hopened).2.1

/-- A stream has a place in the router while its connection is open, also after the menu was polled. -/
theorem activeEventStreams_pollMenu (h : EventInvariant d) {slot : Fin maximumEventStreams}
    {c : EventConnection} (hc : d.opened slot = some c) :
    ∃ stream, d.pollMenu.router.activeEventStreams slot = some stream := by
  obtain ⟨-, -, stream, hstream, -⟩ := h.opened slot c hc
  unfold EventDevice.pollMenu EventRouter.pollMenuInvalidation
  split
  · exact ⟨stream, hstream⟩
  · exact ⟨_, congrArg (Option.map _) hstream⟩

theorem readable (h : EventInvariant d) {slot : Fin maximumEventStreams} {c : EventConnection}
    (hc : d.opened slot = some c) (hsent : c.sent = emissionBytes c.emitted) :
    ∃ d' c', d.step (.read slot) = some d' ∧ d'.opened slot = some c' ∧ c'.since = c.since ∧
      d.made.length ≤ c'.readAt ∧ c'.readAt = d'.made.length := by
  obtain ⟨stream, hstream⟩ := h.activeEventStreams_pollMenu hc
  have hresult : d.router.readStream d.menuChanges httpResponseStreamBufferBytes slot =
      ((stream.read httpResponseStreamBufferBytes).1, d.pollMenu.router.setStream slot
        (some (stream.read httpResponseStreamBufferBytes).2)) := readStream_eq hstream
  have hgrows := d.length_made_pollMenu
  change ∃ d' c', d.read slot = some d' ∧ _
  unfold EventDevice.read
  rw [hc]
  dsimp only
  rw [if_neg (not_not.2 hsent), hresult]
  by_cases hempty : stream.queuedResources = 0
  · rw [EventStream.read_empty hempty]
    exact ⟨_, _, rfl, EventDevice.opened_setOpened _ _ _, rfl, hgrows, rfl⟩
  · rw [stream.read_queued hempty]
    exact ⟨_, _, rfl, EventDevice.opened_setOpened _ _ _, rfl, hgrows, rfl⟩

theorem lossless (h : EventInvariant d) : d.Lossless := by
  constructor
  · intro c hc k invalidation hget hsince hread
    exact (h.faithful hc).covers k invalidation hget hsince hread
  · intro slot c hc
    obtain ⟨hboot, hfaithful, stream, hstream, hqueued⟩ := h.opened slot c hc
    refine ⟨stream, hstream, ?_⟩
    intro k invalidation hget hread
    have hbegan := hfaithful.began
    have hsince := hfaithful.since
    rw [hboot] at hbegan
    have hnonzero := h.resources invalidation (List.mem_of_getElem? hget)
    exact ⟨ne_zero_of_or hnonzero (hqueued.waiting k invalidation hget hread),
      h.covers_event hstream hqueued hget hread (by omega)⟩
  · intro slot c hc hsent
    exact h.readable hc hsent
  · intro c hc client hclient hresumed
    exact (h.faithful hc).resumed client hclient hresumed

theorem run (h : EventInvariant d) {actions : List EventAction} (hsteady : d.SteadyRun actions)
    (hrun : d.run actions = some d') : EventInvariant d' := by
  induction actions generalizing d with
  | nil =>
    cases hrun
    exact h
  | cons action rest ih =>
    obtain ⟨next, hnext, hrest⟩ := Option.bind_eq_some_iff.1 hrun
    obtain ⟨hfirst, hlater⟩ := hsteady
    exact ih (h.step hfirst hnext) (hlater next hnext) hrest

end EventInvariant

namespace EventDevice

/-- Where the numbers of the invalidations do not come round, and clients resume only under numbers of
the current start, no run loses an invalidation. -/
theorem run_lossless (menuChanges : UInt32) (actions : List EventAction) (d : EventDevice)
    (hsteady : (start menuChanges).SteadyRun actions) (hrun : (start menuChanges).run actions = some d) :
    d.Lossless := ((EventInvariant.start menuChanges).run hsteady hrun).lossless

/-- A request for events, of a client that may name the last event it got. -/
def eventRequest (lastEventId : Option Bytes) : HttpRequestHead :=
  { headers := (lastEventId.map fun value => ⟨ascii "Last-Event-ID", value⟩).toList }

def firstSlot : Fin maximumEventStreams := ⟨0, Nat.two_pos⟩

/-- A client gets the event of an invalidation, and resumes under it. -/
def resumingRun : List EventAction :=
  [.request (some 0) (eventRequest none) true, .invalidate invalidateMediaFiles, .read firstSlot,
    .write firstSlot 102, .receive firstSlot, .release firstSlot,
    .request (some 0) (eventRequest (some (ascii "2"))) true]

/-- A check that a client resumes only under a number of the current start. -/
def resumesCheck (action : EventAction) (d : EventDevice) : Bool :=
  match action with
  | .request (some client) head _ =>
    lastEventId head ≠ some (some d.pollMenu.router.eventRevision) ∨
      (d.receipts client).any fun receipt =>
        receipt.emission.event.id = d.pollMenu.router.eventRevision ∧ receipt.boot = d.boot
  | _ => true

/-- A check that a step is steady, while there are numbers left. -/
def steadyCheck (action : EventAction) (d : EventDevice) : Bool :=
  d.router.eventRevision.toNat ≠ 2 ^ 32 - 1 ∧ resumesCheck action d

theorem steady_of_check {action : EventAction} {d : EventDevice} (h : steadyCheck action d = true) :
    Steady action d := by
  obtain ⟨hnumbers, hresumes⟩ := of_decide_eq_true h
  constructor
  · intro d' _ _
    exact hnumbers
  · rintro client head allocated rfl hlast
    rcases of_decide_eq_true hresumes with hdiffers | hany
    · exact absurd hlast hdiffers
    · obtain ⟨receipt, hreceipt, hsame⟩ := List.any_eq_true.1 hany
      exact ⟨receipt, hreceipt, of_decide_eq_true hsame⟩

def steadyRunCheck (d : EventDevice) : List EventAction → Bool
  | [] => true
  | action :: rest => steadyCheck action d && (d.step action).all fun next => next.steadyRunCheck rest

theorem steadyRun_of_check {actions : List EventAction} {d : EventDevice}
    (h : d.steadyRunCheck actions = true) : d.SteadyRun actions := by
  induction actions generalizing d with
  | nil => trivial
  | cons action rest ih =>
    obtain ⟨hfirst, hrest⟩ := Bool.and_eq_true_iff.1 h
    refine ⟨steady_of_check hfirst, ?_⟩
    intro next hnext
    rw [hnext] at hrest
    exact ih hrest

/-- The client that resumes is told of nothing, and has been told of everything. -/
theorem resumingRun_lossless : ∃ d, (start 0).run resumingRun = some d ∧ d.Lossless := by
  have hsome : ((start 0).run resumingRun).isSome := by decide +kernel
  obtain ⟨d, hrun⟩ := Option.isSome_iff_exists.1 hsome
  exact ⟨d, hrun, run_lossless 0 resumingRun d (steadyRun_of_check (by decide +kernel)) hrun⟩

/-- A client gets the first event of a start. Then an invalidation is made, the device starts anew, and
the client resumes under the number that the router starts with. -/
def missingRun : List EventAction :=
  [.request (some 0) (eventRequest none) true, .read firstSlot, .write firstSlot 102, .receive firstSlot,
    .invalidate invalidateMenu, .restart 0, .request (some 0) (eventRequest (some (ascii "1"))) true]

theorem missingRun_opened : ((start 0).run missingRun).map (fun d => d.opened 0) =
    some (some {
      client := some 0
      boot := ⟨1, 1⟩
      since := 1
      resynchronized := false
      known := [⟨⟨0, 0⟩, ⟨⟨1, allResources⟩, 0⟩⟩]
      emitted := []
      readAt := 1
      sent := 0
      received := 0 }) := by decide +kernel

theorem missingRun_made : ((start 0).run missingRun).map (fun d => d.made) = some [⟨2, invalidateMenu⟩] := by
  decide +kernel

/-- The client is told of nothing, and was never told of the invalidation. -/
theorem missingRun_loses : ¬ ∀ (menuChanges : UInt32) (actions : List EventAction) (d : EventDevice),
    (start menuChanges).run actions = some d → d.Lossless := by
  intro hall
  obtain ⟨d, hrun, hopened⟩ := Option.map_eq_some_iff.1 missingRun_opened
  have hmade := missingRun_made
  rw [hrun] at hmade
  have hone : d.made = [⟨2, invalidateMenu⟩] := Option.some.inj hmade
  have htold := (hall 0 missingRun d hrun).resumed _ (.inr ⟨0, hopened⟩) 0 rfl rfl
  rw [hone] at htold
  obtain ⟨receipt, hreceipt, hlater, -⟩ := htold 0 _ rfl Nat.one_pos
  rw [List.mem_singleton.1 hreceipt] at hlater
  exact Nat.lt_irrefl 0 hlater

end EventDevice

end Bmx.Remote
