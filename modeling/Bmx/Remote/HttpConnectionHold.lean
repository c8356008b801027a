import Bmx.Remote.HttpConnectionSpec

/-!
# The hold of a connection on its transport

A connection in a slot may be changed by whatever it calls. As long as its surroundings only ever
leave it as it is or take it down, it closes the transport it holds once, and calls nothing after
that.
-/

namespace Bmx.Remote

open Interaction Method HttpResponseWriter

def HttpOp.closes : HttpOp → Bool
  | .transportClose _ => true
  | _ => false

namespace HttpConnection

/-- What is known of a connection from outside: the transport it holds, whether it is active, and
whether it has just closed its transport. -/
structure Hold where
  transport : Option TransportId
  active : Bool
  closing : Bool := false

/-- The rules of a slot. Before it answers, what was called may have taken the connection down. -/
def slotContract : Contract (httpSignature.shared HttpConnection) Hold where
  pre op h := h.closing = false ∧ op.2.transport = h.transport ∧ op.2.active = h.active ∧
    (h.active = true ↔ h.transport ≠ none) ∧
    ∀ transport, op.1 = .transportClose transport → h.transport = some transport
  post op h reply h' :=
    match op.1 with
    | .transportClose _ => reply.2 = op.2 ∧ h' = { h with closing := true }
    | _ => h' = ⟨reply.2.transport, reply.2.active, false⟩ ∧
        (h' = ⟨h.transport, h.active, false⟩ ∨ h' = ⟨none, false, false⟩)

/-- The connection is as it is known, and holds a transport as long as it is active. -/
structure Live (c : HttpConnection) (h : Hold) : Prop where
  closing : h.closing = false
  transport : c.transport = h.transport
  active : c.active = h.active
  holds : h.active = true ↔ h.transport ≠ none

/-- The connection has closed its transport and is not active any more. -/
structure Gone (c : HttpConnection) (h : Hold) : Prop where
  closing : h.closing = true
  held : h.active = true ∧ h.transport ≠ none
  transport : c.transport = h.transport
  active : c.active = false

def LiveOrGone (c : HttpConnection) (h : Hold) : Prop := Live c h ∨ Gone c h

/-- A method that leaves the hold as it is. -/
def Steady {α : Type} (m : ConnectionMethod α) : Prop :=
  ∀ c h, Live c h → m.Holds slotContract (fun _ c' h' => Live c' h') c h

def Ending {α : Type} (m : ConnectionMethod α) : Prop :=
  ∀ c h, Live c h → m.Holds slotContract (fun _ c' h' => LiveOrGone c' h') c h

section Combinators

variable {α β : Type} {m : ConnectionMethod α} {f : α → ConnectionMethod β}

theorem Steady.ending (hm : Steady m) : Ending m := fun c h hlive => (hm c h hlive).mono fun _ _ _ => .inl

theorem Steady.bind (hm : Steady m) (hf : ∀ a, Steady (f a)) : Steady (m >>= f) :=
  fun c h hlive => (hm c h hlive).bind fun a c' h' hlive' => hf a c' h' hlive'

theorem Steady.bind_ending (hm : Steady m) (hf : ∀ a, Ending (f a)) : Ending (m >>= f) :=
  fun c h hlive => (hm c h hlive).bind fun a c' h' hlive' => hf a c' h' hlive'

theorem Ending.bind_pure (hm : Ending m) (g : α → β) : Ending (m >>= fun a => pure (g a)) :=
  fun c h hlive => (hm c h hlive).bind fun _ _ _ hdone => hdone

theorem steady_pure (value : α) : Steady (pure value) := fun _ _ hlive => hlive

theorem steady_get : Steady get := fun _ _ hlive => hlive

theorem steady_modify {g : HttpConnection → HttpConnection}
    (hg : ∀ c, (g c).transport = c.transport ∧ (g c).active = c.active) : Steady (modify g) := by
  intro c h hlive
  exact ⟨hlive.closing, (hg c).1.trans hlive.transport, (hg c).2.trans hlive.active, hlive.holds⟩

theorem steady_ask {op : HttpOp} (hop : op.closes = false) : Steady (ask op) := by
  intro c h hlive
  have hother : ∀ transport, op ≠ .transportClose transport := by
    rintro transport rfl
    cases hop
  refine ⟨⟨hlive.closing, hlive.transport, hlive.active, hlive.holds, fun t ht => absurd ht (hother t)⟩, ?_⟩
  rintro ⟨answer, c'⟩ h' hpost
  have hrule : h' = ⟨c'.transport, c'.active, false⟩ ∧
      (h' = ⟨h.transport, h.active, false⟩ ∨ h' = ⟨none, false, false⟩) := by
    cases op with
    | transportClose transport => cases hop
    | _ => exact hpost
  obtain ⟨rfl, hsame | hdown⟩ := hrule
  · refine ⟨rfl, rfl, rfl, ?_⟩
    rw [hsame]
    exact hlive.holds
  · refine ⟨rfl, rfl, rfl, ?_⟩
    rw [hdown]
    simp

theorem steady_onWriter {m : HttpResponseWriter.WriterMethod α} (hm : m.Asks WriterAsks) : Steady (onWriter m) := by
  intro c h hlive
  have hasks := hm c.writer
  show (zoomFrom HttpConnection.writer (fun writer c => { c with writer := writer })
    (m c.writer) c).Holds slotContract _ h
  generalize m c.writer = p at hasks
  induction p generalizing c h with
  | done reply => exact ⟨hlive.closing, hlive.transport, hlive.active, hlive.holds⟩
  | call op next ih =>
    obtain ⟨op, w⟩ := op
    have hop : op.closes = false := by
      cases op with
      | transportClose transport => exact hasks.1.elim
      | _ => rfl
    have hlive' : Live { c with writer := w } h :=
      ⟨hlive.closing, hlive.transport, hlive.active, hlive.holds⟩
    have hasked := steady_ask hop _ h hlive'
    refine ⟨hasked.1, fun reply h' hpost => ?_⟩
    exact ih (reply.1, reply.2.writer) reply.2 h' (hasked.2 reply h' hpost) (hasks.2 _)

end Combinators

/-! ### The methods -/

theorem abortBody_steady (reason : HttpBodyAbortReason) : Steady (abortBody reason) := by
  unfold abortBody
  refine steady_get.bind fun c => ?_
  split
  · split
    · exact steady_modify fun _ => ⟨rfl, rfl⟩
    · exact (steady_ask rfl).bind fun _ => steady_modify fun _ => ⟨rfl, rfl⟩
  · exact steady_pure _

theorem abortWriter_steady : Steady abortWriter := by
  unfold abortWriter
  refine steady_get.bind fun c => ?_
  split
  · exact steady_onWriter abort_asks
  · exact steady_pure _

theorem notifyCompletion_steady (reason : HttpCompletionReason) : Steady (notifyCompletion reason) := by
  intro c h hlive
  unfold notifyCompletion
  rw [holds_bind, holds_get]
  split
  · exact hlive
  · rw [holds_bind, holds_set]
    have hlive' : Live { c with completionNotified := true, responseCompletion := none } h :=
      ⟨hlive.closing, hlive.transport, hlive.active, hlive.holds⟩
    split
    · exact steady_ask rfl _ h hlive'
    · exact hlive'

/-- What is left to do of an end: the transport is closed and let go. -/
theorem close_holds {c : HttpConnection} {h : Hold} (hlive : Live c h) :
    (do closeTransport; modify fun c => { c with active := false, state := .idle } :
      ConnectionMethod Unit).Holds slotContract
      (fun _ c' h' => LiveOrGone c' h' ∧ c'.active = false) c h := by
  unfold closeTransport
  rw [holds_bind, holds_bind, holds_get]
  cases htransport : c.transport with
  | none =>
    have hinactive : h.active = false := by
      rw [hlive.transport] at htransport
      exact Bool.eq_false_iff.2 fun hactive => hlive.holds.1 hactive htransport
    exact ⟨.inl ⟨hlive.closing, hlive.transport, hinactive.symm, hlive.holds⟩, rfl⟩
  | some transport =>
    have hheld : h.transport = some transport := hlive.transport.symm.trans htransport
    refine ⟨⟨hlive.closing, hlive.transport, hlive.active, hlive.holds, ?_⟩, ?_⟩
    · intro other hother
      rw [hheld, HttpOp.transportClose.inj hother]
    · rintro ⟨answer, c'⟩ h' ⟨hsame, rfl⟩
      obtain rfl : c' = c := hsame
      have hsome : h.transport ≠ none := by
        rw [hheld]
        exact nofun
      exact ⟨.inr ⟨rfl, ⟨hlive.holds.2 hsome, hsome⟩, hlive.transport, rfl⟩, rfl⟩

theorem terminate_holds' {c : HttpConnection} {h : Hold} (reason : HttpCompletionReason)
    (bodyReason : HttpBodyAbortReason) (hlive : Live c h) :
    (terminate reason bodyReason).Holds slotContract
      (fun _ c' h' => LiveOrGone c' h' ∧ c'.active = false) c h := by
  unfold terminate
  rw [holds_bind, holds_get]
  cases hactive : c.active with
  | false =>
    exact ⟨.inl hlive, hactive⟩
  | true =>
    refine (abortBody_steady bodyReason c h hlive).bind fun _ c₁ h₁ hlive₁ => ?_
    refine (abortWriter_steady c₁ h₁ hlive₁).bind fun _ c₂ h₂ hlive₂ => ?_
    exact (notifyCompletion_steady reason c₂ h₂ hlive₂).bind fun _ c₃ h₃ hlive₃ => close_holds hlive₃

theorem terminate_ending (reason : HttpCompletionReason) (bodyReason : HttpBodyAbortReason) :
    Ending (terminate reason bodyReason) :=
  fun _ _ hlive => (terminate_holds' reason bodyReason hlive).mono fun _ _ _ hdone => hdone.1

theorem enterWriting_steady : Steady enterWriting := steady_modify fun _ => ⟨rfl, rfl⟩

theorem beginFallback_ending (suppressBody : Bool) : Ending (beginFallback suppressBody) := by
  unfold beginFallback
  refine steady_get.bind_ending fun c => (steady_ask rfl).bind_ending fun fallback => ?_
  refine (steady_onWriter (start_asks _ _)).bind_ending fun started => ?_
  split
  · exact enterWriting_steady.ending
  · exact terminate_ending _ _

theorem rejectResponse_steady (response : HttpResponse) : Steady (rejectResponse response) := by
  unfold rejectResponse
  split
  · exact steady_ask rfl
  · exact steady_pure _

theorem beginResponse_ending (response : HttpResponse) : Ending (beginResponse response) := by
  unfold beginResponse
  refine steady_get.bind_ending fun c => ?_
  refine (steady_onWriter (start_asks _ _)).bind_ending fun started => ?_
  split
  · exact enterWriting_steady.ending
  · exact (rejectResponse_steady _).bind_ending fun _ => beginFallback_ending _

theorem beginError_ending (error : HttpServerError) : Ending (beginError error) := by
  unfold beginError
  exact steady_get.bind_ending fun c => (steady_ask rfl).bind_ending fun _ => beginResponse_ending _

theorem endBody_ending : Ending finishBody ∧ Ending rejectBody := by
  constructor
  all_goals
    intro c h hlive
    first | unfold finishBody | unfold rejectBody
    rw [holds_bind, holds_get]
    split
    · exact beginError_ending _ c h hlive
    · split
      · exact beginError_ending _ c h hlive
      · rw [holds_bind, holds_set]
        refine (steady_ask rfl).bind_ending (fun answer => ?_) _ h
          ⟨hlive.closing, hlive.transport, hlive.active, hlive.holds⟩
        cases answer with
        | none => exact (steady_ask rfl).bind_ending fun _ => beginError_ending _
        | some response => exact beginResponse_ending _

theorem receiveBody_ending (sink : SinkId) (maximumBodyBytes : Nat) :
    Ending (receiveBody sink maximumBodyBytes) := by
  have herror (reason : HttpBodyAbortReason) (error : HttpServerError) :
      Ending (do abortBody reason; beginError error) :=
    (abortBody_steady reason).bind_ending fun _ => beginError_ending error
  unfold receiveBody
  refine Steady.bind_ending (steady_modify fun _ => ⟨rfl, rfl⟩) fun _ => steady_get.bind_ending fun c => ?_
  split
  · exact herror _ _
  · split
    · exact herror _ _
    · refine Steady.bind_ending (steady_modify fun _ => ⟨rfl, rfl⟩) fun _ => steady_get.bind_ending fun c => ?_
      split
      · split
        · exact herror _ _
        · exact endBody_ending.1
      · exact (steady_pure _).ending

theorem routeRequest_ending : Ending routeRequest := by
  unfold routeRequest
  refine steady_get.bind_ending fun c => (steady_ask rfl).bind_ending fun route => ?_
  split
  · exact beginResponse_ending _
  · exact receiveBody_ending _ _
  · exact beginError_ending _

theorem processHead_ending : Ending processHead := by
  intro c h hlive
  unfold processHead
  rw [holds_bind, holds_get]
  generalize c.parser.feed c.unread = fed
  obtain ⟨consumed, parser⟩ := fed
  have hlive' : Live { c with parser := parser, readOffset := c.readOffset + consumed } h :=
    ⟨hlive.closing, hlive.transport, hlive.active, hlive.holds⟩
  rw [holds_bind, holds_set]
  split
  · exact .inl hlive'
  · split
    · exact (beginError_ending _ _ h hlive').bind fun _ _ _ hdone => hdone
    · exact (routeRequest_ending _ h hlive').bind fun _ _ _ hdone => hdone

theorem writeBody_steady (sink : SinkId) (data : Bytes) : Steady (writeBody sink data) := by
  unfold writeBody
  split
  · exact steady_pure _
  · exact steady_ask rfl

theorem processBody_ending : Ending processBody := by
  unfold processBody
  refine steady_get.bind_ending fun c => ?_
  dsimp only
  split
  · exact (abortBody_steady _).bind_ending fun _ => (beginError_ending _).bind_pure _
  · split
    · exact (steady_pure _).ending
    · refine (writeBody_steady _ _).bind_ending fun taken => ?_
      refine Steady.bind_ending (steady_modify fun _ => ⟨rfl, rfl⟩) fun _ => ?_
      split
      · exact endBody_ending.2.bind_pure _
      · refine Steady.bind_ending (steady_modify fun _ => ⟨rfl, rfl⟩) fun _ => ?_
        refine steady_get.bind_ending fun c => ?_
        split
        · exact endBody_ending.1.bind_pure _
        · exact (steady_pure _).ending

theorem processLoop_gone {c : HttpConnection} {h : Hold} (fuel : Nat) (hgone : Gone c h) :
    (processLoop fuel).Holds slotContract (fun _ c' h' => LiveOrGone c' h') c h := by
  cases fuel with
  | zero => exact .inr hgone
  | succ fuel =>
    rw [processLoop, holds_bind, holds_get, if_neg]
    · exact .inr hgone
    · rintro ⟨hactive, -⟩
      rw [hgone.active] at hactive
      cases hactive

theorem processLoop_ending (fuel : Nat) : Ending (processLoop fuel) := by
  induction fuel with
  | zero => exact (steady_pure _).ending
  | succ fuel ih =>
    intro c h hlive
    rw [processLoop, holds_bind, holds_get]
    have hnext {round : ConnectionMethod Bool} (hround : Ending round) :
        (do let more ← round; if more then processLoop fuel else pure () :
          ConnectionMethod Unit).Holds slotContract (fun _ c' h' => LiveOrGone c' h') c h := by
      refine (hround c h hlive).bind ?_
      rintro more c' h' (hlive' | hgone)
      · split
        · exact ih c' h' hlive'
        · exact .inl hlive'
      · split
        · exact processLoop_gone fuel hgone
        · exact .inr hgone
    by_cases hwork : c.active = true ∧ c.readOffset < c.readBuffer.length
    · simp only [if_pos hwork]
      cases c.state with
      | readingHead => exact hnext processHead_ending
      | readingBody => exact hnext processBody_ending
      | idle => exact .inl hlive
      | writingResponse => exact .inl hlive
    · simp only [if_neg hwork]
      exact .inl hlive

theorem processBufferedInput_ending : Ending processBufferedInput := by
  unfold processBufferedInput
  refine steady_get.bind_ending fun c => ?_
  intro c' h hlive
  refine (processLoop_ending _ c' h hlive).bind ?_
  rintro _ c'' h' hdone
  rw [holds_modify]
  split
  · rcases hdone with hlive' | hgone
    · exact .inl ⟨hlive'.closing, hlive'.transport, hlive'.active, hlive'.holds⟩
    · exact .inr ⟨hgone.closing, hgone.held, hgone.transport, hgone.active⟩
  · exact hdone

theorem probe_ending (transport : TransportId) : Ending (probe transport) := by
  unfold probe
  refine (steady_ask rfl).bind_ending fun answer => ?_
  dsimp only
  split
  · exact (steady_pure _).ending
  · exact terminate_ending _ _
  · exact terminate_ending _ _

theorem concludePoll_ending (transport : TransportId) (status : HttpResponseWriteStatus) :
    Ending (concludePoll transport status) := by
  cases status with
  | pending => exact (steady_pure _).ending
  | waitingForStream => exact probe_ending transport
  | complete | clientDisconnected | transportError | invalidState | streamError => exact terminate_ending _ _

theorem pollResponse_ending (transport : TransportId) (nowMs : Nat) : Ending (pollResponse transport nowMs) := by
  unfold pollResponse
  refine steady_get.bind_ending fun c => ?_
  split
  · exact (terminate_ending _ _).bind_pure _
  · split
    · exact (terminate_ending _ _).bind_pure _
    · split
      · exact (terminate_ending _ _).bind_pure _
      · refine (steady_onWriter (poll_asks transport)).bind_ending fun polled => ?_
        refine Steady.bind_ending (steady_modify fun c => ?_) fun _ =>
          (concludePoll_ending _ _).bind_pure _
        split
        · exact ⟨rfl, rfl⟩
        · exact ⟨rfl, rfl⟩

theorem pollRead_ending (transport : TransportId) (nowMs : Nat) : Ending (pollRead transport nowMs) := by
  unfold pollRead
  refine (steady_ask rfl).bind_ending fun answer => ?_
  dsimp only
  split
  · split
    · exact (terminate_ending _ _).bind_pure _
    · exact Steady.bind_ending (steady_modify fun _ => ⟨rfl, rfl⟩) fun _ =>
        processBufferedInput_ending.bind_pure _
  · split
    · exact (terminate_ending _ _).bind_pure _
    · exact (steady_pure _).ending
  all_goals exact (terminate_ending _ _).bind_pure _

theorem pollActive_ending (transport : TransportId) (nowMs : Nat) : Ending (pollActive transport nowMs) := by
  unfold pollActive
  refine Steady.bind_ending (steady_modify fun c => ?_) fun _ => steady_get.bind_ending fun c => ?_
  · unfold armPhase
    split
    · exact ⟨rfl, rfl⟩
    · exact ⟨rfl, rfl⟩
  · split
    · exact pollResponse_ending _ _
    · split
      · exact (beginError_ending _).bind_pure _
      · split
        · exact (abortBody_steady _).bind_ending fun _ => (beginError_ending _).bind_pure _
        · split
          · exact processBufferedInput_ending.bind_pure _
          · exact pollRead_ending _ _

theorem poll_ending (nowMs : Nat) : Ending (poll nowMs) := by
  unfold poll
  refine steady_get.bind_ending fun c => ?_
  split
  · exact pollActive_ending _ _
  · exact (steady_pure _).ending

theorem begin_eq {c : HttpConnection} {config : HttpServerConfig} (transport : TransportId) (nowMs : Nat)
    (hactive : c.active = false) (htransport : c.transport = none) (hvalid : config.valid = true) :
    ∃ c', c.begin (some transport) config nowMs = (true, c') ∧ c'.active = true ∧
      c'.transport = some transport := by
  refine ⟨_, if_neg ?_, rfl, rfl⟩
  simp [hactive, htransport, hvalid]

end HttpConnection

end Bmx.Remote
