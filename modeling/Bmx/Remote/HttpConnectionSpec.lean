import Mathlib.Data.List.Infix
import Bmx.Interaction.Monitor
import Bmx.Remote.HttpConnection
import Bmx.Remote.HttpParserSpec

/-!
# What a connection owes

A connection owes its sink one ending, its response one completion and its transport one close. The
account of a connection is what its surroundings have seen of it, and the theorem reads the debts
off that account after any polls.
-/

namespace Bmx.Remote

open Interaction Method HttpRequestParser List

/-! ### What the surroundings see -/

inductive BodyCall
  | write (data : Bytes) (taken : Bool)
  | finish (answered : Bool)
  | reject (answered : Bool)
  | abort

def BodyCall.isEnding : BodyCall → Bool
  | .write _ _ => false
  | .finish _ | .reject _ | .abort => true

structure Account where
  received : Bytes := []
  sinks : List SinkId := []
  bodyCalls : List (SinkId × BodyCall) := []
  responses : List HttpResponse := []
  completions : List CompletionId := []
  closed : Nat := 0

namespace Account

/-- One more exchange. What the writer does with the transport and its stream is not recorded. -/
def note (a : Account) : Event httpSignature → Account
  | ⟨.transportRead _ capacity, (status, data)⟩ =>
    if status = .progress ∧ data.length ≤ capacity then { a with received := a.received ++ data }
    else a
  | ⟨.transportClose _, _⟩ => { a with closed := a.closed + 1 }
  | ⟨.route _, route⟩ =>
    match route.action, route.bodySink with
    | .respond, _ => { a with responses := a.responses ++ [route.response] }
    | .receiveBody, some sink => { a with sinks := a.sinks ++ [sink] }
    | _, _ => a
  | ⟨.errorResponse _ _, response⟩ => { a with responses := a.responses ++ [response] }
  | ⟨.sinkWrite sink data, taken⟩ =>
    { a with bodyCalls := a.bodyCalls ++ [(sink, .write data taken)] }
  | ⟨.sinkFinish sink, response⟩ =>
    { a with
      bodyCalls := a.bodyCalls ++ [(sink, .finish response.isSome)]
      responses := a.responses ++ response.toList }
  | ⟨.sinkReject sink, response⟩ =>
    { a with
      bodyCalls := a.bodyCalls ++ [(sink, .reject response.isSome)]
      responses := a.responses ++ response.toList }
  | ⟨.sinkAbort sink _, _⟩ => { a with bodyCalls := a.bodyCalls ++ [(sink, .abort)] }
  | ⟨.complete completion _, _⟩ => { a with completions := a.completions ++ [completion] }
  | ⟨.transportWrite _ _, _⟩ | ⟨.streamRead _ _, _⟩ | ⟨.streamCancel _, _⟩ => a

/-- The completion that is owed: the one of the first response. What replaces a response that
cannot be sent is sent without its own. -/
def owedCompletion (a : Account) : List CompletionId := (a.responses.head?.bind (·.completion)).toList

end Account

inductive Ended (length : Nat) : Bytes → List BodyCall → Prop
  | finished (fed : List Bytes) (hall : fed.flatten.length = length) :
      Ended length fed.flatten (fed.map (.write · true) ++ [.finish true])
  | unfinished (fed : List Bytes) (hall : fed.flatten.length = length) :
      Ended length fed.flatten (fed.map (.write · true) ++ [.finish false, .abort])
  | rejected (fed : List Bytes) (last : Bytes) (hsome : (fed.flatten ++ last).length ≤ length) :
      Ended length (fed.flatten ++ last) (fed.map (.write · true) ++ [.write last false, .reject true])
  | refused (fed : List Bytes) (last : Bytes) (hsome : (fed.flatten ++ last).length ≤ length) :
      Ended length (fed.flatten ++ last)
        (fed.map (.write · true) ++ [.write last false, .reject false, .abort])
  | aborted (fed : List Bytes) (hsome : fed.flatten.length ≤ length) :
      Ended length fed.flatten (fed.map (.write · true) ++ [.abort])

structure BodyOpen (start : HttpRequestParser) (a : Account) (sink : SinkId) (head : Bytes)
    (request : HttpRequestHead) (fed : List Bytes) : Prop where
  sinks : a.sinks = [sink]
  calls : a.bodyCalls = (fed.map (BodyCall.write · true)).map (sink, ·)
  accepted : start.Accepts head request
  received : head ++ fed.flatten <+: a.received
  bounded : fed.flatten.length ≤ request.contentLength

/-- No sink has been handed over, or it has been fed a beginning of the body and has been ended. -/
def BodyDone (start : HttpRequestParser) (a : Account) : Prop :=
  (a.sinks = [] ∧ a.bodyCalls = []) ∨
    ∃ sink head request body calls, a.sinks = [sink] ∧ a.bodyCalls = calls.map (sink, ·) ∧
      start.Accepts head request ∧ head ++ body <+: a.received ∧
      Ended request.contentLength body calls

/-! ### The writer in a connection -/

/-- The questions of the writer, which the account does not record. -/
def WriterAsks : HttpOp → Prop
  | .transportWrite _ _ | .streamRead _ _ | .streamCancel _ => True
  | _ => False

theorem Account.note_writer {a : Account} {event : Event httpSignature} (h : WriterAsks event.op) :
    a.note event = a := by
  obtain ⟨op, answer⟩ := event
  cases op with
  | transportWrite | streamRead | streamCancel => rfl
  | _ => exact h.elim

/-- The surroundings of the proofs: they answer anything, and keep the account. -/
abbrev accountContract : Contract httpSignature Account :=
  monitorContract (fun _ _ => True) Account.note

namespace HttpResponseWriter

open Method

theorem abort_asks : abort.Asks WriterAsks := by
  unfold abort
  refine asks_get.bind fun w => ?_
  split
  · split
    · exact (asks_call trivial).bind fun _ => (asks_modify _).bind fun _ => asks_modify _
    · exact asks_modify _
  · exact asks_modify _

theorem start_asks (response : HttpResponse) (suppressBody : Bool) :
    (start response suppressBody).Asks WriterAsks := by
  unfold start
  refine asks_get.bind fun w => ?_
  cases serialize response suppressBody with
  | error status | ok header =>
    by_cases hactive : w.active = true
    · simp only [if_pos hactive]
      exact abort_asks.bind fun _ => (asks_set _).bind fun _ => asks_pure _
    · simp only [if_neg hactive]
      exact (asks_set _).bind fun _ => asks_pure _

/-- `Start` takes its response, also one it does not accept. -/
theorem start_taken (response : HttpResponse) (suppressBody : Bool) (w : HttpResponseWriter)
    (a : Account) : (start response suppressBody).Holds (accountContract.alone HttpResponseWriter)
      (fun _ w' a' => a' = a ∧ w'.response = response) w a := by
  have habort : abort.Holds (accountContract.alone HttpResponseWriter) (fun _ _ a' => a' = a) w a := by
    refine abort_asks.holds (fun _ _ _ => trivial) ?_ w a
    rintro op r answer r' hop rfl
    exact Account.note_writer hop
  unfold start
  rw [holds_bind, holds_get]
  cases serialize response suppressBody with
  | error status | ok header =>
    by_cases hactive : w.active = true
    · simp only [if_pos hactive]
      exact habort.bind fun _ _ a' hsame => ⟨hsame, rfl⟩
    · simp only [if_neg hactive]
      exact ⟨rfl, rfl⟩

theorem writePending_asks (transport : TransportId) (data : Bytes) (offset : Nat) :
    (writePending transport data offset).Asks WriterAsks := by
  unfold writePending
  split
  · exact asks_pure _
  · refine (asks_call trivial).bind fun answer => ?_
    repeat' split
    all_goals exact asks_pure _

theorem pollFragment_asks (transport : TransportId) : (pollFragment transport).Asks WriterAsks := by
  unfold pollFragment
  refine asks_get.bind fun w => (writePending_asks _ _ _).bind fun r => ?_
  exact (asks_modify _).bind fun _ => asks_pure _

theorem poll_asks (transport : TransportId) : (poll transport).Asks WriterAsks := by
  unfold poll
  refine asks_get.bind fun w => ?_
  split
  · exact asks_pure _
  · exact asks_pure _
  · exact asks_pure _
  · refine (writePending_asks _ _ _).bind fun r => (asks_modify _).bind fun _ => ?_
    split
    · exact asks_pure _
    · refine asks_get.bind fun w => ?_
      split
      · exact (asks_modify _).bind fun _ => asks_get.bind fun _ => asks_pure _
      · exact asks_pure _
  · refine (writePending_asks _ _ _).bind fun r => (asks_modify _).bind fun _ => ?_
    split
    · exact asks_pure _
    · refine asks_get.bind fun w => ?_
      split
      · exact (asks_modify _).bind fun _ => asks_pure _
      · exact asks_pure _
  · split
    · refine (asks_modify _).bind fun _ => (asks_call trivial).bind ?_
      rintro ⟨read, produced⟩
      cases read with
      | wouldBlock => exact asks_pure _
      | error => exact asks_pure _
      | ended =>
        dsimp only
        split
        · exact asks_pure _
        · exact (asks_modify _).bind fun _ => asks_pure _
      | data =>
        dsimp only
        split
        · exact asks_pure _
        · exact (asks_modify _).bind fun _ => pollFragment_asks _
    · exact pollFragment_asks _

end HttpResponseWriter

namespace HttpConnection

variable {start : HttpRequestParser} {c : HttpConnection} {a : Account}

abbrev connectionContract : Contract (httpSignature.shared HttpConnection) Account :=
  accountContract.alone HttpConnection

theorem ask_holds (op : HttpOp) {Q : op.Answer → HttpConnection → Account → Prop}
    (hQ : ∀ answer : op.Answer, Q answer c (a.note ⟨op, answer⟩)) : (ask op).Holds connectionContract Q c a := by
  refine holds_alone_call.2 ⟨trivial, ?_⟩
  rintro answer a' rfl
  exact hQ answer

variable {α : Type} {sink : SinkId} {head : Bytes} {request : HttpRequestHead} {fed : List Bytes} {nowMs : Nat}

theorem ask_bind_holds {op : HttpOp} {f : op.Answer → ConnectionMethod α} {Q : α → HttpConnection → Account → Prop}
    (hf : ∀ answer : op.Answer, (f answer).Holds connectionContract Q c (a.note ⟨op, answer⟩)) :
    (ask op >>= f).Holds connectionContract Q c a :=
  (holds_bind _ _ c a).2 (ask_holds op hf)

theorem onWriter_holds {m : HttpResponseWriter.WriterMethod α} (hm : m.Asks WriterAsks)
    (c : HttpConnection) (a : Account) :
    (onWriter m).Holds connectionContract
      (fun _ c' a' => a' = a ∧ c' = { c with writer := c'.writer }) c a := by
  apply holds_zoom
  · exact fun _ _ => rfl
  · exact fun _ _ _ => rfl
  refine (hm.holds (fun _ _ _ => trivial) ?_ c.writer a).mono ?_
  · rintro op r answer r' hop rfl
    exact Account.note_writer hop
  · intro value w a' hsame
    exact ⟨hsame, rfl⟩

theorem onStart_holds (response : HttpResponse) (suppressBody : Bool) (c : HttpConnection) (a : Account) :
    (onWriter (HttpResponseWriter.start response suppressBody)).Holds connectionContract
      (fun _ c' a' => a' = a ∧ c' = { c with writer := c'.writer } ∧
        c'.writer.response = response) c a := by
  apply holds_zoom
  · exact fun _ _ => rfl
  · exact fun _ _ _ => rfl
  refine (HttpResponseWriter.start_taken response suppressBody c.writer a).mono ?_
  rintro value w a' ⟨hsame, hresponse⟩
  exact ⟨hsame, rfl, hresponse⟩

/-! ### The states of a connection -/

/-- A connection that is active: its transport is open, and the completion of its response is still
to come. -/
structure Alive (c : HttpConnection) (a : Account) : Prop where
  active : c.active = true
  transport : c.transport ≠ none
  closed : a.closed = 0
  unnotified : c.completionNotified = false
  owed : a.completions ++ c.responseCompletion.toList = a.owedCompletion

/-- The sink of the connection is being fed, or has been ended. -/
def Body (start : HttpRequestParser) (c : HttpConnection) (a : Account) : Prop :=
  (c.bodySink = none ∧ BodyDone start a) ∨
    ∃ sink head request fed, c.bodySink = some sink ∧ c.bodySinkEnded = false ∧
      BodyOpen start a sink head request fed

structure Writing (start : HttpRequestParser) (c : HttpConnection) (a : Account) : Prop where
  alive : Alive c a
  state : c.state = .writingResponse
  sink : c.bodySink = none
  done : BodyDone start a

structure Closed (start : HttpRequestParser) (c : HttpConnection) (a : Account) : Prop where
  active : c.active = false
  closed : a.closed = 1
  done : BodyDone start a
  completed : a.completions = a.owedCompletion

def Answered (start : HttpRequestParser) (c : HttpConnection) (a : Account) : Prop :=
  Writing start c a ∨ Closed start c a

/-! ### Ends -/

theorem done_of_abort {reason : HttpBodyAbortReason} (h : BodyOpen start a sink head request fed) :
    BodyDone start (a.note ⟨.sinkAbort sink reason, ()⟩) := by
  refine .inr ⟨sink, head, request, fed.flatten, fed.map (.write · true) ++ [.abort], h.sinks, ?_,
    h.accepted, h.received, .aborted fed h.bounded⟩
  rw [map_append, ← h.calls]
  rfl

theorem abortBody_holds (reason : HttpBodyAbortReason) (h : Body start c a) :
    (abortBody reason).Holds connectionContract (fun _ c' a' =>
      (c' = { c with bodySink := none, bodySinkEnded := c'.bodySinkEnded }) ∧ BodyDone start a' ∧
        a' = { a with bodyCalls := a'.bodyCalls }) c a := by
  unfold abortBody
  rw [holds_bind, holds_get]
  rcases h with ⟨hnone, hdone⟩ | ⟨sink, head, request, fed, hsink, hended, hopen⟩
  · simp only [hnone]
    refine ⟨?_, hdone, rfl⟩
    rw [← hnone]
  · simp only [hsink, hended]
    exact ask_bind_holds fun _ => ⟨rfl, done_of_abort hopen, rfl⟩

theorem abortWriter_holds (c : HttpConnection) (a : Account) :
    abortWriter.Holds connectionContract
      (fun _ c' a' => a' = a ∧ c' = { c with writer := c'.writer }) c a := by
  unfold abortWriter
  rw [holds_bind, holds_get]
  by_cases hactive : c.writer.active = true
  · simp only [if_pos hactive]
    exact onWriter_holds HttpResponseWriter.abort_asks c a
  · simp only [if_neg hactive]
    exact ⟨rfl, rfl⟩

theorem notifyCompletion_holds (reason : HttpCompletionReason) (hunnotified : c.completionNotified = false) :
    (notifyCompletion reason).Holds connectionContract (fun _ c' a' =>
      (c' = { c with completionNotified := true, responseCompletion := none }) ∧
        a' = { a with completions := a.completions ++ c.responseCompletion.toList }) c a := by
  unfold notifyCompletion
  rw [holds_bind, holds_get]
  rw [if_neg (by rw [hunnotified]; exact nofun), holds_bind, holds_set]
  cases hcompletion : c.responseCompletion with
  | none =>
    refine ⟨rfl, ?_⟩
    show a = { a with completions := a.completions ++ [] }
    rw [append_nil]
  | some completion =>
    exact ask_holds (.complete completion reason) fun _ => ⟨rfl, rfl⟩

theorem closeTransport_holds (htransport : c.transport ≠ none) :
    closeTransport.Holds connectionContract
      (fun _ c' a' => c' = c ∧ a' = { a with closed := a.closed + 1 }) c a := by
  obtain ⟨transport, htransport⟩ := Option.ne_none_iff_exists'.1 htransport
  unfold closeTransport
  rw [holds_bind, holds_get]
  simp only [htransport]
  exact ask_holds (.transportClose transport) fun _ => ⟨rfl, rfl⟩

/-- Whatever state an active connection is in, it ends as it should. -/
theorem terminate_holds (reason : HttpCompletionReason) (bodyReason : HttpBodyAbortReason)
    (halive : Alive c a) (hbody : Body start c a) :
    (terminate reason bodyReason).Holds connectionContract (fun _ c' a' => Closed start c' a') c a := by
  unfold terminate
  rw [holds_bind, holds_get]
  simp only [halive.active, not_true_eq_false, if_false]
  refine (abortBody_holds bodyReason hbody).bind ?_
  rintro _ c₁ a₁ ⟨hc₁, hdone, ha₁⟩
  refine (abortWriter_holds c₁ a₁).bind ?_
  rintro _ c₂ a₂ ⟨rfl, hc₂⟩
  have hunnotified : c₂.completionNotified = false := by
    rw [hc₂, hc₁]
    exact halive.unnotified
  refine (notifyCompletion_holds reason hunnotified).bind ?_
  rintro _ c₃ a₃ ⟨hc₃, ha₃⟩
  have htransport : c₃.transport ≠ none := by
    rw [hc₃, hc₂, hc₁]
    exact halive.transport
  refine (closeTransport_holds htransport).bind ?_
  rintro _ c₄ a₄ ⟨rfl, ha₄⟩
  subst ha₄ ha₃
  constructor
  · rfl
  · show a₂.closed + 1 = 1
    rw [ha₁]
    exact congrArg (· + 1) halive.closed
  · exact hdone
  · show a₂.completions ++ c₂.responseCompletion.toList = a₂.owedCompletion
    rw [hc₂, hc₁, ha₁]
    exact halive.owed

/-! ### Answers -/

/-- A connection whose writer has not taken a response. -/
structure Open (c : HttpConnection) (a : Account) : Prop where
  active : c.active = true
  transport : c.transport ≠ none
  closed : a.closed = 0
  unnotified : c.completionNotified = false
  completion : c.responseCompletion = none

/-- A connection whose request has not been answered. -/
structure Asking (c : HttpConnection) (a : Account) : Prop extends Open c a where
  responses : a.responses = []
  completions : a.completions = []

theorem Open.moved (h : Open c a) (hconnection : (c'.active, c'.transport, c'.completionNotified, c'.responseCompletion) =
    (c.active, c.transport, c.completionNotified, c.responseCompletion)) (hclosed : a'.closed = a.closed) :
    Open c' a' := by
  simp only [Prod.mk.injEq] at hconnection
  obtain ⟨hactive, htransport, hnotified, hcompletion⟩ := hconnection
  exact ⟨hactive ▸ h.active, htransport ▸ h.transport, hclosed ▸ h.closed, hnotified ▸ h.unnotified,
    hcompletion ▸ h.completion⟩

theorem Asking.moved (h : Asking c a) (hconnection : (c'.active, c'.transport, c'.completionNotified,
    c'.responseCompletion) = (c.active, c.transport, c.completionNotified, c.responseCompletion))
    (haccount : (a'.closed, a'.responses, a'.completions) = (a.closed, a.responses, a.completions)) : Asking c' a' := by
  simp only [Prod.mk.injEq] at haccount
  exact ⟨h.toOpen.moved hconnection haccount.1, haccount.2.1 ▸ h.responses, haccount.2.2 ▸ h.completions⟩

theorem Open.alive (h : Open c a) (howed : a.completions = a.owedCompletion) : Alive c a where
  active := h.active
  transport := h.transport
  closed := h.closed
  unnotified := h.unnotified
  owed := by
    rw [h.completion, howed]
    exact append_nil _

theorem Asking.answered (h : Asking c a) (responses : List HttpResponse) : a.responses ++ responses = responses := by
  rw [h.responses]
  rfl

theorem Asking.alive (h : Asking c a) : Alive c a := by
  refine h.toOpen.alive ?_
  rw [h.completions, Account.owedCompletion, h.responses]
  rfl

theorem enterWriting_holds (h : Open c a) (hsink : c.bodySink = none) (hdone : BodyDone start a)
    (howed : a.completions ++ c.writer.response.completion.toList = a.owedCompletion) :
    enterWriting.Holds connectionContract (fun _ c' a' => Answered start c' a') c a := by
  unfold enterWriting
  exact .inl ⟨⟨h.active, h.transport, h.closed, rfl, howed⟩, rfl, hsink, hdone⟩

theorem beginFallback_holds {response : HttpResponse} (suppressBody : Bool) (h : Open c a)
    (hsink : c.bodySink = none) (hdone : BodyDone start a) (hresponses : a.responses = [response])
    (hcompletions : a.completions = response.completion.toList) :
    (beginFallback suppressBody).Holds connectionContract (fun _ c' a' => Answered start c' a')
      c a := by
  unfold beginFallback
  rw [holds_bind, holds_get]
  refine ask_bind_holds fun fallback => ?_
  have howed : (a.note ⟨.errorResponse .internalError c.errorRequest, fallback⟩).owedCompletion =
      a.completions := by
    show ((a.responses ++ [fallback]).head?.bind (·.completion)).toList = a.completions
    rw [hresponses, hcompletions]
    rfl
  refine (onStart_holds _ suppressBody c _).bind ?_
  rintro started c' a' ⟨rfl, hc', hresponse⟩
  have hopen' : Open c' (a.note ⟨.errorResponse .internalError c.errorRequest, fallback⟩) := by
    rw [hc']
    exact h.moved rfl rfl
  have hsink' : c'.bodySink = none := by
    rw [hc']
    exact hsink
  split
  · refine enterWriting_holds hopen' hsink' hdone ?_
    rw [hresponse, howed]
    exact append_nil _
  · refine (terminate_holds _ _ (hopen'.alive howed.symm) (.inl ⟨hsink', hdone⟩)).mono ?_
    exact fun _ _ _ => .inr

theorem beginResponse_holds (response : HttpResponse) (h : Open c a) (hsink : c.bodySink = none)
    (hdone : BodyDone start a) (hresponses : a.responses = [response])
    (hcompletions : a.completions = []) :
    (beginResponse response).Holds connectionContract (fun _ c' a' => Answered start c' a') c a := by
  unfold beginResponse
  rw [holds_bind, holds_get]
  refine (onStart_holds response _ c a).bind ?_
  rintro started c' a' ⟨rfl, hc', hresponse⟩
  have hopen : Open c' a' := by
    rw [hc']
    exact h.moved rfl rfl
  have hsink' : c'.bodySink = none := by
    rw [hc']
    exact hsink
  split
  · refine enterWriting_holds hopen hsink' hdone ?_
    rw [hresponse, hcompletions, Account.owedCompletion, hresponses]
    rfl
  · refine Method.Holds.bind (P := fun _ c'' a'' => c'' = c' ∧
      a'' = { a' with completions := response.completion.toList }) ?_ ?_
    · unfold rejectResponse
      cases response.completion with
      | none =>
        refine ⟨rfl, ?_⟩
        show a' = { a' with completions := [] }
        rw [← hcompletions]
      | some completion =>
        refine ask_holds (.complete completion .invalidResponse) fun _ => ⟨rfl, ?_⟩
        show { a' with completions := a'.completions ++ [completion] } = _
        rw [hcompletions]
        rfl
    · rintro _ _ _ ⟨rfl, rfl⟩
      exact beginFallback_holds _ (hopen.moved rfl rfl) hsink' hdone hresponses rfl

theorem beginError_holds (error : HttpServerError) (h : Asking c a) (hsink : c.bodySink = none)
    (hdone : BodyDone start a) :
    (beginError error).Holds connectionContract (fun _ c' a' => Answered start c' a') c a := by
  unfold beginError
  rw [holds_bind, holds_get]
  refine ask_bind_holds fun response => ?_
  exact beginResponse_holds response (h.toOpen.moved rfl rfl) hsink hdone (h.answered _) h.completions

theorem abortBody_beginError_holds (reason : HttpBodyAbortReason) (error : HttpServerError)
    (h : Asking c a) (hbody : Body start c a) :
    (do abortBody reason; beginError error : ConnectionMethod Unit).Holds connectionContract
      (fun _ c' a' => Answered start c' a') c a := by
  refine (abortBody_holds reason hbody).bind ?_
  rintro _ c' a' ⟨hc', hdone, ha'⟩
  refine beginError_holds error ?_ (by rw [hc']) hdone
  rw [hc', ha']
  exact h.moved rfl rfl

theorem finishBody_holds (h : Asking c a) (hsink : c.bodySink = some sink)
    (hended : c.bodySinkEnded = false) (hopen : BodyOpen start a sink head request fed)
    (hall : fed.flatten.length = request.contentLength) :
    finishBody.Holds connectionContract (fun _ c' a' => Answered start c' a') c a := by
  unfold finishBody
  rw [holds_bind, holds_get]
  simp only [hsink, hended]
  rw [if_neg nofun, holds_bind, holds_set]
  refine ask_bind_holds fun answer => ?_
  cases answer with
  | none =>
    refine ask_bind_holds fun _ => ?_
    refine beginError_holds _ ⟨h.toOpen.moved rfl rfl, h.answered _, h.completions⟩ rfl ?_
    refine .inr ⟨sink, head, request, _, _, hopen.sinks, ?_, hopen.accepted, hopen.received, .unfinished fed hall⟩
    rw [map_append, ← hopen.calls]
    exact append_assoc _ _ _
  | some response =>
    refine beginResponse_holds response (h.toOpen.moved rfl rfl) rfl ?_ (h.answered _) h.completions
    refine .inr ⟨sink, head, request, _, _, hopen.sinks, ?_, hopen.accepted, hopen.received, .finished fed hall⟩
    rw [map_append, ← hopen.calls]
    rfl

theorem rejectBody_holds {last : Bytes} (h : Asking c a) (hsink : c.bodySink = some sink)
    (hended : c.bodySinkEnded = false) (hsinks : a.sinks = [sink])
    (hcalls : a.bodyCalls = (fed.map (BodyCall.write · true) ++ [BodyCall.write last false]).map (sink, ·))
    (haccepted : start.Accepts head request) (hreceived : head ++ (fed.flatten ++ last) <+: a.received)
    (hbounded : (fed.flatten ++ last).length ≤ request.contentLength) :
    rejectBody.Holds connectionContract (fun _ c' a' => Answered start c' a') c a := by
  unfold rejectBody
  rw [holds_bind, holds_get]
  simp only [hsink, hended]
  rw [if_neg nofun, holds_bind, holds_set]
  refine ask_bind_holds fun answer => ?_
  cases answer with
  | none =>
    refine ask_bind_holds fun _ => ?_
    refine beginError_holds _ ⟨h.toOpen.moved rfl rfl, h.answered _, h.completions⟩ rfl ?_
    refine .inr ⟨sink, head, request, _, _, hsinks, ?_, haccepted, hreceived, .refused fed last hbounded⟩
    show a.bodyCalls ++ [_] ++ [_] = _
    rw [hcalls]
    simp
  | some response =>
    refine beginResponse_holds response (h.toOpen.moved rfl rfl) rfl ?_ (h.answered _) h.completions
    refine .inr ⟨sink, head, request, _, _, hsinks, ?_, haccepted, hreceived, .rejected fed last hbounded⟩
    show a.bodyCalls ++ [_] = _
    rw [hcalls]
    simp

/-! ### Reading -/

/-- The head is being read: the parser holds what has been used of the input. -/
structure ReadingHead (start : HttpRequestParser) (c : HttpConnection) (a : Account) : Prop
    extends Asking c a where
  state : c.state = .readingHead
  sink : c.bodySink = none
  sinks : a.sinks = []
  calls : a.bodyCalls = []
  parser : start.feed c.parser.buffer = (c.parser.buffer.length, c.parser)
  wants : c.parser.status = .needMoreData
  received : a.received = c.parser.buffer ++ c.unread

/-- The head has been read, and is about to be routed. -/
structure HeadRead (start : HttpRequestParser) (c : HttpConnection) (a : Account) (head : Bytes) : Prop
    extends Asking c a where
  sink : c.bodySink = none
  sinks : a.sinks = []
  calls : a.bodyCalls = []
  accepted : start.Accepts head c.parser.request
  received : a.received = head ++ c.unread

/-- The body is being read: the sink has got what has been used of the input since the head. -/
structure ReadingBody (start : HttpRequestParser) (c : HttpConnection) (a : Account) (sink : SinkId)
    (head : Bytes) (fed : List Bytes) : Prop extends Asking c a where
  state : c.state = .readingBody
  sink_eq : c.bodySink = some sink
  ended : c.bodySinkEnded = false
  body : BodyOpen start a sink head c.parser.request fed
  received : a.received = head ++ fed.flatten ++ c.unread
  remaining : fed.flatten.length + c.bodyRemaining = c.parser.request.contentLength

theorem ReadingBody.toBody (h : ReadingBody start c a sink head fed) : Body start c a :=
  .inr ⟨sink, head, c.parser.request, fed, h.sink_eq, h.ended, h.body⟩

/-- A connection after some polls. -/
def Serving (start : HttpRequestParser) (c : HttpConnection) (a : Account) : Prop :=
  ReadingHead start c a ∨ (∃ sink head fed, ReadingBody start c a sink head fed) ∨ Answered start c a

theorem Serving.moved (h : Serving start c a) (hsame : c' = { c with
      readOffset := c'.readOffset, readBuffer := c'.readBuffer, phaseTimingPending := c'.phaseTimingPending,
      phaseStartedMs := c'.phaseStartedMs, lastProgressMs := c'.lastProgressMs }) (hunread : c'.unread = c.unread) :
    Serving start c' a := by
  rw [hsame] at hunread ⊢
  rcases h with hhead | ⟨sink, head, fed, hbody⟩ | hwriting | hclosed
  · exact .inl ⟨hhead.toAsking.moved rfl rfl, hhead.state, hhead.sink, hhead.sinks, hhead.calls, hhead.parser,
      hhead.wants, hhead.received.trans (congrArg _ hunread.symm)⟩
  · exact .inr (.inl ⟨sink, head, fed, hbody.toAsking.moved rfl rfl, hbody.state, hbody.sink_eq, hbody.ended,
      hbody.body, hbody.received.trans (congrArg _ hunread.symm), hbody.remaining⟩)
  · have halive := hwriting.alive
    exact .inr (.inr (.inl ⟨⟨halive.active, halive.transport, halive.closed, halive.unnotified,
      halive.owed⟩, hwriting.state, hwriting.sink, hwriting.done⟩))
  · exact .inr (.inr (.inr ⟨hclosed.active, hclosed.closed, hclosed.done, hclosed.completed⟩))

/-- The input has been used up, or is not used any more. -/
def Settled (c : HttpConnection) : Prop :=
  c.active = true → c.state = .readingHead ∨ c.state = .readingBody → c.unread = []

theorem Answered.settled (h : Answered start c a) : Settled c := by
  intro hactive hreading
  rcases h with hwriting | hclosed
  · rw [hwriting.state] at hreading
    rcases hreading with h | h <;> cases h
  · rw [hclosed.active] at hactive
    cases hactive

theorem unread_eq_nil : c.unread = [] ↔ ¬ c.readOffset < c.readBuffer.length := by
  rw [unread, drop_eq_nil_iff, Nat.not_lt]

theorem receiveBody_holds (sink : SinkId) (maximumBodyBytes : Nat) (h : HeadRead start c a head) :
    (receiveBody sink maximumBodyBytes).Holds connectionContract
      (fun _ c' a' => (c'.unread = c.unread ∧ ∃ fed, ReadingBody start c' a' sink head fed) ∨
        Answered start c' a') c { a with sinks := [sink] } := by
  have hreceived : head <+: a.received := by
    rw [h.received]
    exact prefix_append _ _
  have hopen : BodyOpen start { a with sinks := [sink] } sink head c.parser.request [] := by
    refine ⟨rfl, h.calls, h.accepted, ?_, Nat.zero_le _⟩
    rwa [flatten_nil, append_nil]
  have hasking (c' : HttpConnection) (hsame : c' = { c with
      state := c'.state, bodySink := c'.bodySink, bodySinkEnded := c'.bodySinkEnded,
      bodyRemaining := c'.bodyRemaining, phaseTimingPending := c'.phaseTimingPending }) :
      Asking c' { a with sinks := [sink] } := by
    rw [hsame]
    exact h.toAsking.moved rfl rfl
  unfold receiveBody
  rw [holds_bind, holds_modify, holds_bind, holds_get]
  by_cases hlength : ¬ c.parser.request.hasContentLength
  · simp only [if_pos hlength]
    refine (abortBody_beginError_holds _ _ (hasking _ rfl) (.inr ?_)).mono fun _ _ _ => .inr
    exact ⟨sink, head, _, [], rfl, rfl, hopen⟩
  · simp only [if_neg hlength]
    by_cases hlarge : c.parser.request.contentLength > maximumBodyBytes
    · simp only [if_pos hlarge]
      refine (abortBody_beginError_holds _ _ (hasking _ rfl) (.inr ?_)).mono fun _ _ _ => .inr
      exact ⟨sink, head, _, [], rfl, rfl, hopen⟩
    · simp only [if_neg hlarge]
      rw [holds_bind, holds_modify, holds_bind, holds_get]
      by_cases hempty : c.parser.request.contentLength = 0
      · simp only [if_pos hempty]
        by_cases hmore : c.readOffset < c.readBuffer.length
        · simp only [if_pos hmore]
          refine (abortBody_beginError_holds _ _ (hasking _ rfl) (.inr ?_)).mono fun _ _ _ => .inr
          exact ⟨sink, head, _, [], rfl, rfl, hopen⟩
        · simp only [if_neg hmore]
          refine (finishBody_holds (hasking _ rfl) rfl rfl hopen hempty.symm).mono fun _ _ _ => .inr
      · simp only [if_neg hempty]
        refine .inl ⟨rfl, [], ⟨hasking _ rfl, rfl, rfl, rfl, hopen, ?_, Nat.zero_add _⟩⟩
        show a.received = head ++ [] ++ c.unread
        rw [append_nil, h.received]

theorem routeRequest_holds (h : HeadRead start c a head) :
    routeRequest.Holds connectionContract
      (fun _ c' a' => (c'.unread = c.unread ∧ ∃ sink fed, ReadingBody start c' a' sink head fed) ∨
        Answered start c' a') c a := by
  unfold routeRequest
  rw [holds_bind, holds_get]
  refine ask_bind_holds fun route => ?_
  have hdone : BodyDone start a := .inl ⟨h.sinks, h.calls⟩
  have herror : (beginError .internalError).Holds connectionContract (fun _ c' a' =>
      (c'.unread = c.unread ∧ ∃ sink fed, ReadingBody start c' a' sink head fed) ∨
        Answered start c' a') c a :=
    (beginError_holds _ h.toAsking h.sink hdone).mono fun _ _ _ => .inr
  cases haction : route.action with
  | invalid =>
    have hnote : a.note ⟨.route c.parser.request, route⟩ = a := by
      simp only [Account.note, haction]
    rw [hnote]
    exact herror
  | respond =>
    have hnote : a.note ⟨.route c.parser.request, route⟩ =
        { a with responses := a.responses ++ [route.response] } := by
      simp only [Account.note, haction]
    rw [hnote]
    have hanswered : (beginResponse route.response).Holds connectionContract
        (fun _ c' a' => Answered start c' a') c
        { a with responses := a.responses ++ [route.response] } :=
      beginResponse_holds route.response (h.toOpen.moved rfl rfl) h.sink hdone (h.answered _) h.completions
    exact hanswered.mono fun _ _ _ => .inr
  | receiveBody =>
    cases hsink : route.bodySink with
    | none =>
      have hnote : a.note ⟨.route c.parser.request, route⟩ = a := by
        simp only [Account.note, haction, hsink]
      rw [hnote]
      exact herror
    | some sink =>
      have hnote : a.note ⟨.route c.parser.request, route⟩ = { a with sinks := [sink] } := by
        simp only [Account.note, haction, hsink, h.sinks, nil_append]
      rw [hnote]
      refine (receiveBody_holds sink _ h).mono ?_
      rintro _ c' a' (⟨hunread, fed, hreading⟩ | hanswered)
      · exact .inl ⟨hunread, sink, fed, hreading⟩
      · exact .inr hanswered

/-- What the parser has been fed since the start, when a head goes on. -/
theorem feed_received (hstart : start.status = .needMoreData) (h : ReadingHead start c a) :
    start.feedLoop c.parser.buffer = (c.parser.buffer.length, c.parser) := by
  have hparser := h.parser
  rwa [feed, if_neg (not_not_intro hstart)] at hparser

theorem processHead_holds (hstart : start.status = .needMoreData) (h : ReadingHead start c a)
    (hsome : c.unread ≠ []) :
    processHead.Holds connectionContract (fun more c' a' => Serving start c' a' ∧
      (c'.unread.length < c.unread.length ∨ Settled c') ∧ (more = false → Settled c'))
      c a := by
  have hfeed : c.parser.feed c.unread = c.parser.feedLoop c.unread := by
    rw [feed, if_neg (not_not_intro h.wants)]
  have hsofar := feed_received hstart h
  have hspec := feedLoop_spec h.wants c.unread
  have hjoin (more : Bytes) : start.feedLoop (c.parser.buffer ++ more) =
      (c.parser.buffer.length + (c.parser.feedLoop more).1, (c.parser.feedLoop more).2) := by
    rw [feedLoop_append (by rw [hsofar]; exact h.wants), hsofar]
  have htake : (c.parser.feedLoop c.unread).2.status = .complete → c.parser.status = .needMoreData →
      c.parser.feedLoop (c.unread.take (c.parser.feedLoop c.unread).1) = c.parser.feedLoop c.unread :=
    feedLoop_take
  unfold processHead
  rw [holds_bind, holds_get]
  simp only [hfeed]
  generalize hread : c.parser.feedLoop c.unread = fed at hspec htake ⊢
  obtain ⟨consumed, parser⟩ := fed
  simp only at hspec htake ⊢
  rw [holds_bind, holds_set]
  have hunread : { c with parser := parser, readOffset := c.readOffset + consumed }.unread =
      c.unread.drop consumed := (drop_drop ..).symm
  have hasking : Asking { c with parser := parser, readOffset := c.readOffset + consumed } a := h.toAsking.moved rfl rfl
  have hreceived : a.received = parser.buffer ++ c.unread.drop consumed := by
    rw [h.received, hspec.buffer, append_assoc, take_append_drop]
  by_cases hwants : parser.status = .needMoreData
  · simp only [if_pos hwants]
    have hall := hspec.wants hwants
    have hnone : c.unread.drop consumed = [] := by rw [hall, drop_length]
    have hbuffer : parser.buffer = c.parser.buffer ++ c.unread := by
      rw [hspec.buffer, hall, take_length]
    have hreading : ReadingHead start
        { c with parser := parser, readOffset := c.readOffset + consumed } a := by
      refine ⟨hasking, h.state, h.sink, h.sinks, h.calls, ?_, hwants, ?_⟩
      · show start.feed parser.buffer = (parser.buffer.length, parser)
        rw [feed, if_neg (not_not_intro hstart), hbuffer, hjoin, hread, hall, length_append]
      · rw [hunread]
        exact hreceived
    have hsettled : Settled { c with parser := parser, readOffset := c.readOffset + consumed } :=
      fun _ _ => hunread.trans hnone
    exact ⟨.inl hreading, .inr hsettled, fun _ => hsettled⟩
  · simp only [if_neg hwants]
    have hdone : BodyDone start a := .inl ⟨h.sinks, h.calls⟩
    by_cases hcomplete : parser.status ≠ .complete
    · simp only [if_pos hcomplete]
      refine (beginError_holds _ hasking h.sink hdone).bind ?_
      intro _ c' a' hanswered
      exact ⟨.inr (.inr hanswered), .inr hanswered.settled, fun _ => hanswered.settled⟩
    · simp only [if_neg hcomplete]
      have hcomplete : parser.status = .complete := not_not.1 hcomplete
      have hfed : start.feed parser.buffer = (parser.buffer.length, parser) := by
        have htaken := htake hcomplete h.wants
        rw [feed, if_neg (not_not_intro hstart), hspec.buffer, hjoin, htaken,
          length_append, length_take, Nat.min_eq_left hspec.bounded]
      have haccepted : start.Accepts parser.buffer parser.request := by
        rw [HttpRequestParser.Accepts, hfed]
        exact ⟨rfl, hcomplete, rfl⟩
      have hused := hspec.progress hsome (.inr hcomplete)
      have hshorter : (c.unread.drop consumed).length < c.unread.length := by
        rw [length_drop]
        have hpos := length_pos_of_ne_nil hsome
        omega
      have hhead : HeadRead start { c with parser := parser, readOffset := c.readOffset + consumed } a
          parser.buffer :=
        ⟨hasking, h.sink, h.sinks, h.calls, haccepted, hreceived.trans (by rw [hunread])⟩
      refine (routeRequest_holds hhead).bind ?_
      rintro _ c' a' (⟨hsame, sink, fed, hreading⟩ | hanswered)
      · refine ⟨.inr (.inl ⟨sink, _, fed, hreading⟩), .inl ?_, nofun⟩
        rw [hsame, hunread]
        exact hshorter
      · exact ⟨.inr (.inr hanswered), .inr hanswered.settled, nofun⟩

theorem processBody_holds (h : ReadingBody start c a sink head fed) (hsome : c.unread ≠ []) :
    processBody.Holds connectionContract
      (fun _ c' a' => Serving start c' a' ∧ Settled c') c a := by
  unfold processBody
  rw [holds_bind, holds_get]
  by_cases hover : c.unread.length > c.bodyRemaining
  · simp only [if_pos hover]
    refine (abortBody_holds .unexpectedData h.toBody).bind ?_
    rintro _ c' a' ⟨hc', hdone, ha'⟩
    have hasking : Asking c' a' := by
      rw [hc', ha']
      exact h.toAsking.moved rfl rfl
    refine (beginError_holds _ hasking (by rw [hc']) hdone).bind ?_
    intro _ c'' a'' hanswered
    exact ⟨.inr (.inr hanswered), hanswered.settled⟩
  · have hwrite : writeBody sink c.unread = ask (.sinkWrite sink c.unread) := by
      rw [writeBody, if_neg hsome]
    have hroom : (fed.flatten ++ c.unread).length ≤ c.parser.request.contentLength := by
      rw [length_append, ← h.remaining]
      omega
    have hreceived : head ++ (fed.flatten ++ c.unread) <+: a.received := by
      rw [h.received, append_assoc]
    simp only [if_neg hover, h.sink_eq, hwrite]
    refine ask_bind_holds fun taken => ?_
    rw [holds_bind, holds_modify]
    cases taken with
    | false =>
      have hrejected : rejectBody.Holds connectionContract (fun _ c' a' => Answered start c' a')
          { c with readOffset := c.readOffset + c.unread.length }
          (a.note ⟨.sinkWrite sink c.unread, false⟩) := by
        refine rejectBody_holds (h.toAsking.moved rfl rfl) h.sink_eq h.ended h.body.sinks ?_ h.body.accepted
          hreceived hroom
        show a.bodyCalls ++ [_] = _
        rw [h.body.calls]
        simp
      refine hrejected.bind ?_
      intro _ c' a' hanswered
      exact ⟨.inr (.inr hanswered), hanswered.settled⟩
    | true =>
      simp only [not_true_eq_false, if_false]
      rw [holds_bind, holds_modify, holds_bind, holds_get]
      have hfed : (fed ++ [c.unread]).flatten = fed.flatten ++ c.unread := by simp
      have hopen : BodyOpen start (a.note ⟨.sinkWrite sink c.unread, true⟩) sink head
          c.parser.request (fed ++ [c.unread]) := by
        refine ⟨h.body.sinks, ?_, h.body.accepted, ?_, ?_⟩
        · show a.bodyCalls ++ [_] = _
          rw [h.body.calls]
          simp
        · rw [hfed]
          exact hreceived
        · rw [hfed]
          exact hroom
      have hused : c.readBuffer.drop (c.readOffset + c.unread.length) = [] := by
        rw [← drop_drop]
        exact drop_length
      have hremaining : (fed.flatten ++ c.unread).length + (c.bodyRemaining - c.unread.length) =
          c.parser.request.contentLength := by
        rw [length_append, ← h.remaining]
        omega
      by_cases hall : c.bodyRemaining - c.unread.length = 0
      · simp only [if_pos hall]
        rw [hall] at hremaining
        refine Method.Holds.bind (finishBody_holds (h.toAsking.moved rfl rfl) h.sink_eq h.ended hopen ?_) ?_
        · rw [hfed]
          exact hremaining
        · intro _ c' a' hanswered
          exact ⟨.inr (.inr hanswered), hanswered.settled⟩
      · simp only [if_neg hall]
        refine ⟨.inr (.inl ⟨sink, head, fed ++ [c.unread], h.toAsking.moved rfl rfl, h.state, h.sink_eq, h.ended,
          hopen, ?_, ?_⟩), fun _ _ => hused⟩
        · show a.received = head ++ (fed ++ [c.unread]).flatten ++
            c.readBuffer.drop (c.readOffset + c.unread.length)
          rw [hused, hfed, h.received, append_nil, append_assoc]
        · rw [hfed]
          exact hremaining

theorem processLoop_holds (hstart : start.status = .needMoreData) (fuel : Nat) (h : Serving start c a) :
    (processLoop fuel).Holds connectionContract
      (fun _ c' a' => Serving start c' a' ∧ (c.unread.length < fuel ∨ Settled c → Settled c')) c a := by
  induction fuel generalizing c a with
  | zero => exact ⟨h, fun hend => hend.elim (fun hlt => absurd hlt (Nat.not_lt_zero _)) id⟩
  | succ fuel ih =>
    rw [processLoop, holds_bind, holds_get]
    by_cases hwork : c.active = true ∧ c.readOffset < c.readBuffer.length
    · simp only [if_pos hwork]
      have hsome : c.unread ≠ [] := fun hnone => unread_eq_nil.1 hnone hwork.2
      rcases h with hhead | ⟨sink, head, fed, hbody⟩ | hanswered
      · simp only [hhead.state]
        refine (processHead_holds hstart hhead hsome).bind ?_
        rintro more c' a' ⟨hserving, hprogress, hsettled⟩
        cases more with
        | false => exact ⟨hserving, fun _ => hsettled rfl⟩
        | true =>
          refine (ih hserving).mono ?_
          rintro _ c'' a'' ⟨hserving', hsettled'⟩
          refine ⟨hserving', fun hend => hsettled' ?_⟩
          rcases hprogress with hshorter | hsettled
          · rcases hend with hfuel | hdone
            · exact .inl (by omega)
            · exact absurd (hdone hwork.1 (.inl hhead.state)) hsome
          · exact .inr hsettled
      · simp only [hbody.state]
        refine (processBody_holds hbody hsome).bind ?_
        rintro more c' a' ⟨hserving, hsettled⟩
        cases more with
        | false => exact ⟨hserving, fun _ => hsettled⟩
        | true =>
          refine (ih hserving).mono ?_
          rintro _ c'' a'' ⟨hserving', hsettled'⟩
          exact ⟨hserving', fun _ => hsettled' (.inr hsettled)⟩
      · have hwriting : c.state = .writingResponse := by
          rcases hanswered with hwriting | hclosed
          · exact hwriting.state
          · rw [hclosed.active] at hwork
            cases hwork.1
        simp only [hwriting]
        exact ⟨.inr (.inr hanswered), fun _ => hanswered.settled⟩
    · simp only [if_neg hwork]
      refine ⟨h, fun _ hactive _ => unread_eq_nil.2 fun hmore => hwork ⟨hactive, hmore⟩⟩

/-- The whole input is used, as far as it is wanted: the loop ends by itself. -/
theorem processBufferedInput_holds (hstart : start.status = .needMoreData) (h : Serving start c a) :
    processBufferedInput.Holds connectionContract
      (fun _ c' a' => Serving start c' a' ∧ Settled c') c a := by
  unfold processBufferedInput
  rw [holds_bind, holds_get]
  refine (processLoop_holds hstart _ h).bind ?_
  rintro _ c' a' ⟨hserving, hsettled⟩
  have hsettled := hsettled (.inl (Nat.lt_succ_self _))
  rw [holds_modify]
  by_cases hused : c'.readOffset = c'.readBuffer.length
  · simp only [if_pos hused]
    have hnone : c'.unread = [] := unread_eq_nil.2 (by omega)
    exact ⟨hserving.moved rfl hnone.symm, fun _ _ => rfl⟩
  · simp only [if_neg hused]
    exact ⟨hserving, hsettled⟩

/-! ### Polls -/

theorem terminate_serving (reason : HttpCompletionReason) (bodyReason : HttpBodyAbortReason)
    (halive : Alive c a) (hbody : Body start c a) :
    (terminate reason bodyReason).Holds connectionContract (fun _ c' a' => Serving start c' a') c a :=
  (terminate_holds reason bodyReason halive hbody).mono fun _ _ _ h => .inr (.inr (.inr h))

def Reading (start : HttpRequestParser) (c : HttpConnection) (a : Account) : Prop :=
  ReadingHead start c a ∨ ∃ sink head fed, ReadingBody start c a sink head fed

theorem Reading.asking (h : Reading start c a) : Asking c a := by
  rcases h with hhead | ⟨_, _, _, hbody⟩
  · exact hhead.toAsking
  · exact hbody.toAsking

theorem Reading.body (h : Reading start c a) : Body start c a := by
  rcases h with hhead | ⟨_, _, _, hbody⟩
  · exact .inl ⟨hhead.sink, .inl ⟨hhead.sinks, hhead.calls⟩⟩
  · exact hbody.toBody

theorem Reading.serving (h : Reading start c a) : Serving start c a := h.elim .inl (.inr ∘ .inl)

theorem Reading.read {data : Bytes} (h : Reading start c a) (hused : c.unread = []) :
    Reading start { c with readBuffer := data, readOffset := 0, lastProgressMs := nowMs }
      { a with received := a.received ++ data } := by
  have hasking := h.asking
  rcases h with hhead | ⟨sink, head, fed, hbody⟩
  · have hreceived := hhead.received
    rw [hused, append_nil] at hreceived
    refine .inl ⟨hasking.moved rfl rfl, hhead.state, hhead.sink, hhead.sinks, hhead.calls, hhead.parser,
      hhead.wants, ?_⟩
    show a.received ++ data = c.parser.buffer ++ data
    rw [hreceived]
  · have hreceived := hbody.received
    rw [hused, append_nil] at hreceived
    have hopen := hbody.body
    refine .inr ⟨sink, head, fed, hasking.moved rfl rfl, hbody.state,
      hbody.sink_eq, hbody.ended, ⟨hopen.sinks, hopen.calls, hopen.accepted, ?_, hopen.bounded⟩, ?_,
      hbody.remaining⟩
    · exact hopen.received.trans (prefix_append _ _)
    · show a.received ++ data = head ++ fed.flatten ++ data
      rw [hreceived]

/-- What is read in other ways does not matter to what was done before. -/
theorem Body.read {more : Bytes} (h : Body start c a) : Body start c { a with received := a.received ++ more } := by
  rcases h with ⟨hnone, hdone⟩ | ⟨sink, head, request, fed, hsink, hended, hopen⟩
  · refine .inl ⟨hnone, ?_⟩
    rcases hdone with hdone | ⟨sink, head, request, body, calls, hsinks, hcalls, haccepted, hreceived, hended⟩
    · exact .inl hdone
    · exact .inr ⟨sink, head, request, body, calls, hsinks, hcalls, haccepted,
        hreceived.trans (prefix_append _ _), hended⟩
  · exact .inr ⟨sink, head, request, fed, hsink, hended, hopen.sinks, hopen.calls, hopen.accepted,
      hopen.received.trans (prefix_append _ _), hopen.bounded⟩

/-- Whatever a read has given, the connection can be ended after it. -/
theorem terminate_after_read (transport : TransportId) (capacity : Nat)
    (answer : HttpIoStatus × Bytes) (reason : HttpCompletionReason) (bodyReason : HttpBodyAbortReason) (halive : Alive c a)
    (hbody : Body start c a) :
    (terminate reason bodyReason).Holds connectionContract (fun _ c' a' => Serving start c' a') c
      (a.note ⟨.transportRead transport capacity, answer⟩) := by
  obtain ⟨status, data⟩ := answer
  by_cases htaken : status = .progress ∧ data.length ≤ capacity
  · have hnote : a.note ⟨.transportRead transport capacity, (status, data)⟩ =
        { a with received := a.received ++ data } := if_pos htaken
    rw [hnote]
    exact terminate_serving reason bodyReason ⟨halive.active, halive.transport, halive.closed,
      halive.unnotified, halive.owed⟩ hbody.read
  · have hnote : a.note ⟨.transportRead transport capacity, (status, data)⟩ = a := if_neg htaken
    rw [hnote]
    exact terminate_serving reason bodyReason halive hbody

theorem pollRead_holds (hstart : start.status = .needMoreData) (transport : TransportId) (nowMs : Nat)
    (h : Reading start c a) (hused : c.unread = []) :
    (pollRead transport nowMs).Holds connectionContract (fun _ c' a' => Serving start c' a') c a := by
  have halive := h.asking.alive
  unfold pollRead
  refine ask_bind_holds ?_
  rintro ⟨status, data⟩
  have hend (reason : HttpCompletionReason) (bodyReason : HttpBodyAbortReason) :=
    terminate_after_read transport httpConnectionReadBufferBytes (status, data) reason bodyReason halive
      h.body
  cases status with
  | progress =>
    by_cases hbad : data = [] ∨ data.length > httpConnectionReadBufferBytes
    · simp only [if_pos hbad]
      exact (hend _ _).bind fun _ _ _ hserving => hserving
    · simp only [if_neg hbad]
      have hfits : data.length ≤ httpConnectionReadBufferBytes := by
        omega
      have hnote : a.note ⟨.transportRead transport httpConnectionReadBufferBytes,
          (.progress, data)⟩ = { a with received := a.received ++ data } := if_pos ⟨rfl, hfits⟩
      rw [holds_bind, holds_modify, hnote]
      refine (processBufferedInput_holds hstart (h.read hused).serving).bind ?_
      exact fun _ _ _ hserving => hserving.1
  | wouldBlock =>
    by_cases hsome : data ≠ []
    · simp only [if_pos hsome]
      exact (hend _ _).bind fun _ _ _ hserving => hserving
    · simp only [if_neg hsome]
      exact h.serving
  | closed | error => exact (hend _ _).bind fun _ _ _ hserving => hserving

theorem probe_holds (transport : TransportId) (h : Writing start c a) :
    (probe transport).Holds connectionContract (fun _ c' a' => Serving start c' a') c a := by
  have hbody : Body start c a := .inl ⟨h.sink, h.done⟩
  unfold probe
  refine ask_bind_holds ?_
  rintro ⟨status, data⟩
  have hend (reason : HttpCompletionReason) (bodyReason : HttpBodyAbortReason) :=
    terminate_after_read transport httpConnectionReadBufferBytes (status, data) reason bodyReason
      h.alive hbody
  cases status with
  | wouldBlock =>
    cases data with
    | nil => exact .inr (.inr (.inl h))
    | cons => exact hend _ _
  | closed =>
    cases data with
    | nil => exact hend _ _
    | cons => exact hend _ _
  | progress => exact hend _ _
  | error => exact hend _ _

theorem concludePoll_holds (transport : TransportId) (status : HttpResponseWriteStatus) (h : Writing start c a) :
    (concludePoll transport status).Holds connectionContract (fun _ c' a' => Serving start c' a')
      c a := by
  have hbody : Body start c a := .inl ⟨h.sink, h.done⟩
  cases status with
  | pending => exact .inr (.inr (.inl h))
  | waitingForStream => exact probe_holds transport h
  | complete | clientDisconnected | transportError | invalidState
  | streamError => exact terminate_serving _ _ h.alive hbody

theorem pollResponse_holds (transport : TransportId) (nowMs : Nat) (h : Writing start c a) :
    (pollResponse transport nowMs).Holds connectionContract (fun _ c' a' => Serving start c' a')
      c a := by
  have hend (reason : HttpCompletionReason) (bodyReason : HttpBodyAbortReason) :
      (do terminate reason bodyReason; return false : ConnectionMethod Bool).Holds connectionContract
        (fun _ c' a' => Serving start c' a') c a :=
    (terminate_serving reason bodyReason h.alive (.inl ⟨h.sink, h.done⟩)).bind fun _ _ _ h => h
  unfold pollResponse
  rw [holds_bind, holds_get]
  by_cases hunexpected : c.writer.streaming ∧ c.readOffset < c.readBuffer.length
  · simp only [if_pos hunexpected]
    exact hend _ _
  · simp only [if_neg hunexpected]
    by_cases hwrite : c.writer.hasPendingOutput ∧
        expired nowMs c.lastProgressMs c.config.writeTimeoutMs
    · simp only [if_pos hwrite]
      exact hend _ _
    · simp only [if_neg hwrite]
      by_cases hidle : c.writer.streaming ∧ ¬ c.writer.hasPendingOutput ∧
          expired nowMs c.lastProgressMs c.config.streamIdleTimeoutMs
      · simp only [if_pos hidle]
        exact hend _ _
      · simp only [if_neg hidle]
        refine (onWriter_holds (HttpResponseWriter.poll_asks transport) c a).bind ?_
        rintro ⟨status, progress⟩ c' a' ⟨rfl, hc'⟩
        rw [holds_bind, holds_modify]
        have halive := h.alive
        have hwriting : Writing start (if progress then { c' with lastProgressMs := nowMs } else c') a' := by
          rw [hc']
          split
          all_goals
            exact ⟨⟨halive.active, halive.transport, halive.closed, halive.unnotified, halive.owed⟩,
              h.state, h.sink, h.done⟩
        exact (concludePoll_holds transport status hwriting).bind fun _ _ _ h => h

theorem Serving.armPhase (nowMs : Nat) (h : Serving start c a) : Serving start (c.armPhase nowMs) a := by
  unfold HttpConnection.armPhase
  split
  · exact h.moved rfl rfl
  · exact h

theorem Serving.reading (h : Serving start c a) (hactive : c.active = true)
    (hstate : c.state ≠ .writingResponse) : Reading start c a := by
  rcases h with hhead | hbody | hwriting | hclosed
  · exact .inl hhead
  · exact .inr hbody
  · exact absurd hwriting.state hstate
  · rw [hclosed.active] at hactive
    cases hactive

theorem Serving.writing (h : Serving start c a) (hactive : c.active = true)
    (hstate : c.state = .writingResponse) : Writing start c a := by
  rcases h with hhead | ⟨_, _, _, hbody⟩ | hwriting | hclosed
  · have hother := hhead.state
    rw [hstate] at hother
    cases hother
  · have hother := hbody.state
    rw [hstate] at hother
    cases hother
  · exact hwriting
  · rw [hclosed.active] at hactive
    cases hactive

theorem pollActive_holds (hstart : start.status = .needMoreData) (transport : TransportId)
    (nowMs : Nat) (h : Serving start c a) (hactive : c.active = true) :
    (pollActive transport nowMs).Holds connectionContract (fun _ c' a' => Serving start c' a')
      c a := by
  unfold pollActive
  rw [holds_bind, holds_modify, holds_bind, holds_get]
  have hactive' : (c.armPhase nowMs).active = true := by
    unfold HttpConnection.armPhase
    split
    · exact hactive
    · exact hactive
  generalize hc' : c.armPhase nowMs = c' at hactive' ⊢
  have hserving : Serving start c' a := hc' ▸ h.armPhase nowMs
  by_cases hwriting : c'.state = .writingResponse
  · simp only [if_pos hwriting]
    exact pollResponse_holds transport nowMs (hserving.writing hactive' hwriting)
  · simp only [if_neg hwriting]
    have hreading := hserving.reading hactive' hwriting
    have hanswered {c'' : HttpConnection} {a'' : Account} (h : Answered start c'' a'') :
        Serving start c'' a'' := .inr (.inr h)
    split
    · rename_i hlate
      have hhead : ReadingHead start c' a := by
        rcases hreading with hhead | ⟨_, _, _, hbody⟩
        · exact hhead
        · have hother := hbody.state
          rw [hlate.1] at hother
          cases hother
      have hdone : BodyDone start a := .inl ⟨hhead.sinks, hhead.calls⟩
      exact (beginError_holds _ hhead.toAsking hhead.sink hdone).bind fun _ _ _ h => hanswered h
    · split
      · refine (abortBody_holds .timeout hreading.body).bind ?_
        rintro _ c'' a'' ⟨hc'', hdone, ha''⟩
        have hasking := hreading.asking
        have hasking' : Asking c'' a'' := by
          rw [hc'', ha'']
          exact hasking.moved rfl rfl
        exact (beginError_holds _ hasking' (by rw [hc'']) hdone).bind fun _ _ _ h => hanswered h
      · split
        · exact (processBufferedInput_holds hstart hserving).bind fun _ _ _ h => h.1
        · rename_i hused
          exact pollRead_holds hstart transport nowMs hreading (unread_eq_nil.2 hused)

theorem poll_holds (hstart : start.status = .needMoreData) (nowMs : Nat) (h : Serving start c a) :
    (poll nowMs).Holds connectionContract (fun _ c' a' => Serving start c' a') c a := by
  unfold poll
  rw [holds_bind, holds_get]
  split
  · rename_i hactive _
    exact pollActive_holds hstart _ nowMs h hactive
  · exact h

theorem stop_holds (h : Serving start c a) :
    stop.Holds connectionContract (fun _ c' a' => Serving start c' a') c a := by
  unfold stop
  cases hactive : c.active with
  | true =>
    by_cases hwriting : c.state = .writingResponse
    · have hwriting := h.writing hactive hwriting
      exact terminate_serving _ _ hwriting.alive (.inl ⟨hwriting.sink, hwriting.done⟩)
    · have hreading := h.reading hactive hwriting
      exact terminate_serving _ _ hreading.asking.alive hreading.body
  | false =>
    unfold terminate
    rw [holds_bind, holds_get]
    simp only [hactive, Bool.false_eq_true, not_false_eq_true, if_true]
    exact h

/-! ### Every schedule -/

inductive ConnectionAct
  | poll (nowMs : Nat)
  | stop

def ConnectionAct.perform : ConnectionAct → ConnectionMethod Unit
  | .poll nowMs => do
    let _ ← HttpConnection.poll nowMs
  | .stop => HttpConnection.stop

/-- The polls of a connection, one after the other. -/
def attend : List ConnectionAct → ConnectionMethod Unit
  | [] => pure ()
  | next :: rest => do
    next.perform
    attend rest

theorem attend_holds (hstart : start.status = .needMoreData) (acts : List ConnectionAct) (h : Serving start c a) :
    (attend acts).Holds connectionContract (fun _ c' a' => Serving start c' a') c a := by
  induction acts generalizing c a with
  | nil => exact h
  | cons next rest ih =>
    have hnext : next.perform.Holds connectionContract (fun _ c' a' => Serving start c' a') c a := by
      cases next with
      | poll nowMs => exact (poll_holds hstart nowMs h).bind fun _ _ _ hserving => hserving
      | stop => exact stop_holds h
    exact hnext.bind fun _ _ _ hserving => ih hserving

theorem begin_serving {c' : HttpConnection} {transport : Option TransportId}
    {config : HttpServerConfig} (h : c.begin transport config nowMs = (true, c')) :
    Serving c.parser.reset c' {} := by
  unfold begin at h
  split at h
  · cases h
  · rename_i hfree
    simp only [not_or, not_not] at hfree
    obtain ⟨-, -, htransport, -⟩ := hfree
    cases h
    exact .inl ⟨⟨⟨rfl, htransport, rfl, rfl, rfl⟩, rfl, rfl⟩, rfl, rfl, rfl, rfl, by
      have hroom := c.parser.maximum_bounds.1
      unfold feed
      simp [reset, feedLoop, Nat.ne_of_lt hroom], rfl, rfl⟩

/-- What a connection owes is paid: a sink that was handed over is fed a beginning of the body, all
of it before it is told to finish, and is ended once by the time the connection is; the completion of
the response is called by then, and not twice; the transport is closed with it. -/
structure Paid (start : HttpRequestParser) (c : HttpConnection) (a : Account) : Prop where
  body : BodyDone start a ∨
    c.active = true ∧ ∃ sink head request fed, BodyOpen start a sink head request fed
  completed : c.active = false → a.completions = a.owedCompletion
  once : a.completions <+: a.owedCompletion
  closed : a.closed = if c.active then 0 else 1

theorem Serving.paid (h : Serving start c a) : Paid start c a := by
  have halive (h : Alive c a) (hbody : Body start c a) : Paid start c a := by
    refine ⟨?_, fun hactive => absurd (h.active.symm.trans hactive) nofun, ?_, ?_⟩
    · rcases hbody with ⟨-, hdone⟩ | ⟨sink, head, request, fed, -, -, hopen⟩
      · exact .inl hdone
      · exact .inr ⟨h.active, sink, head, request, fed, hopen⟩
    · rw [← h.owed]
      exact prefix_append _ _
    · rw [h.active]
      exact h.closed
  rcases h with hhead | ⟨sink, head, fed, hbody⟩ | hwriting | hclosed
  · exact halive hhead.alive (.inl ⟨hhead.sink, .inl ⟨hhead.sinks, hhead.calls⟩⟩)
  · exact halive hbody.alive hbody.toBody
  · exact halive hwriting.alive (.inl ⟨hwriting.sink, hwriting.done⟩)
  · refine ⟨.inl hclosed.done, fun _ => hclosed.completed, ?_, ?_⟩
    · rw [hclosed.completed]
    · rw [hclosed.active]
      exact hclosed.closed

/-- What the surroundings have seen. -/
def accountOf (events : List (Event httpSignature)) : Account := events.foldl Account.note {}

/-- Whatever the transport, the router, the sink and the stream do, and however the connection is
polled, it pays what it owes. -/
theorem connection_pays (acts : List ConnectionAct) {c c₀ : HttpConnection}
    {transport : Option TransportId} {config : HttpServerConfig} {nowMs : Nat}
    (hbegin : c.begin transport config nowMs = (true, c₀)) {events : List (Event httpSignature)}
    {result : Unit × HttpConnection} (hrun : AnyRun ((attend acts).run c₀).alone events result) :
    Paid c.parser.reset result.2 (accountOf events) := by
  have hserving := attend_holds (a := {}) rfl acts (begin_serving hbegin)
  exact (hrun.monitored ((Program.holds_alone _ _).2 hserving)).2.paid

/-- A client that sends one request, to a sink that does not accept what it got. -/
def refusingSink (request : Bytes) : Handler httpSignature Bool
  | .transportRead _ _, sent => (if sent then (.wouldBlock, []) else (.progress, request), true)
  | .transportWrite _ data, sent => ((.progress, data.length), sent)
  | .transportClose _, sent => ((), sent)
  | .route _, sent => ({ action := .receiveBody, bodySink := some 5, maximumBodyBytes := 10 }, sent)
  | .errorResponse _ _, sent =>
    ({ statusCode := 500, reasonPhrase := ascii "Error", completion := some 9 }, sent)
  | .sinkWrite _ _, sent => (true, sent)
  | .sinkReject _, sent => (none, sent)
  | .sinkFinish _, sent => (none, sent)
  | .sinkAbort _ _, sent => ((), sent)
  | .streamRead _ _, sent => ((.ended, []), sent)
  | .streamCancel _, sent => ((), sent)
  | .complete _ _, sent => ((), sent)

def samplePut : Bytes := ascii "PUT /a HTTP/1.1\r\nContent-Length: 2\r\n\r\nab"

def sampleConnection : HttpConnection := (({} : HttpConnection).begin (some 1) {} 0).2

def samplePolls : List ConnectionAct := [.poll 1, .poll 2, .poll 3]

def samplePutRun := ((attend samplePolls).run sampleConnection).alone.run (refusingSink samplePut) false

theorem samplePut_pays :
    (accountOf samplePutRun.1).completions = [9] ∧
      Paid ({} : HttpConnection).parser.reset samplePutRun.2.1.2 (accountOf samplePutRun.1) :=
  ⟨by decide +kernel, connection_pays samplePolls
    (show ({} : HttpConnection).begin (some 1) {} 0 = (true, sampleConnection) from rfl)
    (run_anyRun _ _ _)⟩

/-- A sink that does not accept what it got is told to finish and then to abort. -/
theorem samplePut_ended_twice :
    ¬ ∀ (acts : List ConnectionAct) (events : List (Event httpSignature))
      (result : Unit × HttpConnection),
      AnyRun ((attend acts).run sampleConnection).alone events result →
        (accountOf events).bodyCalls.countP (·.2.isEnding) ≤ 1 := by
  intro hone
  have htwice : (accountOf samplePutRun.1).bodyCalls.countP (·.2.isEnding) = 2 := by decide +kernel
  have hrun := hone samplePolls samplePutRun.1 samplePutRun.2.1
    (run_anyRun (refusingSink samplePut) _ false)
  rw [htwice] at hrun
  omega

end HttpConnection

end Bmx.Remote
