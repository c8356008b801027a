import Mathlib.Data.List.Infix
import Bmx.Remote.HttpResponseWriter

/-!
# What the response writer puts on the wire

At every point of every schedule the bytes sent are a beginning of the serialised head followed by
the body, and a stream that was taken over is cancelled once when it is given up.
-/

namespace Bmx.Remote

open Interaction Method List

/-! ### What a run shows -/

abbrev HttpEvent := Event httpSignature

/-- The bytes the transport took in an exchange. -/
def sentBy : HttpEvent → Bytes
  | ⟨.transportWrite _ data, answer⟩ =>
    if answer.1 = .progress ∧ answer.2 ≤ data.length then data.take answer.2 else []
  | _ => []

def streamedBy : HttpEvent → Bytes
  | ⟨.streamRead _ capacity, answer⟩ =>
    if answer.1 = .data ∧ answer.2.length ≤ capacity then answer.2 else []
  | _ => []

def isCancel : HttpEvent → Bool
  | ⟨.streamCancel _, _⟩ => true
  | _ => false

def sent (events : List HttpEvent) : Bytes := events.flatMap sentBy

def streamed (events : List HttpEvent) : Bytes := events.flatMap streamedBy

def cancels (events : List HttpEvent) : Nat := events.countP isCancel

@[simp] theorem sent_append (first second : List HttpEvent) :
    sent (first ++ second) = sent first ++ sent second := flatMap_append

@[simp] theorem streamed_append (first second : List HttpEvent) :
    streamed (first ++ second) = streamed first ++ streamed second := flatMap_append

@[simp] theorem cancels_append (first second : List HttpEvent) :
    cancels (first ++ second) = cancels first + cancels second := countP_append

namespace HttpResponseWriter

/-! ### The head -/

/-- The head of a response as it is to be sent. -/
def serializedHead (response : HttpResponse) : Bytes :=
  ascii "HTTP/1.1 " ++ unsigned response.statusCode ++ ascii " " ++ response.reasonPhrase ++ crlf ++
    response.headers.flatMap (fun header => header.name ++ ascii ": " ++ header.value ++ crlf) ++
    (if response.bodyKind ≠ .stream then
      ascii "Content-Length: " ++ unsigned (announcedLength response) ++ crlf else []) ++
    ascii "Connection: close\r\n\r\n"

variable {header header' : Bytes} {headers : List HttpHeaderView} {response : HttpResponse} {suppressBody : Bool}
  {status : HttpResponseStartStatus}

theorem appendAll_eq {values : List Bytes}
    (h : appendAll header values = some header') : header' = header ++ values.flatten := by
  induction values generalizing header with
  | nil =>
    obtain rfl : header = header' := Option.some.inj h
    simp
  | cons value values ih =>
    rw [appendAll] at h
    unfold append at h
    split at h
    · cases h
    · rename_i next hnext
      split at hnext
      · cases hnext
      · cases hnext
        rw [ih h]
        simp

theorem appendHeaders_eq (h : appendHeaders header headers = .ok header') :
    header' = header ++ headers.flatMap fun next => next.name ++ ascii ": " ++ next.value ++ crlf := by
  induction headers generalizing header with
  | nil =>
    obtain rfl : header = header' := Except.ok.inj h
    simp
  | cons next rest ih =>
    rw [appendHeaders] at h
    split at h
    · cases h
    · split at h
      · cases h
      · rename_i appended happended
        rw [ih h, appendAll_eq happended]
        simp

/-- What `Start` accepts, and the head it serialises. -/
theorem serialize_eq (h : serialize response suppressBody = .ok header) :
    header = serializedHead response ∧ (response.bodyKind = .headOnly → suppressBody = true) ∧
      (response.bodyKind = .stream → response.stream ≠ none) := by
  unfold serialize at h
  split at h
  · cases h
  · split at h
    · cases h
    · split at h
      · cases h
      · rename_i hheadOnly
        split at h
        · cases h
        · rename_i hstream
          split at h
          · cases h
          · rename_i statusLine hstatusLine
            split at h
            · cases h
            · rename_i fields hfields
              split at h
              · cases h
              · rename_i framed hframed
                split at h
                · cases h
                · rename_i closed hclosed
                  obtain rfl := Except.ok.inj h
                  refine ⟨?_, ?_, fun hkind hnone => hstream ⟨hkind, hnone⟩⟩
                  · have hend : closed = framed ++ ascii "Connection: close\r\n\r\n" := by
                      unfold append at hclosed
                      split at hclosed
                      · cases hclosed
                      · exact (Option.some.inj hclosed).symm
                    have hmiddle : framed = fields ++ (if response.bodyKind ≠ .stream then
                        ascii "Content-Length: " ++ unsigned (announcedLength response) ++ crlf else []) := by
                      split at hframed
                      · rename_i hkind
                        rw [if_pos hkind, appendAll_eq hframed]
                        simp
                      · rename_i hkind
                        rw [if_neg hkind, ← Option.some.inj hframed, append_nil]
                    rw [hend, hmiddle, appendHeaders_eq hfields, appendAll_eq hstatusLine]
                    simp [serializedHead]
                  · intro hkind
                    by_contra hsuppress
                    exact hheadOnly ⟨hkind, hsuppress⟩

theorem appendHeaders_error (h : appendHeaders header headers = .error status) : status ≠ .ok := by
  induction headers generalizing header with
  | nil => cases h
  | cons next rest ih =>
    rw [appendHeaders] at h
    split at h
    · cases h
      exact nofun
    · split at h
      · cases h
        exact nofun
      · exact ih h

theorem serialize_error (h : serialize response suppressBody = .error status) : status ≠ .ok := by
  unfold serialize at h
  by_cases hok : status = .ok
  · subst hok
    repeat' split at h
    all_goals cases h
    rename_i hheaders
    exact appendHeaders_error hheaders
  · exact hok

/-- The body of a response, as far as its stream has given it. -/
def bodyOf (response : HttpResponse) (suppressBody : Bool) (events : List HttpEvent) : Bytes :=
  if suppressBody then []
  else
    match response.bodyKind with
    | .fixed => response.fixedBody
    | .stream => streamed events
    | .empty | .headOnly => []

/-- The response takes its stream over. -/
def Activates (response : HttpResponse) (suppressBody : Bool) : Prop :=
  response.bodyKind = .stream ∧ suppressBody = false

/-! ### The writer at work -/

section Writing

variable {response : HttpResponse} {suppressBody : Bool}

/-- How far the response has been sent, by the state of the writer. -/
def Reached (response : HttpResponse) (suppressBody : Bool) (w : HttpResponseWriter)
    (events : List HttpEvent) : Prop :=
  match w.state with
  | .idle => False
  | .headers =>
    w.headerOffset < w.header.length ∧ sent events = w.header.take w.headerOffset ∧
      streamed events = [] ∧ w.streamBuffer = [] ∧ w.streamOffset = 0 ∧ w.fixedOffset = 0
  | .fixedBody =>
    response.bodyKind = .fixed ∧ suppressBody = false ∧
      w.fixedOffset < response.fixedBody.length ∧
      sent events = w.header ++ response.fixedBody.take w.fixedOffset
  | .streamBody =>
    Activates response suppressBody ∧ w.streamOffset ≤ w.streamBuffer.length ∧
      sent events ++ w.streamBuffer.drop w.streamOffset = w.header ++ streamed events
  | .complete =>
    sent events = w.header ++ bodyOf response suppressBody events ∧
      (Activates response suppressBody → w.streamFinished = true)
  | .failed => sent events <+: w.header ++ bodyOf response suppressBody events

/-- The writer is at work on this response, and these are the exchanges since it was started. -/
structure Writing (response : HttpResponse) (suppressBody : Bool) (w : HttpResponseWriter)
    (events : List HttpEvent) : Prop where
  response_eq : w.response = response
  suppress_eq : w.suppressBody = suppressBody
  header_eq : w.header = serializedHead response
  activated : w.streamActivated = true ↔ Activates response suppressBody
  stream : Activates response suppressBody → response.stream ≠ none
  finished : w.streamFinished = true → w.state = .complete
  cancelled : w.streamCancelled = true ↔ w.state = .failed ∧ Activates response suppressBody
  cancels_eq : cancels events = if w.streamCancelled then 1 else 0
  reached : Reached response suppressBody w events

variable {w : HttpResponseWriter} {events : List HttpEvent}

theorem Writing.sent_prefix (h : Writing response suppressBody w events) :
    sent events <+: serializedHead response ++ bodyOf response suppressBody events := by
  have hreached := h.reached
  rw [← h.header_eq]
  unfold Reached at hreached
  split at hreached
  · exact hreached.elim
  · rw [hreached.2.1]
    exact ( take_prefix _ _).trans (prefix_append _ _)
  · obtain ⟨hkind, hsuppress, -, hsent⟩ := hreached
    rw [hsent, bodyOf, hsuppress, hkind]
    exact (prefix_append_right_inj _).mpr ( take_prefix _ _)
  · obtain ⟨⟨hkind, hsuppress⟩, -, hsent⟩ := hreached
    have hbody : bodyOf response suppressBody events = streamed events := by
      simp [bodyOf, hsuppress, hkind]
    rw [hbody, ← hsent]
    exact prefix_append _ _
  · rw [hreached.1]
  · exact hreached

/-- The surroundings of the proofs: they answer anything. -/
abbrev writerContract : Contract (httpSignature.shared HttpResponseWriter) (List HttpEvent) :=
  (historyContract httpSignature fun _ => True).alone HttpResponseWriter

/-- What a pending write has done. -/
structure Wrote (data : Bytes) (offset : Nat) (status : HttpResponseWriteStatus) (advance : Nat)
    (past now : List HttpEvent) : Prop where
  bounded : advance ≤ data.length - offset
  stopped : status ≠ .pending → advance = 0
  incomplete : status ≠ .complete
  sent_eq : sent now = sent past ++ (data.drop offset).take advance
  streamed_eq : streamed now = streamed past
  cancels_eq : cancels now = cancels past

variable {status : HttpResponseWriteStatus} {past now : List HttpEvent} {w' : HttpResponseWriter}
  {answer : HttpStreamReadResult × Bytes}

/-- An exchange in which the transport took `advance` bytes. -/
theorem Wrote.exchange {transport : TransportId} {data : Bytes} {offset advance : Nat} {answer : HttpIoStatus × Nat}
    (hbounded : advance ≤ data.length - offset) (hstopped : status ≠ .pending → advance = 0)
    (hincomplete : status ≠ .complete)
    (hsent : sentBy ⟨.transportWrite transport (data.drop offset), answer⟩ =
      (data.drop offset).take advance) :
    Wrote data offset status advance past
      (past ++ [⟨.transportWrite transport (data.drop offset), answer⟩]) where
  bounded := hbounded
  stopped := hstopped
  incomplete := hincomplete
  sent_eq := by
    rw [sent_append, ← hsent]
    exact congrArg (sent past ++ ·) (append_nil _)
  streamed_eq := by
    rw [streamed_append]
    exact append_nil _
  cancels_eq := by
    rw [cancels_append]
    rfl

theorem writePending_holds (transport : TransportId) (data : Bytes) (offset : Nat)
    (w : HttpResponseWriter) (past : List HttpEvent) :
    (writePending transport data offset).Holds writerContract
      (fun r w' now => w' = w ∧ Wrote data offset r.1 r.2 past now) w past := by
  unfold writePending
  by_cases hoffset : offset ≥ data.length
  · rw [if_pos hoffset]
    exact ⟨rfl, ⟨Nat.zero_le _, by simp, by simp, by simp, rfl, rfl⟩⟩
  · rw [if_neg hoffset]
    refine Method.Holds.alone_call_bind trivial ?_
    rintro ⟨status, size⟩ now rfl
    cases status with
    | progress =>
      by_cases hsize : size = 0 ∨ size > data.length - offset
      · show Method.Holds writerContract _ (if size = 0 ∨ size > data.length - offset then _ else _) w _
        rw [if_pos hsize]
        refine ⟨rfl, .exchange (Nat.zero_le _) (by simp) (by simp) ?_⟩
        rcases hsize with rfl | hsize
        · simp [sentBy]
        · have hover : ¬ size ≤ data.length - offset := by omega
          simp [sentBy, hover]
      · show Method.Holds writerContract _ (if size = 0 ∨ size > data.length - offset then _ else _) w _
        rw [if_neg hsize]
        have hfits : size ≤ data.length - offset := by omega
        exact ⟨rfl, .exchange hfits (by simp) (by simp) (by simp [sentBy, hfits])⟩
    | wouldBlock =>
      by_cases hsize : size ≠ 0
      · show Method.Holds writerContract _ (if size ≠ 0 then _ else _) w _
        rw [if_pos hsize]
        exact ⟨rfl, .exchange (Nat.zero_le _) (by simp) (by simp) (by simp [sentBy])⟩
      · show Method.Holds writerContract _ (if size ≠ 0 then _ else _) w _
        rw [if_neg hsize]
        exact ⟨rfl, .exchange (Nat.zero_le _) (by simp) (by simp) (by simp [sentBy])⟩
    | closed | error => exact ⟨rfl, .exchange (Nat.zero_le _) (by simp) (by simp) (by simp [sentBy])⟩

theorem Writing.not_finished (h : Writing response suppressBody w events) (hstate : w.state ≠ .complete) :
    w.streamFinished ≠ true := fun hfinished => hstate (h.finished hfinished)

theorem Writing.moved (h : Writing response suppressBody w past) (hfailed : w.state ≠ .failed)
    (hfailed' : w'.state ≠ .failed) (hresponse : w'.response = w.response) (hsuppress : w'.suppressBody = w.suppressBody)
    (hheader : w'.header = w.header) (hactivated : w'.streamActivated = w.streamActivated)
    (hcancelled : w'.streamCancelled = w.streamCancelled)
    (hfinished : w'.streamFinished = true → w'.state = .complete)
    (hcancels : cancels now = cancels past) (hreached : Reached response suppressBody w' now) :
    Writing response suppressBody w' now where
  response_eq := hresponse.trans h.response_eq
  suppress_eq := hsuppress.trans h.suppress_eq
  header_eq := hheader.trans h.header_eq
  activated := by rw [hactivated]; exact h.activated
  stream := h.stream
  finished := hfinished
  cancelled := by
    rw [hcancelled, h.cancelled]
    exact ⟨fun hcancel => absurd hcancel.1 hfailed, fun hcancel => absurd hcancel.1 hfailed'⟩
  cancels_eq := by rw [hcancels, hcancelled]; exact h.cancels_eq
  reached := hreached

theorem Writing.entered (h : Writing response suppressBody w past)
    (hstate : w.state = .headers) (hsent : sent now = w.header) (hstreamed : streamed now = [])
    (hcancels : cancels now = cancels past) (hbuffer : w.streamBuffer = [])
    (hstreamOffset : w.streamOffset = 0) (hfixedOffset : w.fixedOffset = 0) (offset : Nat) :
    Writing response suppressBody (enterBodyState { w with headerOffset := offset }) now ∧
      (enterBodyState { w with headerOffset := offset }).state ≠ .failed := by
  have hnotFinished := h.not_finished (by rw [hstate]; exact nofun)
  have hnotFailed : w.state ≠ .failed := by rw [hstate]; exact nofun
  unfold enterBodyState
  split
  · rename_i hnobody
    have hnone : ¬ Activates response suppressBody := by
      rintro ⟨hkind, hsuppress⟩
      rcases hnobody with hsuppressed | hempty | hheadOnly | hfixed
      · exact absurd (h.suppress_eq.symm.trans hsuppressed) (by simp [hsuppress])
      all_goals simp_all [h.response_eq]
    have hbody : bodyOf response suppressBody now = [] := by
      unfold bodyOf
      by_cases hsuppress : suppressBody = true
      · rw [if_pos hsuppress]
      · rw [if_neg hsuppress]
        rcases hnobody with hsuppressed | hempty | hheadOnly | ⟨hkind, hfixed⟩
        · exact absurd (h.suppress_eq.symm.trans hsuppressed) hsuppress
        · rw [h.response_eq] at hempty
          rw [hempty]
        · rw [h.response_eq] at hheadOnly
          rw [hheadOnly]
        · rw [h.response_eq] at hkind hfixed
          rw [hkind]
          exact length_eq_zero_iff.mp hfixed
    refine ⟨h.moved hnotFailed nofun rfl rfl rfl rfl rfl (fun _ => rfl) hcancels ⟨?_, fun hactivates =>
      absurd hactivates hnone⟩, nofun⟩
    rw [hbody, append_nil]
    exact hsent
  · rename_i hbody
    simp only [not_or, h.response_eq] at hbody
    obtain ⟨hsuppressed, hempty, hheadOnly, hfixedEmpty⟩ := hbody
    have hsuppress : suppressBody = false := by
      rw [← h.suppress_eq]
      exact Bool.eq_false_iff.mpr hsuppressed
    split
    · rename_i hkind
      have hkind : response.bodyKind = .fixed := h.response_eq ▸ hkind
      refine ⟨h.moved hnotFailed nofun rfl rfl rfl rfl rfl
        (fun hfinished => absurd hfinished hnotFinished) hcancels ⟨hkind, hsuppress, ?_, ?_⟩, nofun⟩
      · show w.fixedOffset < _
        have hlength : response.fixedBody.length ≠ 0 := fun hzero => hfixedEmpty ⟨hkind, hzero⟩
        omega
      · show sent now = w.header ++ response.fixedBody.take w.fixedOffset
        rw [hsent, hfixedOffset, take_zero, append_nil]
    · split
      · rename_i hkind
        have hkind : response.bodyKind = .stream := h.response_eq ▸ hkind
        refine ⟨h.moved hnotFailed nofun rfl rfl rfl rfl rfl
          (fun hfinished => absurd hfinished hnotFinished) hcancels ⟨⟨hkind, hsuppress⟩, ?_, ?_⟩, nofun⟩
        · show w.streamOffset ≤ w.streamBuffer.length
          omega
        · show sent now ++ w.streamBuffer.drop w.streamOffset = w.header ++ streamed now
          rw [hsent, hbuffer, hstreamed, drop_nil]
      · rename_i hnotFixed hnotStream
        rw [h.response_eq] at hnotFixed hnotStream
        cases hkind : response.bodyKind <;> contradiction

/-- What a poll ensures: the writer reports completion when it is complete, and a response is not
given up here. -/
structure Polled (response : HttpResponse) (suppressBody : Bool) (w : HttpResponseWriter)
    (status : HttpResponseWriteStatus) (w' : HttpResponseWriter) (events : List HttpEvent) : Prop where
  writing : Writing response suppressBody w' events
  complete : status = .complete ↔ w'.state = .complete
  failed : w'.state = .failed ↔ w.state = .failed
  stays : w.state = .complete → w'.state = .complete

theorem Writing.polled (h : Writing response suppressBody w' events) (hstate : w.state ≠ .complete)
    (hsame : w'.state = w.state) (hstatus : status ≠ .complete) :
    Polled response suppressBody w status w' events where
  writing := h
  complete := ⟨fun hcomplete => absurd hcomplete hstatus, fun hcomplete =>
    absurd (hsame.symm.trans hcomplete) hstate⟩
  failed := by rw [hsame]
  stays hcomplete := absurd hcomplete hstate

theorem Writing.advanced (h : Writing response suppressBody w' events) (hstate : w.state ≠ .complete)
    (hnotFailed : w.state ≠ .failed) (hnotFailed' : w'.state ≠ .failed)
    (hstatus : status = .complete ↔ w'.state = .complete) :
    Polled response suppressBody w status w' events where
  writing := h
  complete := hstatus
  failed := ⟨fun hfailed => absurd hfailed hnotFailed', fun hfailed => absurd hfailed hnotFailed⟩
  stays hcomplete := absurd hcomplete hstate

theorem pollHeaders_holds (transport : TransportId) (h : Writing response suppressBody w past)
    (hstate : w.state = .headers) :
    (poll transport).Holds writerContract
      (fun r w' now => Polled response suppressBody w r.1 w' now) w past := by
  obtain ⟨hoffset, hsent, hstreamed, hbuffer, hstreamOffset, hfixedOffset⟩ :
      w.headerOffset < w.header.length ∧ sent past = w.header.take w.headerOffset ∧
        streamed past = [] ∧ w.streamBuffer = [] ∧ w.streamOffset = 0 ∧ w.fixedOffset = 0 := by
    have hreached := h.reached
    rwa [Reached, hstate] at hreached
  obtain ⟨hnotComplete, hnotFailed⟩ : w.state ≠ .complete ∧ w.state ≠ .failed := by simp [hstate]
  unfold poll
  rw [holds_bind, holds_get]
  simp only [hstate]
  refine (writePending_holds transport w.header w.headerOffset w past).bind ?_
  rintro ⟨status, advance⟩ w' now ⟨rfl, hwrote⟩
  have hbounded := hwrote.bounded
  have hnow : sent now = w'.header.take (w'.headerOffset + advance) := by
    rw [hwrote.sent_eq, hsent, take_add]
  have hstreamedNow : streamed now = [] := hwrote.streamed_eq.trans hstreamed
  have hheaders (hleft : w'.headerOffset + advance < w'.header.length) :
      Writing response suppressBody { w' with headerOffset := w'.headerOffset + advance } now := by
    refine h.moved hnotFailed hnotFailed rfl rfl rfl rfl rfl
      (fun hfinished => absurd hfinished (h.not_finished hnotComplete)) hwrote.cancels_eq ?_
    rw [Reached, hstate]
    exact ⟨hleft, hnow, hstreamedNow, hbuffer, hstreamOffset, hfixedOffset⟩
  rw [holds_bind, holds_modify]
  by_cases hstatus : status ≠ .pending
  · simp only [if_pos hstatus]
    have hnone := hwrote.stopped hstatus
    exact (hheaders (by omega)).polled hnotComplete rfl hwrote.incomplete
  · simp only [if_neg hstatus]
    rw [holds_bind, holds_get]
    by_cases hout : w'.headerOffset + advance = w'.header.length
    · simp only [if_pos hout]
      have hall : sent now = w'.header := by rw [hnow, hout, take_length]
      have hentered := h.entered hstate hall hstreamedNow hwrote.cancels_eq hbuffer hstreamOffset
        hfixedOffset (w'.headerOffset + advance)
      refine hentered.1.advanced hnotComplete hnotFailed hentered.2 ?_
      split
      · rename_i hcomplete
        exact ⟨fun _ => hcomplete, fun _ => rfl⟩
      · rename_i hcomplete
        exact ⟨nofun, fun h => absurd h hcomplete⟩
    · simp only [if_neg hout]
      exact (hheaders (by omega)).polled hnotComplete rfl nofun

theorem pollFixed_holds (transport : TransportId) (h : Writing response suppressBody w past)
    (hstate : w.state = .fixedBody) :
    (poll transport).Holds writerContract
      (fun r w' now => Polled response suppressBody w r.1 w' now) w past := by
  obtain rfl := h.response_eq
  obtain ⟨hkind, hsuppress, hoffset, hsent⟩ : w.response.bodyKind = .fixed ∧ suppressBody = false ∧
      w.fixedOffset < w.response.fixedBody.length ∧
      sent past = w.header ++ w.response.fixedBody.take w.fixedOffset := by
    have hreached := h.reached
    rwa [Reached, hstate] at hreached
  obtain ⟨hnotComplete, hnotFailed⟩ : w.state ≠ .complete ∧ w.state ≠ .failed := by simp [hstate]
  unfold poll
  rw [holds_bind, holds_get]
  simp only [hstate]
  refine (writePending_holds transport w.response.fixedBody w.fixedOffset w past).bind ?_
  rintro ⟨status, advance⟩ w' now ⟨rfl, hwrote⟩
  have hbounded := hwrote.bounded
  have hnow : sent now = w'.header ++ w'.response.fixedBody.take (w'.fixedOffset + advance) := by
    rw [hwrote.sent_eq, hsent, append_assoc, take_add]
  have hbody (hleft : w'.fixedOffset + advance < w'.response.fixedBody.length) :
      Writing w'.response suppressBody { w' with fixedOffset := w'.fixedOffset + advance } now := by
    refine h.moved hnotFailed hnotFailed rfl rfl rfl rfl rfl
      (fun hfinished => absurd hfinished (h.not_finished hnotComplete)) hwrote.cancels_eq ?_
    rw [Reached, hstate]
    exact ⟨hkind, hsuppress, hleft, hnow⟩
  rw [holds_bind, holds_modify]
  by_cases hstatus : status ≠ .pending
  · simp only [if_pos hstatus]
    have hnone := hwrote.stopped hstatus
    exact (hbody (by omega)).polled hnotComplete rfl hwrote.incomplete
  · simp only [if_neg hstatus]
    rw [holds_bind, holds_get]
    by_cases hout : w'.fixedOffset + advance = w'.response.fixedBody.length
    · simp only [if_pos hout]
      rw [holds_bind, holds_modify]
      refine Writing.advanced (h.moved hnotFailed nofun rfl rfl rfl rfl rfl (fun _ => rfl)
        hwrote.cancels_eq ⟨?_, ?_⟩) hnotComplete hnotFailed nofun ⟨fun _ => rfl, fun _ => rfl⟩
      · show sent now = w'.header ++ bodyOf w'.response suppressBody now
        rw [hnow, hout, take_length, bodyOf, hsuppress, hkind]
        rfl
      · rintro ⟨hstream, -⟩
        rw [hkind] at hstream
        cases hstream
    · simp only [if_neg hout]
      exact (hbody (by omega)).polled hnotComplete rfl nofun

theorem Writing.streaming (h : Writing response suppressBody w past) (hstate : w.state = .streamBody) :
    Activates response suppressBody ∧ w.streamOffset ≤ w.streamBuffer.length ∧
      sent past ++ w.streamBuffer.drop w.streamOffset = w.header ++ streamed past := by
  have hreached := h.reached
  rwa [Reached, hstate] at hreached

theorem pollFragment_holds (transport : TransportId) (h : Writing response suppressBody w past)
    (hstate : w.state = .streamBody) :
    (pollFragment transport).Holds writerContract
      (fun r w' now => Polled response suppressBody w r.1 w' now) w past := by
  obtain ⟨hactivates, hoffset, hsent⟩ := h.streaming hstate
  have hnotFailed : w.state ≠ .failed := by rw [hstate]; exact nofun
  unfold pollFragment
  rw [holds_bind, holds_get]
  refine (writePending_holds transport w.streamBuffer w.streamOffset w past).bind ?_
  rintro ⟨status, advance⟩ w' now ⟨rfl, hwrote⟩
  have hbounded := hwrote.bounded
  refine Writing.polled (h.moved hnotFailed hnotFailed rfl rfl rfl rfl rfl h.finished
    hwrote.cancels_eq ?_) (by rw [hstate]; exact nofun) rfl hwrote.incomplete
  rw [Reached, hstate]
  refine ⟨hactivates, ?_, ?_⟩
  · show w'.streamOffset + advance ≤ w'.streamBuffer.length
    omega
  · show sent now ++ w'.streamBuffer.drop (w'.streamOffset + advance) = w'.header ++ streamed now
    rw [hwrote.sent_eq, hwrote.streamed_eq, ← hsent, append_assoc, ← drop_drop, take_append_drop]

theorem sent_read (stream : StreamId) (capacity : Nat) :
    sent (past ++ [⟨.streamRead stream capacity, answer⟩]) = sent past := by
  rw [sent_append]
  exact append_nil _

theorem cancels_read (stream : StreamId) (capacity : Nat) :
    cancels (past ++ [⟨.streamRead stream capacity, answer⟩]) = cancels past := by
  rw [cancels_append]
  rfl

theorem Writing.filled {stream : StreamId} {capacity : Nat} {buffer : Bytes}
    (h : Writing response suppressBody w past)
    (hstate : w.state = .streamBody) (hactivates : Activates response suppressBody)
    (hsent : sent past = w.header ++ streamed past)
    (hgiven : streamedBy ⟨.streamRead stream capacity, answer⟩ = buffer) :
    Writing response suppressBody { w with streamOffset := 0, streamBuffer := buffer }
      (past ++ [⟨.streamRead stream capacity, answer⟩]) := by
  have hnotFailed : w.state ≠ .failed := by rw [hstate]; exact nofun
  refine h.moved hnotFailed hnotFailed rfl rfl rfl rfl rfl h.finished (cancels_read _ _) ?_
  rw [Reached, hstate]
  refine ⟨hactivates, Nat.zero_le _, ?_⟩
  rw [sent_read, streamed_append, hsent]
  simp [streamed, hgiven]

/-- The stream is asked for more only once its last fragment is out. -/
theorem pollStream_holds (transport : TransportId) (h : Writing response suppressBody w past)
    (hstate : w.state = .streamBody) :
    (poll transport).Holds writerContract
      (fun r w' now => Polled response suppressBody w r.1 w' now) w past := by
  obtain ⟨hactivates, hoffset, hsent⟩ := h.streaming hstate
  obtain ⟨hnotComplete, hnotFailed⟩ : w.state ≠ .complete ∧ w.state ≠ .failed := by simp [hstate]
  unfold poll
  rw [holds_bind, holds_get]
  simp only [hstate]
  by_cases hempty : w.streamOffset = w.streamBuffer.length
  · simp only [if_pos hempty]
    rw [hempty, drop_length, append_nil] at hsent
    rw [holds_bind, holds_modify]
    refine Method.Holds.alone_call_bind trivial ?_
    rintro ⟨read, produced⟩ now rfl
    have hunmoved {status : HttpResponseWriteStatus} (hgiven : streamedBy ⟨.streamRead
        (w.response.stream.getD 0) httpResponseStreamBufferBytes, (read, produced)⟩ = [])
        (hstatus : status ≠ .complete) :=
      (h.filled hstate hactivates hsent hgiven).polled (w := w) hnotComplete rfl hstatus
    cases read with
    | wouldBlock => exact hunmoved (by simp [streamedBy]) (by split <;> exact nofun)
    | error => exact hunmoved (by simp [streamedBy]) nofun
    | ended =>
      by_cases hproduced : produced ≠ []
      · simp only [if_pos hproduced]
        exact hunmoved (by simp [streamedBy]) nofun
      · simp only [if_neg hproduced]
        refine Writing.advanced (h.moved hnotFailed nofun rfl rfl rfl rfl rfl (fun _ => rfl)
          (cancels_read _ _) ⟨?_, fun _ => rfl⟩) hnotComplete hnotFailed nofun
          ⟨fun _ => rfl, fun _ => rfl⟩
        have hbody (events : List HttpEvent) :
            bodyOf response suppressBody events = streamed events := by
          rw [bodyOf, hactivates.1, hactivates.2]
          rfl
        rw [hbody, sent_read, streamed_append, hsent]
        simp [streamed, streamedBy]
    | data =>
      by_cases hbad : produced = [] ∨ produced.length > httpResponseStreamBufferBytes
      · simp only [if_pos hbad]
        refine hunmoved ?_ nofun
        rcases hbad with rfl | hlarge
        · simp [streamedBy]
        · have hover : ¬ produced.length ≤ httpResponseStreamBufferBytes := by omega
          simp [streamedBy, hover]
      · simp only [if_neg hbad]
        rw [holds_bind, holds_modify]
        have hfits : produced.length ≤ httpResponseStreamBufferBytes := by
          omega
        have hgiven : streamedBy ⟨.streamRead (w.response.stream.getD 0)
            httpResponseStreamBufferBytes, (.data, produced)⟩ = produced := by
          simp [streamedBy, hfits]
        refine (pollFragment_holds transport (h.filled hstate hactivates hsent hgiven) hstate).mono ?_
        intro r w' now hpolled
        exact ⟨hpolled.writing, hpolled.complete, hpolled.failed, hpolled.stays⟩
  · simp only [if_neg hempty]
    exact pollFragment_holds transport h hstate

theorem poll_holds (transport : TransportId) (h : Writing response suppressBody w past) :
    (poll transport).Holds writerContract
      (fun r w' now => Polled response suppressBody w r.1 w' now) w past := by
  cases hstate : w.state with
  | headers => exact pollHeaders_holds transport h hstate
  | fixedBody => exact pollFixed_holds transport h hstate
  | streamBody => exact pollStream_holds transport h hstate
  | idle =>
    have hreached := h.reached
    rw [Reached, hstate] at hreached
    exact hreached.elim
  | complete =>
    unfold poll
    rw [holds_bind, holds_get]
    simp only [hstate]
    exact ⟨h, ⟨fun _ => hstate, fun _ => rfl⟩, Iff.rfl, id⟩
  | failed =>
    unfold poll
    rw [holds_bind, holds_get]
    simp only [hstate]
    exact h.polled (by rw [hstate]; exact nofun) rfl nofun

/-- Giving the response up cancels the stream that was taken over, unless the response was complete
or had been given up before. -/
theorem abort_holds (h : Writing response suppressBody w past) :
    abort.Holds writerContract (fun _ w' now => Writing response suppressBody w' now ∧
      (w'.state = .complete ↔ w.state = .complete) ∧ (w'.state = .failed ↔ w.state ≠ .complete))
      w past := by
  unfold abort
  rw [holds_bind, holds_get]
  by_cases hcancel : w.streamActivated ∧ ¬ w.streamFinished ∧ ¬ w.streamCancelled
  · have ⟨hactivated, hnotFinished, hnotCancelled⟩ := hcancel
    have hactivates := h.activated.mp hactivated
    have hnotComplete : w.state ≠ .complete := by
      intro hcomplete
      have hreached := h.reached
      rw [Reached, hcomplete] at hreached
      exact hnotFinished (hreached.2 hactivates)
    obtain ⟨stream, hstream⟩ := Option.ne_none_iff_exists'.mp (h.stream hactivates)
    rw [← h.response_eq] at hstream
    simp only [if_pos hcancel, hstream]
    refine Method.Holds.alone_call_bind trivial ?_
    rintro answer now rfl
    rw [holds_bind, holds_modify, holds_modify]
    simp only [if_pos hnotComplete]
    refine ⟨?_, by simp [hnotComplete], by simp [hnotComplete]⟩
    have hsent : sent (past ++ [⟨.streamCancel stream, answer⟩]) = sent past := by
      rw [sent_append]
      exact append_nil _
    have hstreamed : streamed (past ++ [⟨.streamCancel stream, answer⟩]) = streamed past := by
      rw [streamed_append]
      exact append_nil _
    have hnone : cancels past = 0 := by
      rw [h.cancels_eq]
      exact if_neg hnotCancelled
    constructor
    · exact h.response_eq
    · exact h.suppress_eq
    · exact h.header_eq
    · exact h.activated
    · exact h.stream
    · exact fun hfinished => absurd hfinished hnotFinished
    · exact ⟨fun _ => ⟨rfl, hactivates⟩, fun _ => rfl⟩
    · rw [cancels_append, hnone]
      rfl
    · show sent _ <+: w.header ++ bodyOf response suppressBody _
      rw [bodyOf, hstreamed, hsent, h.header_eq]
      exact h.sent_prefix
  · simp only [if_neg hcancel]
    rw [holds_modify]
    by_cases hcomplete : w.state = .complete
    · simp only [if_neg (not_not_intro hcomplete)]
      exact ⟨h, by simp, by simp [hcomplete]⟩
    · simp only [if_pos hcomplete]
      refine ⟨?_, by simp [hcomplete], by simp [hcomplete]⟩
      have hnotFinished := h.not_finished hcomplete
      constructor
      · exact h.response_eq
      · exact h.suppress_eq
      · exact h.header_eq
      · exact h.activated
      · exact h.stream
      · exact fun hfinished => absurd hfinished hnotFinished
      · constructor
        · intro hcancelled
          exact ⟨rfl, (h.cancelled.mp hcancelled).2⟩
        · rintro ⟨-, hactivates⟩
          by_contra hnotCancelled
          exact hcancel ⟨h.activated.mpr hactivates, hnotFinished, hnotCancelled⟩
      · exact h.cancels_eq
      · show sent past <+: w.header ++ bodyOf response suppressBody past
        rw [h.header_eq]
        exact h.sent_prefix

end Writing

/-! ### Every schedule -/

/-- What the owner of a writer does with it while it sends a response. -/
inductive WriterAct
  | poll (transport : TransportId)
  | abort

def WriterAct.perform : WriterAct → WriterMethod (Option HttpResponseWriteStatus)
  | .poll transport => do return some (← HttpResponseWriter.poll transport).1
  | .abort => do
    HttpResponseWriter.abort
    return none

def drive : List WriterAct → WriterMethod (List (Option HttpResponseWriteStatus))
  | [] => pure []
  | next :: rest => do
    let status ← next.perform
    return status :: (← drive rest)

/-- One response, from `Start` on. -/
def respond (response : HttpResponse) (suppressBody : Bool) (acts : List WriterAct) :
    WriterMethod (HttpResponseStartStatus × List (Option HttpResponseWriteStatus)) := do
  let started ← start response suppressBody
  return (started, ← drive acts)

section Writing

variable {response : HttpResponse} {suppressBody : Bool} {w : HttpResponseWriter}
  {past : List HttpEvent}

structure Acted (response : HttpResponse) (suppressBody : Bool) (next : WriterAct)
    (w : HttpResponseWriter) (status : Option HttpResponseWriteStatus) (w' : HttpResponseWriter)
    (events : List HttpEvent) : Prop where
  writing : Writing response suppressBody w' events
  complete : w'.state = .complete ↔ w.state = .complete ∨ status = some .complete
  failed : w'.state = .failed ↔ w.state = .failed ∨ next = .abort ∧ w.state ≠ .complete

theorem perform_holds (next : WriterAct) (h : Writing response suppressBody w past) :
    next.perform.Holds writerContract
      (fun status w' now => Acted response suppressBody next w status w' now) w past := by
  cases next with
  | poll transport =>
    refine (poll_holds transport h).bind ?_
    intro r w' now hpolled
    refine ⟨hpolled.writing, ?_, ?_⟩
    · rw [Option.some.injEq, hpolled.complete]
      exact ⟨.inr, fun h => h.elim hpolled.stays id⟩
    · rw [hpolled.failed]
      simp
  | abort =>
    refine (abort_holds h).bind ?_
    rintro ⟨⟩ w' now ⟨hwriting, hcomplete, hfailed⟩
    refine ⟨hwriting, by simp [hcomplete], ?_⟩
    rw [hfailed]
    constructor
    · exact fun hnot => .inr ⟨rfl, hnot⟩
    · rintro (hstate | ⟨-, hnot⟩)
      · rw [hstate]
        exact nofun
      · exact hnot

/-- A response is complete once a poll says so, and given up once it is aborted before. -/
theorem drive_holds (acts : List WriterAct) (h : Writing response suppressBody w past) :
    (drive acts).Holds writerContract (fun statuses w' now => Writing response suppressBody w' now ∧
      (w'.state = .complete ↔ w.state = .complete ∨ some .complete ∈ statuses) ∧
      (w'.state = .failed ↔ w.state = .failed ∨ .abort ∈ acts ∧ w'.state ≠ .complete)) w past := by
  induction acts generalizing w past with
  | nil => exact ⟨h, by simp, by simp⟩
  | cons next rest ih =>
    refine (perform_holds next h).bind ?_
    intro status w' now hacted
    refine (ih hacted.writing).bind ?_
    rintro statuses w'' later ⟨hwriting, hcomplete, hfailed⟩
    refine ⟨hwriting, ?_, ?_⟩
    · rw [hcomplete, hacted.complete, mem_cons, or_assoc]
      simp only [eq_comm]
    · rw [hfailed, hacted.failed, mem_cons]
      have hlater := hcomplete
      rw [hacted.complete] at hlater
      constructor
      · rintro ((hw | hgivenUp) | ⟨habort, hnot⟩)
        · exact .inl hw
        · have hlast : w''.state = .failed := hfailed.mpr (.inl (hacted.failed.mpr (.inr hgivenUp)))
          obtain ⟨rfl, -⟩ := hgivenUp
          exact .inr ⟨.inl rfl, by rw [hlast]; exact nofun⟩
        · exact .inr ⟨.inr habort, hnot⟩
      · rintro (hw | ⟨rfl | habort, hnot⟩)
        · exact .inl (.inl hw)
        · exact .inl (.inr ⟨rfl, fun hw => hnot (hlater.mpr (.inl (.inl hw)))⟩)
        · exact .inr ⟨habort, hnot⟩

theorem drive_refused (acts : List WriterAct) (hstate : w.state = .failed) (hactivated : w.streamActivated = false) :
    (drive acts).Holds writerContract (fun _ _ now => now = past) w past := by
  induction acts generalizing w with
  | nil => rfl
  | cons next rest ih =>
    refine Method.Holds.bind (P := fun _ w' now => w'.state = .failed ∧ w'.streamActivated = false ∧
      now = past) ?_ ?_
    · cases next with
      | poll transport =>
        rw [WriterAct.perform]
        unfold poll
        rw [holds_bind, holds_bind, holds_get]
        simp only [hstate]
        exact ⟨hstate, hactivated, rfl⟩
      | abort =>
        rw [WriterAct.perform]
        unfold abort
        rw [holds_bind, holds_bind, holds_get]
        have hnone : ¬ (w.streamActivated ∧ ¬ w.streamFinished ∧ ¬ w.streamCancelled) := by
          simp [hactivated]
        simp only [if_neg hnone]
        simp [hstate, hactivated]
    · rintro status w' now ⟨hstate', hactivated', rfl⟩
      exact (ih hstate' hactivated').bind fun _ _ _ hnow => hnow

/-- What `Start` does: it gives up the response before, and accepts the new one or not. -/
structure Started (response : HttpResponse) (suppressBody : Bool) (w : HttpResponseWriter)
    (status : HttpResponseStartStatus) (w' : HttpResponseWriter) (retired : List HttpEvent) : Prop where
  inactive : w.active = false → retired = []
  silent : sent retired = []
  accepted : status = .ok → w'.state = .headers ∧ Writing response suppressBody w' [] ∧
    (response.bodyKind = .headOnly → suppressBody = true)
  refused : status ≠ .ok → w'.state = .failed ∧ w'.streamActivated = false

theorem serializedHead_length : 0 < (serializedHead response).length := by
  rw [serializedHead, length_append]
  have hclose : 0 < (ascii "Connection: close\r\n\r\n").length := by decide
  omega

theorem Writing.fresh {header : Bytes} (h : serialize response suppressBody = .ok header) :
    Writing response suppressBody
      { response := response, state := .headers, suppressBody := suppressBody,
        streamActivated := response.bodyKind = .stream ∧ ¬ suppressBody, header := header } [] := by
  obtain ⟨rfl, -, hstream⟩ := serialize_eq h
  constructor
  · rfl
  · rfl
  · rfl
  · simp [Activates]
  · exact fun hactivates => hstream hactivates.1
  · exact nofun
  · exact ⟨nofun, fun h => absurd h.1 nofun⟩
  · rfl
  · exact ⟨serializedHead_length, by simp [sent], rfl, rfl, rfl, rfl⟩

theorem abort_silent (w : HttpResponseWriter) (past : List HttpEvent) :
    abort.Holds writerContract (fun _ _ now => sent now = sent past) w past := by
  unfold abort
  rw [holds_bind, holds_get]
  by_cases hcancel : w.streamActivated ∧ ¬ w.streamFinished ∧ ¬ w.streamCancelled
  · simp only [if_pos hcancel]
    cases w.response.stream with
    | none => rfl
    | some stream =>
      refine Method.Holds.alone_call_bind trivial ?_
      rintro answer now rfl
      rw [holds_bind, holds_modify, holds_modify, sent_append]
      exact append_nil _
  · simp only [if_neg hcancel]
    rfl

theorem serialized_holds {w' : HttpResponseWriter} {retired : List HttpEvent}
    (hinactive : w.active = false → retired = []) (hsilent : sent retired = []) :
    (match serialize response suppressBody with
      | .error status => do
        set ({ response := response, state := .failed, suppressBody := suppressBody } :
          HttpResponseWriter)
        return status
      | .ok header => do
        set ({ response := response, state := .headers, suppressBody := suppressBody,
               streamActivated := response.bodyKind = .stream ∧ ¬ suppressBody,
               header := header } : HttpResponseWriter)
        return HttpResponseStartStatus.ok : WriterMethod HttpResponseStartStatus).Holds
      writerContract (fun status w' now => Started response suppressBody w status w' now) w' retired := by
  cases hserialize : serialize response suppressBody with
  | error status =>
    exact ⟨hinactive, hsilent, fun hok => absurd hok (serialize_error hserialize), fun _ => ⟨rfl, rfl⟩⟩
  | ok header =>
    exact ⟨hinactive, hsilent, fun _ => ⟨rfl, .fresh hserialize, (serialize_eq hserialize).2.1⟩,
      fun hok => absurd rfl hok⟩

theorem start_holds : (start response suppressBody).Holds writerContract
    (fun status w' now => Started response suppressBody w status w' now) w [] := by
  unfold start
  rw [holds_bind, holds_get]
  by_cases hactive : w.active = true
  · simp only [if_pos hactive]
    refine (abort_silent w []).bind ?_
    intro _ w' retired hsilent
    exact serialized_holds (fun hinactive => absurd (hactive.symm.trans hinactive) Bool.true_eq_false.mp) hsilent
  · simp only [if_neg hactive]
    exact serialized_holds (fun _ => rfl) rfl

end Writing

/-- One response, from its start on, in the exchanges it caused. -/
structure Exact (response : HttpResponse) (suppressBody : Bool) (acts : List WriterAct)
    (statuses : List (Option HttpResponseWriteStatus)) (events : List HttpEvent) : Prop where
  sent_prefix : sent events <+: serializedHead response ++ bodyOf response suppressBody events
  complete_sent : some .complete ∈ statuses →
    sent events = serializedHead response ++ bodyOf response suppressBody events
  announced : suppressBody = false → response.bodyKind ≠ .stream →
    (bodyOf response suppressBody events).length = announcedLength response
  cancelled_once : cancels events ≤ 1
  cancelled : cancels events = 1 ↔
    Activates response suppressBody ∧ .abort ∈ acts ∧ some .complete ∉ statuses

theorem Writing.exact {w : HttpResponseWriter}
    {acts : List WriterAct} {statuses : List (Option HttpResponseWriteStatus)}
    {events : List HttpEvent} (h : Writing response suppressBody w events)
    (hheadOnly : response.bodyKind = .headOnly → suppressBody = true)
    (hcomplete : w.state = .complete ↔ some .complete ∈ statuses)
    (hfailed : w.state = .failed ↔ .abort ∈ acts ∧ w.state ≠ .complete) :
    Exact response suppressBody acts statuses events where
  sent_prefix := h.sent_prefix
  complete_sent hmem := by
    have hreached := h.reached
    rw [Reached, hcomplete.mpr hmem, h.header_eq] at hreached
    exact hreached.1
  announced hsuppress hkind := by
    unfold bodyOf announcedLength
    cases hbody : response.bodyKind with
    | stream => exact absurd hbody hkind
    | headOnly =>
      have hsuppressed := hheadOnly hbody
      rw [hsuppress] at hsuppressed
      cases hsuppressed
    | fixed => simp [hsuppress]
    | empty => simp
  cancelled_once := by
    rw [h.cancels_eq]
    split <;> omega
  cancelled := by
    rw [h.cancels_eq, ← hcomplete, ← ne_eq, ← hfailed]
    have hcancelled := h.cancelled
    constructor
    · intro hone
      by_cases hcancel : w.streamCancelled = true
      · exact ⟨(hcancelled.mp hcancel).2, (hcancelled.mp hcancel).1⟩
      · rw [if_neg hcancel] at hone
        cases hone
    · rintro ⟨hactivates, hstate⟩
      exact if_pos (hcancelled.mpr ⟨hstate, hactivates⟩)

/-- Whatever the transport and the stream do: what is sent begins the serialised head and the body,
completion is reported when all of it is sent, and a stream that was taken over is cancelled once,
exactly when its response is given up before. -/
theorem response_exact (response : HttpResponse) (suppressBody : Bool) (acts : List WriterAct)
    (w : HttpResponseWriter) {events : List HttpEvent}
    {result : (HttpResponseStartStatus × List (Option HttpResponseWriteStatus)) × HttpResponseWriter}
    (hrun : AnyRun ((respond response suppressBody acts).run w).alone events result) :
    ∃ retired new, events = retired ++ new ∧ (w.active = false → retired = []) ∧
      sent retired = [] ∧
      (result.1.1 = .ok → Exact response suppressBody acts result.1.2 new) ∧
      (result.1.1 ≠ .ok → new = []) := by
  have hstart : (start response suppressBody).Holds writerContract
      (fun status w' now => Started response suppressBody w status w' now) w [] := start_holds
  have hholds : (respond response suppressBody acts).Holds writerContract
      (fun r _ now => ∃ retired new, now = retired ++ new ∧ (w.active = false → retired = []) ∧
        sent retired = [] ∧ (r.1 = .ok → Exact response suppressBody acts r.2 new) ∧
        (r.1 ≠ .ok → new = [])) w [] := by
    unfold respond
    refine hstart.bind ?_
    intro started w' retired hstarted
    rw [← append_nil retired]
    by_cases hok : started = .ok
    · obtain ⟨hstate, hwriting, hheadOnly⟩ := hstarted.accepted hok
      refine ((drive_holds acts hwriting).after retired).bind ?_
      rintro statuses w'' now ⟨new, rfl, hlast, hcomplete, hfailed⟩
      refine ⟨retired, new, rfl, hstarted.inactive, hstarted.silent, fun _ => ?_, fun hnot => absurd hok hnot⟩
      rw [hstate] at hcomplete hfailed
      exact hlast.exact hheadOnly (by simpa using hcomplete) (by simpa using hfailed)
    · obtain ⟨hstate, hactivated⟩ := hstarted.refused hok
      have hdrive : (drive acts).Holds writerContract (fun _ _ now => now = []) w' [] :=
        drive_refused acts hstate hactivated
      refine (hdrive.after retired).bind ?_
      rintro statuses w'' now ⟨new, rfl, rfl⟩
      exact ⟨retired, [], rfl, hstarted.inactive, hstarted.silent, fun h => absurd h hok, fun _ => rfl⟩
  exact hrun.holds ((Program.holds_alone _ _).mpr hholds)

/-- A transport that takes thirty bytes at a time and a stream that gives `ab` again and again. -/
def shortWrites : Handler httpSignature Unit
  | .transportRead _ _, _ => ((.wouldBlock, []), ())
  | .transportWrite _ data, _ => ((.progress, min 30 data.length), ())
  | .transportClose _, _ => ((), ())
  | .route _, _ => ({}, ())
  | .errorResponse _ _, _ => ({}, ())
  | .sinkWrite _ _, _ => (true, ())
  | .sinkReject _, _ => (none, ())
  | .sinkFinish _, _ => (none, ())
  | .sinkAbort _ _, _ => ((), ())
  | .streamRead _ _, _ => ((.data, ascii "ab"), ())
  | .streamCancel _, _ => ((), ())
  | .complete _ _, _ => ((), ())

def sampleResponse : HttpResponse :=
  { statusCode := 200, reasonPhrase := ascii "OK", bodyKind := .stream, stream := some 7 }

/-- Three polls of a stream, which is then given up. -/
def sampleActs : List WriterAct := [.poll 0, .poll 0, .poll 0, .abort, .poll 0]

def sampleRun := ((respond sampleResponse false sampleActs).run {}).alone.run shortWrites ()

theorem sampleRun_exact :
    sent sampleRun.1 = ascii "HTTP/1.1 200 OK\r\nConnection: close\r\n\r\nab" ∧
      cancels sampleRun.1 = 1 ∧
      ∃ retired new, sampleRun.1 = retired ++ new ∧
        (active {} = false → retired = []) ∧ sent retired = [] ∧
        (sampleRun.2.1.1.1 = .ok → Exact sampleResponse false sampleActs sampleRun.2.1.1.2 new) ∧
        (sampleRun.2.1.1.1 ≠ .ok → new = []) :=
  ⟨by decide, by decide,
    response_exact sampleResponse false sampleActs {} (run_anyRun _ _ _)⟩

end HttpResponseWriter

end Bmx.Remote
