import Bmx.Interaction.Contract
import Bmx.Update.HttpBodyReading

/-!
# The body decoder reads what the reference reads

Each state of the resumable decoder stands for a reading of the bytes still to come: the bytes of a
piece are read one after the other, and what remains is the reading of the state the piece leaves
behind. So no way of cutting the stream changes the outcome.
-/

namespace Bmx.Update

open Interaction List Option

namespace HttpBodyDecoder

open HttpBody

variable {d d' : HttpBodyDecoder}

/-- How many bytes may still be delivered. -/
def budget (d : HttpBodyDecoder) : Nat := d.maximumBodyBytes - d.decodedBytes

/-- The reading of the bytes still to come that the state stands for. -/
def resume (d : HttpBodyDecoder) (stream : Bytes) : Reading :=
  match d.state with
  | .contentLength => fixed d.remaining stream
  | .chunkSize => chunked d.budget (d.chunkLine ++ stream)
  | .chunkSizeLf => afterSize d.budget d.remaining stream
  | .chunkData => chunkData d.budget d.remaining stream
  | .chunkDataCr => dataEnd d.budget [cr, lf] stream
  | .chunkDataLf => dataEnd d.budget [lf] stream
  | .finalCr => lastChunk [cr, lf] stream
  | .finalLf => lastChunk [lf] stream
  | .complete => ending stream
  | .failed => (.invalidArgument, [])

structure Sound (d : HttpBodyDecoder) : Prop where
  decoded : d.decodedBytes ≤ d.maximumBodyBytes
  fixed : d.state = .contentLength → 0 < d.remaining ∧ d.remaining ≤ d.budget
  data : d.state = .chunkData → 0 < d.remaining
  line : d.chunkLine.length ≤ chunkLineBytes
  digits : ∀ c ∈ d.chunkLine, c ≠ cr ∧ c ≠ lf ∧ c ≠ semicolon
  idle : d.state ≠ .chunkSize → d.chunkLine = []

/-! ### Reading byte by byte -/

variable {c : UInt8} {line stream : Bytes} {status : HttpBodyStatus} {events : List (Event bodySinkSignature)}
  {size fuel maximum : Nat} {head : HttpResponseHead}

theorem hexDigit_le {digit : Nat} (h : hexDigit c = some digit) : digit ≤ 15 := by
  unfold hexDigit at h
  split at h
  · rename_i hrange
    have hupper : c.toNat ≤ 57 := hrange.2
    have := some.inj h
    omega
  · split at h
    · rename_i hrange
      have hupper : c.toNat ≤ 102 := hrange.2
      have := some.inj h
      omega
    · split at h
      · rename_i hrange
        have hupper : c.toNat ≤ 70 := hrange.2
        have := some.inj h
        omega
      · cases h

theorem le_of_digits {value result : Nat} {digits : Bytes}
    (h : digits.foldlM (fun value c => (hexDigit c).map (value * 16 + ·)) value = some result) : value ≤ result := by
  induction digits generalizing value with
  | nil =>
    obtain rfl : value = result := some.inj h
    exact Nat.le_refl _
  | cons c rest ih =>
    obtain ⟨next, hnext, hrest⟩ := bind_eq_some_iff.1 h
    obtain ⟨digit, -, rfl⟩ := map_eq_some_iff.1 hnext
    have hle := ih hrest
    omega

theorem chunkSizeLoop_eq (size : Nat) (digits : Bytes) (hsize : size ≤ uint64Max) :
    chunkSizeLoop size digits =
      (digits.foldlM (fun value c => (hexDigit c).map (value * 16 + ·)) size).filter
        (· ≤ uint64Max) := by
  induction digits generalizing size with
  | nil => simp [chunkSizeLoop, Option.filter, hsize]
  | cons c rest ih =>
    rw [chunkSizeLoop, foldlM_cons]
    cases hdigit : hexDigit c with
    | none => rfl
    | some digit =>
      have hdigit : digit ≤ 15 := hexDigit_le hdigit
      have hmax : uint64Max = 2 ^ 64 - 1 := rfl
      change (if size > (uint64Max - digit) / 16 then none
          else chunkSizeLoop (size * 16 + digit) rest) =
        Option.filter (· ≤ uint64Max) (rest.foldlM
          (fun value c => (hexDigit c).map (value * 16 + ·)) (size * 16 + digit))
      by_cases hover : size > (uint64Max - digit) / 16
      · rw [if_pos hover, eq_comm, filter_eq_none_iff]
        intro result hresult
        have hle := le_of_digits hresult
        rw [decide_eq_true_iff]
        omega
      · rw [if_neg hover]
        exact ih (size * 16 + digit) (by omega)

theorem sizeLine_cr (hlength : line.length ≤ chunkLineBytes)
    (hdigits : ∀ c ∈ line, c ≠ cr ∧ c ≠ lf ∧ c ≠ semicolon) (rest : Bytes) :
    sizeLine (line ++ cr :: rest) =
      if line = [] then .error .invalidChunk
      else
        match chunkSizeLoop 0 line with
        | none => .error .invalidChunk
        | some size => .ok (size, rest) := by
  have hline : (line ++ cr :: rest).takeWhile (· ≠ cr) = line := by
    rw [takeWhile_line line _ fun c hc => (hdigits c hc).1]
    simp
  have hwell : ¬ (chunkLineBytes < line.length ∨ lf ∈ line ∨ semicolon ∈ line) := by
    rintro (h | h | h)
    · omega
    · exact (hdigits _ h).2.1 rfl
    · exact (hdigits _ h).2.2 rfl
  have hshort : line.length ≠ (line ++ cr :: rest).length := by simp
  unfold sizeLine
  rw [hline, if_neg hwell, if_neg hshort, chunkSizeLoop_eq 0 line (Nat.zero_le _), hexValue]
  by_cases hempty : line = []
  · rw [if_pos hempty, if_pos hempty]
  · rw [if_neg hempty, if_neg hempty]
    cases hvalue : line.foldlM (fun value c => (hexDigit c).map (value * 16 + ·)) 0 with
    | none => rfl
    | some size =>
      by_cases hsize : size ≤ uint64Max
      · simp [Option.filter, hsize]
      · simp [Option.filter, hsize]

theorem sizeLine_invalid (hcr : c ≠ cr) (hdigits : ∀ c ∈ line, c ≠ cr ∧ c ≠ lf ∧ c ≠ semicolon)
    (hbad : c = lf ∨ c = semicolon ∨ line.length ≥ chunkLineBytes) (rest : Bytes) :
    sizeLine (line ++ c :: rest) = .error .invalidChunk := by
  have hline : (line ++ c :: rest).takeWhile (· ≠ cr) = line ++ c :: rest.takeWhile (· ≠ cr) := by
    rw [takeWhile_line line _ fun c hc => (hdigits c hc).1, takeWhile_cons_of_pos (by simpa using hcr)]
  unfold sizeLine
  rw [hline, if_pos]
  rcases hbad with rfl | rfl | hlong
  · simp
  · simp
  · left
    simp only [length_append, length_cons]
    omega

theorem sizeLine_truncated (hlength : line.length ≤ chunkLineBytes)
    (hdigits : ∀ c ∈ line, c ≠ cr ∧ c ≠ lf ∧ c ≠ semicolon) : sizeLine line = .error .truncated := by
  have hline : line.takeWhile (· ≠ cr) = line := by
    have h := takeWhile_line line [] fun c hc => (hdigits c hc).1
    simpa using h
  unfold sizeLine
  rw [hline, if_neg, if_pos rfl]
  rintro (h | h | h)
  · omega
  · exact (hdigits _ h).2.1 rfl
  · exact (hdigits _ h).2.2 rfl

theorem Sound.framing (hd : d.Sound) {state : State} (hstate : state ≠ .contentLength ∧ state ≠ .chunkData)
    (hline : d.chunkLine = []) : ({ d with state := state } : HttpBodyDecoder).Sound where
  decoded := hd.decoded
  fixed h := absurd h hstate.1
  data h := absurd h hstate.2
  line := hd.line
  digits := hd.digits
  idle _ := hline

/-- A byte of the framing leaves a state that stands for the reading of the bytes after it. -/
theorem frameByte_resume (hd : d.Sound)
    (hstate : d.state ≠ .contentLength ∧ d.state ≠ .chunkData ∧ d.state ≠ .complete ∧
      d.state ≠ .failed) (hnext : d.frameByte c = some d') :
    d'.Sound ∧ d'.state ≠ .failed ∧ d'.budget = d.budget ∧
      ∀ later, d.resume (c :: later) = d'.resume later := by
  obtain ⟨state, remaining, decodedBytes, maximumBodyBytes, chunkLine⟩ := d
  have hbudget := hd.decoded
  have hline := hd.line
  have hdigits := hd.digits
  have hidle := hd.idle
  cases state with
  | contentLength => exact absurd rfl hstate.1
  | chunkData => exact absurd rfl hstate.2.1
  | complete => exact absurd rfl hstate.2.2.1
  | failed => exact absurd rfl hstate.2.2.2
  | chunkSize =>
    simp only [frameByte] at hnext
    split at hnext
    · rename_i hcr
      obtain rfl := hcr
      split at hnext
      · cases hnext
      · rename_i hempty
        split at hnext
        · cases hnext
        · rename_i size hsize
          cases hnext
          refine ⟨⟨hbudget, by simp, by simp, by simp, by simp, by simp⟩, by simp, rfl, fun later => ?_⟩
          show chunked _ (chunkLine ++ cr :: later) = afterSize _ size later
          have hcomplete := sizeLine_cr hline hdigits later
          rw [if_neg hempty, hsize] at hcomplete
          exact chunked_of_ok _ hcomplete
    · rename_i hcr
      split at hnext
      · cases hnext
      · rename_i hwell
        simp only [not_or, ge_iff_le, Nat.not_le] at hwell
        cases hnext
        refine ⟨⟨hbudget, by simp, by simp, ?_, ?_, by simp⟩, by simp, rfl, fun later => ?_⟩
        · simp only [length_append, length_singleton]
          exact hwell.2.2
        · intro b hb
          rcases mem_append.1 hb with hb | hb
          · exact hdigits b hb
          · obtain rfl := mem_singleton.1 hb
            exact ⟨hcr, hwell.1, hwell.2.1⟩
        · show chunked _ (chunkLine ++ c :: later) = chunked _ ((chunkLine ++ [c]) ++ later)
          rw [append_assoc, singleton_append]
          rfl
  | chunkSizeLf =>
    simp only [frameByte] at hnext
    split at hnext
    · rename_i hlf
      obtain rfl := hlf
      cases hnext
      by_cases hzero : remaining = 0
      · simp only [if_pos hzero]
        refine ⟨hd.framing (by simp) (hidle (by simp)), by simp, rfl, fun later => ?_⟩
        show afterSize _ remaining (lf :: later) = lastChunk [cr, lf] later
        rw [afterSize_lf, if_pos hzero]
      · simp only [if_neg hzero]
        refine ⟨⟨hbudget, by simp, fun _ => Nat.pos_of_ne_zero hzero, hline, hdigits, fun _ => hidle (by simp)⟩, by simp, rfl,
          fun later => ?_⟩
        show afterSize _ remaining (lf :: later) = chunkData _ remaining later
        rw [afterSize_lf, if_neg hzero]
        rfl
    · cases hnext
  | chunkDataCr | chunkDataLf | finalCr | finalLf =>
    simp only [frameByte] at hnext
    split at hnext
    · rename_i hbyte
      obtain rfl := hbyte
      cases hnext
      obtain rfl : chunkLine = [] := hidle (by simp)
      exact ⟨hd.framing (by simp) rfl, by simp, rfl, fun later => rfl⟩
    · cases hnext

theorem frameByte_invalid (hd : d.Sound) (hnext : d.frameByte c = none) (later : Bytes) :
    d.resume (c :: later) = (.invalidChunk, []) := by
  obtain ⟨state, remaining, decodedBytes, maximumBodyBytes, chunkLine⟩ := d
  have hline := hd.line
  have hdigits := hd.digits
  cases state with
  | contentLength | chunkData | complete | failed => cases hnext
  | chunkSize =>
    have hbad : sizeLine (chunkLine ++ c :: later) = .error .invalidChunk := by
      simp only [frameByte] at hnext
      split at hnext
      · rename_i hcr
        obtain rfl := hcr
        rw [sizeLine_cr hline hdigits]
        split at hnext
        · rename_i hempty
          rw [if_pos hempty]
        · rename_i hempty
          split at hnext
          · rename_i hsize
            rw [if_neg hempty, hsize]
          · cases hnext
      · rename_i hcr
        split at hnext
        · rename_i hbad
          exact sizeLine_invalid hcr hdigits hbad later
        · cases hnext
    exact chunked_of_error hbad
  | chunkSizeLf =>
    have hlf : c ≠ lf := by
      rintro rfl
      cases hnext
    exact afterSize_other hlf _ _ later
  | chunkDataCr =>
    have hcr : c ≠ cr := by
      rintro rfl
      cases hnext
    simp [resume, dataEnd, expect, hcr]
  | chunkDataLf =>
    have hlf : c ≠ lf := by
      rintro rfl
      cases hnext
    simp [resume, dataEnd, expect, hlf]
  | finalCr =>
    have hcr : c ≠ cr := by
      rintro rfl
      cases hnext
    simp [resume, lastChunk, expect, hcr]
  | finalLf =>
    have hlf : c ≠ lf := by
      rintro rfl
      cases hnext
    simp [resume, lastChunk, expect, hlf]

theorem resume_nil (hd : d.Sound) (hstate : d.state ≠ .failed) : d.resume [] = (d.finish.1, []) := by
  obtain ⟨state, remaining, decodedBytes, maximumBodyBytes, chunkLine⟩ := d
  cases state with
  | failed => exact absurd rfl hstate
  | complete | chunkDataCr | chunkDataLf | finalCr | finalLf => rfl
  | contentLength =>
    have hpos : 0 < remaining := (hd.fixed rfl).1
    simp [resume, fixed, finish, hpos]
  | chunkSize =>
    have hline := sizeLine_truncated hd.line hd.digits
    show chunked _ (chunkLine ++ []) = _
    rw [append_nil]
    exact chunked_of_error hline
  | chunkSizeLf =>
    show afterSize _ _ [] = _
    rw [afterSize]
    rfl
  | chunkData =>
    have hpos : 0 < remaining := hd.data rfl
    show chunkData _ remaining [] = _
    rw [chunkData_eq]
    simp [hpos, finish]

/-! ### One call -/

def delivered (events : List (Event bodySinkSignature)) : Bytes :=
  (events.filter (·.answer)).flatMap (·.op)

def Accepted (events : List (Event bodySinkSignature)) : Prop := ∀ event ∈ events, event.answer = true

@[simp] theorem delivered_nil : delivered [] = [] := rfl

@[simp] theorem delivered_append (first second : List (Event bodySinkSignature)) :
    delivered (first ++ second) = delivered first ++ delivered second := by
  simp [delivered]

theorem accepted_append {first second : List (Event bodySinkSignature)} :
    Accepted (first ++ second) ↔ Accepted first ∧ Accepted second := by
  simp only [Accepted, mem_append]
  constructor
  · intro h
    exact ⟨fun e he => h e (.inl he), fun e he => h e (.inr he)⟩
  · rintro ⟨hfirst, hsecond⟩ e (he | he)
    · exact hfirst e he
    · exact hsecond e he

/-- What a write has done. -/
inductive Wrote (d : HttpBodyDecoder) (bytes : Bytes) :
    HttpBodyStatus → HttpBodyDecoder → List (Event bodySinkSignature) → Prop
  | taken {events : List (Event bodySinkSignature)} (hroom : bytes.length ≤ d.budget)
      (haccepted : Accepted events) (hdelivered : delivered events = bytes) :
      Wrote d bytes .ok { d with decodedBytes := d.decodedBytes + bytes.length } events
  | tooLarge (hroom : d.budget < bytes.length) : Wrote d bytes .tooLarge d.fail []
  | rejected {events : List (Event bodySinkSignature)} (hroom : bytes.length ≤ d.budget)
      (hrejected : ¬ Accepted events) (hdelivered : delivered events = []) :
      Wrote d bytes .sinkRejected d.fail events

/-- The contract of the proofs about the decoder: the sink answers anything. -/
abbrev sinkContract : Contract bodySinkSignature (List (Event bodySinkSignature)) :=
  historyContract bodySinkSignature fun _ => True

theorem write_holds (hd : d.decodedBytes ≤ d.maximumBodyBytes) (bytes : Bytes)
    (past : List (Event bodySinkSignature)) :
    (d.write bytes).Holds sinkContract
      (fun r now => ∃ new, now = past ++ new ∧ Wrote d bytes r.1 r.2 new) past := by
  unfold write
  split
  · rename_i hempty
    obtain rfl := hempty
    exact ⟨[], by simp, .taken (Nat.zero_le _) (by simp [Accepted]) rfl⟩
  · split
    · rename_i hlarge
      have hroom : d.budget < bytes.length := by
        rcases hlarge with h | h
        · omega
        · exact h
      exact ⟨[], by simp, .tooLarge hroom⟩
    · rename_i hlarge
      have hroom : bytes.length ≤ d.budget := by
        have h := (not_or.1 hlarge).2
        exact Nat.not_lt.1 h
      refine ⟨trivial, ?_⟩
      rintro answer now rfl
      cases answer with
      | true => exact ⟨_, rfl, .taken hroom (by simp [Accepted]) (by simp [delivered])⟩
      | false => exact ⟨_, rfl, .rejected hroom (by simp [Accepted]) (by simp [delivered])⟩

/-- What a call that was given `data` has made of it. -/
inductive Fed (d : HttpBodyDecoder) (data : Bytes) :
    HttpBodyStatus → HttpBodyDecoder → List (Event bodySinkSignature) → Prop
  | more {status : HttpBodyStatus} {d' : HttpBodyDecoder} {events : List (Event bodySinkSignature)}
      (hstatus : status = .ok ∨ status = .complete) (hsound : d'.Sound) (hstate : d'.state ≠ .failed)
      (hbudget : (delivered events).length + d'.budget = d.budget) (haccepted : Accepted events)
      (hread : ∀ later, d.resume (data ++ later) = prefixed (delivered events) (d'.resume later)) :
      Fed d data status d' events
  | stopped {status : HttpBodyStatus} {d' : HttpBodyDecoder} {events : List (Event bodySinkSignature)}
      (hstatus : status ≠ .ok ∧ status ≠ .complete ∧ status ≠ .sinkRejected)
      (hbudget : (delivered events).length ≤ d.budget) (haccepted : Accepted events)
      (hread : ∀ later, (d.resume (data ++ later)).1 = status ∧
        delivered events <+: (d.resume (data ++ later)).2) : Fed d data status d' events
  | rejected {d' : HttpBodyDecoder} {events : List (Event bodySinkSignature)}
      (hbudget : (delivered events).length ≤ d.budget) (hrejected : ¬ Accepted events)
      (hread : ∀ later, delivered events <+: (d.resume (data ++ later)).2) :
      Fed d data .sinkRejected d' events

/-- A call that begins by reading `first` and continues in `d'`. -/
theorem Fed.after {d'' : HttpBodyDecoder} {first second : Bytes} {before : List (Event bodySinkSignature)}
    (hbudget : (delivered before).length + d'.budget = d.budget) (haccepted : Accepted before)
    (hread : ∀ later, d.resume (first ++ later) = prefixed (delivered before) (d'.resume later))
    (h : Fed d' second status d'' events) : Fed d (first ++ second) status d'' (before ++ events) := by
  have hjoin : ∀ later, d.resume (first ++ second ++ later) =
      prefixed (delivered before) (d'.resume (second ++ later)) := by
    intro later
    rw [append_assoc]
    exact hread _
  cases h with
  | more hstatus hsound hstate hbudget' haccepted' hread' =>
    refine .more hstatus hsound hstate ?_ (accepted_append.2 ⟨haccepted, haccepted'⟩) fun later => ?_
    · rw [delivered_append, length_append]
      omega
    · rw [hjoin, hread', prefixed_prefixed, delivered_append]
  | stopped hstatus hbudget' haccepted' hread' =>
    refine .stopped hstatus ?_ (accepted_append.2 ⟨haccepted, haccepted'⟩) fun later => ?_
    · rw [delivered_append, length_append]
      omega
    · rw [hjoin, delivered_append]
      exact ⟨(hread' later).1, (prefix_append_right_inj _).2 (hread' later).2⟩
  | rejected hbudget' hrejected hread' =>
    refine .rejected ?_ (fun h => hrejected (accepted_append.1 h).2) fun later => ?_
    · rw [delivered_append, length_append]
      omega
    · rw [hjoin, delivered_append]
      exact (prefix_append_right_inj _).2 (hread' later)

theorem Fed.invalid {rest : Bytes} (hd : d.Sound) (hnext : d.frameByte c = none) :
    Fed d (c :: rest) .invalidChunk d' [] := by
  refine .stopped (by simp) (Nat.zero_le _) (by simp [Accepted]) fun later => ?_
  rw [cons_append, frameByte_invalid hd hnext]
  exact ⟨rfl, nil_prefix⟩

theorem Fed.rest (hd : d.Sound) (hstate : d.state ≠ .failed) : Fed d [] d.restingStatus d [] := by
  refine .more ?_ hd hstate (Nat.zero_add _) (by simp [Accepted]) fun later => rfl
  unfold restingStatus
  split
  · exact .inr rfl
  · exact .inl rfl

theorem resume_contentLength (hstate : d.state = .contentLength) (bytes : Bytes)
    (hbytes : bytes.length ≤ d.remaining) (later : Bytes) :
    d.resume (bytes ++ later) = prefixed bytes (fixed (d.remaining - bytes.length) later) := by
  unfold resume
  rw [hstate]
  exact fixed_append hbytes later

theorem resume_chunkData (hstate : d.state = .chunkData) (bytes : Bytes)
    (hbytes : bytes.length ≤ d.remaining) (hroom : bytes.length ≤ d.budget) (later : Bytes) :
    d.resume (bytes ++ later) =
      prefixed bytes (chunkData (d.budget - bytes.length) (d.remaining - bytes.length) later) := by
  unfold resume
  rw [hstate]
  exact chunkData_append hbytes hroom later

theorem Fed.unwritten {bytes data : Bytes} (hstate : d.state = .chunkData)
    (hbytes : bytes.length ≤ d.remaining) (hdata : bytes <+: data)
    (hwrote : Wrote d bytes status d' events) (hstatus : status ≠ .ok) : Fed d data status d' events := by
  obtain ⟨tail, rfl⟩ := hdata
  cases hwrote with
  | taken hroom haccepted hdelivered => exact absurd rfl hstatus
  | tooLarge hroom =>
    refine .stopped (by simp) (Nat.zero_le _) (by simp [Accepted]) fun later => ⟨?_, nil_prefix⟩
    rw [append_assoc]
    unfold resume
    rw [hstate]
    exact chunkData_tooLarge hbytes hroom _
  | rejected hroom hrejected hdelivered =>
    refine .rejected ?_ hrejected fun later => ?_
    · rw [hdelivered]
      exact Nat.zero_le _
    · rw [hdelivered]
      exact nil_prefix

/-- The states in which a byte belongs to the framing and the loop goes on after it. -/
def AtFraming (d : HttpBodyDecoder) : Prop :=
  d.state ≠ .contentLength ∧ d.state ≠ .chunkData ∧ d.state ≠ .finalLf

theorem feedLoop_framing (hstate : d.AtFraming) (fuel consumed : Nat) (c : UInt8) (rest : Bytes) :
    feedLoop (fuel + 1) d consumed (c :: rest) =
      match d.frameByte c with
      | none => .done (.invalidChunk, consumed + 1, d.fail)
      | some d => feedLoop fuel d (consumed + 1) rest := by
  obtain ⟨state, remaining, decodedBytes, maximumBodyBytes, chunkLine⟩ := d
  cases state with
  | contentLength => exact absurd rfl hstate.1
  | chunkData => exact absurd rfl hstate.2.1
  | finalLf => exact absurd rfl hstate.2.2
  | _ => rfl

theorem frameByte_incomplete (hstate : d.state ≠ .finalLf) (hcomplete : d.state ≠ .complete)
    (hnext : d.frameByte c = some d') : d'.state ≠ .complete := by
  obtain ⟨state, remaining, decodedBytes, maximumBodyBytes, chunkLine⟩ := d
  cases state with
  | _ =>
    simp only [frameByte] at hnext
    grind

/-- The decoder after `size` bytes of the data of a chunk. -/
theorem chunkData_advanced (hd : d.Sound) (hstate : d.state = .chunkData)
    (hsize : size ≤ d.remaining) (hroom : size ≤ d.budget)
    (hdecoded : d'.decodedBytes = d.decodedBytes + size)
    (hmaximum : d'.maximumBodyBytes = d.maximumBodyBytes)
    (hremaining : d'.remaining = d.remaining - size) (hline : d'.chunkLine = d.chunkLine)
    (hnext : d'.state = if d'.remaining = 0 then .chunkDataCr else .chunkData) :
    d'.Sound ∧ d'.state ≠ .failed ∧ d'.state ≠ .complete ∧ d'.budget = d.budget - size ∧
      ∀ later, d'.resume later = chunkData (d.budget - size) (d.remaining - size) later := by
  have hdecodedLe := hd.decoded
  have hbudget : d'.budget = d.budget - size := by
    unfold budget
    omega
  have hempty : d.chunkLine = [] := hd.idle (by rw [hstate]; simp)
  have hsound : d'.decodedBytes ≤ d'.maximumBodyBytes := by
    unfold budget at hroom
    omega
  by_cases hzero : d'.remaining = 0
  · rw [if_pos hzero] at hnext
    refine ⟨⟨hsound, by simp [hnext], by simp [hnext], by simp [hline, hempty], by simp [hline, hempty],
      by simp [hline, hempty]⟩, by simp [hnext], by simp [hnext], hbudget, fun later => ?_⟩
    unfold resume
    rw [hnext, hbudget, ← hremaining, hzero, chunkData_zero]
  · rw [if_neg hzero] at hnext
    refine ⟨⟨hsound, by simp [hnext], fun _ => Nat.pos_of_ne_zero hzero, by simp [hline, hempty],
      by simp [hline, hempty], by simp [hline, hempty]⟩, by simp [hnext], by simp [hnext], hbudget, fun later => ?_⟩
    unfold resume
    rw [hnext, hbudget, ← hremaining]

/-- The calls of the loop, as the induction carries them. -/
def LoopHolds (fuel : Nat) : Prop :=
  ∀ {d : HttpBodyDecoder} (consumed : Nat) {data : Bytes} (past : List (Event bodySinkSignature)),
    d.Sound → d.state ≠ .failed → (d.state = .complete → data = []) → data.length ≤ fuel →
    (feedLoop fuel d consumed data).Holds sinkContract
      (fun r now => ∃ new, now = past ++ new ∧ Fed d data r.1 r.2.2 new) past

theorem LoopHolds.after (ih : LoopHolds fuel) (first : Bytes) {rest : Bytes}
    (consumed : Nat) (past before : List (Event bodySinkSignature)) (hsound : d'.Sound)
    (hstate : d'.state ≠ .failed) (hcomplete : d'.state ≠ .complete) (hfuel : rest.length ≤ fuel)
    (hbudget : (delivered before).length + d'.budget = d.budget) (haccepted : Accepted before)
    (hread : ∀ later, d.resume (first ++ later) = prefixed (delivered before) (d'.resume later)) :
    (feedLoop fuel d' consumed rest).Holds sinkContract
      (fun r now => ∃ new, now = past ++ new ∧ Fed d (first ++ rest) r.1 r.2.2 new)
      (past ++ before) := by
  refine (ih consumed (past ++ before) hsound hstate (fun h => absurd h hcomplete) hfuel).mono ?_
  rintro r now ⟨new, rfl, hfed⟩
  exact ⟨before ++ new, append_assoc _ _ _, hfed.after hbudget haccepted hread⟩

theorem take_split (size : Nat) (data : Bytes) : data.take size ++ data.drop (data.take size).length = data := by
  rw [length_take]
  rcases Nat.le_total size data.length with h | h
  · rw [Nat.min_eq_left h, take_append_drop]
  · rw [Nat.min_eq_right h, take_of_length_le h, drop_length, append_nil]

theorem feedLoop_contentLength (ih : LoopHolds fuel) (hd : d.Sound)
    (hstate : d.state = .contentLength) (consumed : Nat) {rest : Bytes}
    (hfuel : rest.length ≤ fuel) (past : List (Event bodySinkSignature)) :
    (feedLoop (fuel + 1) d consumed (c :: rest)).Holds sinkContract
      (fun r now => ∃ new, now = past ++ new ∧ Fed d (c :: rest) r.1 r.2.2 new) past := by
  obtain ⟨hpos, hfits⟩ := hd.fixed hstate
  have hidle : d.chunkLine = [] := hd.idle (by rw [hstate]; simp)
  generalize hdata : c :: rest = data
  generalize htake : data.take d.remaining = bytes
  generalize hdrop : data.drop bytes.length = left
  have htaken : bytes.length = min d.remaining data.length := by rw [← htake, length_take]
  have hsplit : bytes ++ left = data := by
    rw [← hdrop, ← htake]
    exact take_split _ _
  have hread := resume_contentLength hstate bytes (by omega)
  rw [← hdata]
  simp only [feedLoop, hstate]
  rw [hdata, htake, hdrop, ← hsplit]
  apply Program.Holds.bind (write_holds hd.decoded bytes past)
  rintro ⟨status, d₁⟩ now ⟨before, rfl, hwrote⟩
  cases hwrote with
  | tooLarge hroom => omega
  | rejected hroom hrejected hdelivered =>
    refine ⟨before, rfl, .rejected (by simp [hdelivered]) hrejected fun later => ?_⟩
    rw [hdelivered]
    exact nil_prefix
  | taken hroom haccepted hdelivered =>
    have hcount : (delivered before).length + (d.maximumBodyBytes - (d.decodedBytes + bytes.length)) =
        d.budget := by
      rw [hdelivered]
      unfold budget at hroom ⊢
      omega
    by_cases hzero : d.remaining - bytes.length = 0
    · rw [if_pos hzero]
      have hend : ∀ later, d.resume (bytes ++ left ++ later) =
          prefixed (delivered before) (ending (left ++ later)) := by
        intro later
        rw [append_assoc, hread, hzero, fixed_zero, hdelivered]
      refine ⟨before, rfl, ?_⟩
      by_cases hlast : left = []
      · rw [if_pos hlast]
        refine .more (.inr rfl) ⟨?_, by simp, by simp, hd.line, hd.digits, fun _ => hidle⟩ (by simp) hcount
          haccepted fun later => ?_
        · have hdecoded := hd.decoded
          unfold budget at hroom
          show d.decodedBytes + bytes.length ≤ d.maximumBodyBytes
          omega
        · rw [hend, hlast]
          rfl
      · rw [if_neg hlast]
        refine .stopped (by simp) (by omega) haccepted fun later => ?_
        rw [hend, ending, if_neg (by simp [hlast])]
        exact ⟨rfl, prefix_append _ _⟩
    · rw [if_neg hzero]
      have hleft : left.length ≤ fuel := by
        rw [← hdrop, length_drop]
        omega
      have hdecoded := hd.decoded
      refine ih.after bytes _ past before ⟨?_, fun _ => ⟨?_, ?_⟩, ?_, hd.line, hd.digits, fun _ => hidle⟩
        (by simp [hstate]) (by simp [hstate]) hleft hcount haccepted fun later => ?_
      · show d.decodedBytes + bytes.length ≤ d.maximumBodyBytes
        unfold budget at hroom
        omega
      · show 0 < d.remaining - bytes.length
        omega
      · show d.remaining - bytes.length ≤ d.maximumBodyBytes - (d.decodedBytes + bytes.length)
        unfold budget at hfits
        omega
      · show d.state = .chunkData → _
        simp [hstate]
      · rw [hread, hdelivered, resume]
        simp only [hstate]

theorem feedLoop_chunkData (ih : LoopHolds fuel) (hd : d.Sound)
    (hstate : d.state = .chunkData) (consumed : Nat) {rest : Bytes}
    (hfuel : rest.length ≤ fuel) (past : List (Event bodySinkSignature)) :
    (feedLoop (fuel + 1) d consumed (c :: rest)).Holds sinkContract
      (fun r now => ∃ new, now = past ++ new ∧ Fed d (c :: rest) r.1 r.2.2 new) past := by
  have hpos := hd.data hstate
  have hbyte : [c].length ≤ d.remaining := hpos
  generalize htake : rest.take (d.remaining - 1) = bytes
  generalize hdrop : rest.drop bytes.length = left
  have htaken : bytes.length = min (d.remaining - 1) rest.length := by rw [← htake, length_take]
  have hsplit : bytes ++ left = rest := by
    rw [← hdrop, ← htake]
    exact take_split _ _
  simp only [feedLoop, hstate]
  apply Program.Holds.bind (write_holds hd.decoded [c] past)
  rintro ⟨status, d₁⟩ now ⟨first, rfl, hwrote⟩
  cases hwrote with
  | tooLarge hroom =>
    exact ⟨[], by simp, .unwritten hstate hbyte (by simp) (.tooLarge hroom) (by simp)⟩
  | rejected hroom hrejected hdelivered =>
    exact ⟨first, rfl, .unwritten hstate hbyte (by simp)
      (.rejected hroom hrejected hdelivered) (by simp)⟩
  | taken hroom haccepted hdelivered =>
    have hone : 1 ≤ d.budget := by simpa using hroom
    have hread := resume_chunkData hstate [c] hbyte hroom
    simp only [ne_eq, not_true_eq_false, if_false, length_singleton, htake, hdrop]
    -- the state between the two writes, which may have no data left to read
    generalize hbetween : ({ d with decodedBytes := d.decodedBytes + 1, remaining := d.remaining - 1 } :
      HttpBodyDecoder) = e
    have hestate : e.state = .chunkData := by rw [← hbetween]; exact hstate
    have heremaining : e.remaining = d.remaining - 1 := by rw [← hbetween]
    have hebudget : e.budget = d.budget - 1 := by
      rw [← hbetween]
      show d.maximumBodyBytes - (d.decodedBytes + 1) = d.maximumBodyBytes - d.decodedBytes - 1
      omega
    have hbefore : (delivered first).length + e.budget = d.budget := by
      rw [hdelivered, hebudget, length_singleton]
      omega
    have hecontinue : ∀ later, d.resume ([c] ++ later) = prefixed (delivered first) (e.resume later) := by
      intro later
      rw [hread, hdelivered, resume, hestate, hebudget, heremaining]
      rfl
    have hedecoded : e.decodedBytes ≤ e.maximumBodyBytes := by
      rw [← hbetween]
      show d.decodedBytes + 1 ≤ d.maximumBodyBytes
      unfold budget at hone
      omega
    apply Program.Holds.bind (write_holds hedecoded bytes (past ++ first))
    rintro ⟨status, d₂⟩ now ⟨second, rfl, hwrote⟩
    have hbytes : bytes.length ≤ e.remaining := by omega
    have hstopped : ∀ {status : HttpBodyStatus} {d₂ : HttpBodyDecoder},
        Wrote e bytes status d₂ second → status ≠ .ok →
        Fed d (c :: rest) status d₂ (first ++ second) := by
      intro status d₂ hwrote hstatus
      rw [← singleton_append, ← hsplit]
      exact .after hbefore haccepted hecontinue
        (.unwritten hestate hbytes (prefix_append _ _) hwrote hstatus)
    cases hwrote with
    | tooLarge hroom =>
      have hfed := hstopped (.tooLarge hroom) (by simp)
      rw [append_nil] at hfed
      exact ⟨first, by simp, hfed⟩
    | rejected hroom' hrejected hdelivered' =>
      exact ⟨first ++ second, append_assoc _ _ _, hstopped (.rejected hroom' hrejected hdelivered') (by simp)⟩
    | taken hroom' haccepted' hdelivered' =>
      have hleft : left.length ≤ fuel := by
        rw [← hdrop, length_drop]
        omega
      have hdata : (c :: bytes).length ≤ d.remaining := by
        rw [length_cons]
        omega
      have hfits : (c :: bytes).length ≤ d.budget := by
        rw [length_cons]
        omega
      have hedecoded : e.decodedBytes = d.decodedBytes + 1 := by rw [← hbetween]
      have hemaximum : e.maximumBodyBytes = d.maximumBodyBytes := by rw [← hbetween]
      have heline : e.chunkLine = d.chunkLine := by rw [← hbetween]
      generalize hafter : (if e.remaining - bytes.length = 0 then _ else _ : HttpBodyDecoder) = a
      have hafterDecoded : a.decodedBytes = d.decodedBytes + (c :: bytes).length := by
        rw [← hafter, length_cons]
        split
        all_goals
          show e.decodedBytes + bytes.length = _
          omega
      have hafterRemaining : a.remaining = d.remaining - (c :: bytes).length := by
        rw [← hafter, length_cons]
        split
        all_goals
          show e.remaining - bytes.length = _
          omega
      have hafterState : a.state = if a.remaining = 0 then .chunkDataCr else .chunkData := by
        rw [← hafter]
        split
        · rfl
        · exact hestate
      obtain ⟨hsound, hfailed, hcomplete, hbudget, hresume⟩ := chunkData_advanced hd hstate hdata hfits
        hafterDecoded (by rw [← hafter]; split <;> exact hemaximum) hafterRemaining
        (by rw [← hafter]; split <;> exact heline) hafterState
      have hall : delivered (first ++ second) = c :: bytes := by
        rw [delivered_append, hdelivered, hdelivered', singleton_append]
      rw [append_assoc, ← hsplit, ← cons_append]
      refine ih.after (c :: bytes) _ past (first ++ second) hsound hfailed hcomplete hleft ?_
        (accepted_append.2 ⟨haccepted, haccepted'⟩) fun later => ?_
      · rw [hall, hbudget]
        omega
      · rw [hall, hresume]
        exact resume_chunkData hstate (c :: bytes) hdata hfits later

theorem feedLoop_finalLf (hd : d.Sound) (hstate : d.state = .finalLf) (fuel consumed : Nat)
    (rest : Bytes) (past : List (Event bodySinkSignature)) :
    (feedLoop (fuel + 1) d consumed (c :: rest)).Holds sinkContract
      (fun r now => ∃ new, now = past ++ new ∧ Fed d (c :: rest) r.1 r.2.2 new) past := by
  simp only [feedLoop, hstate]
  cases hnext : d.frameByte c with
  | none => exact ⟨[], by simp, .invalid hd hnext⟩
  | some d' =>
    obtain ⟨hsound, hstate', hbudget, hread⟩ := frameByte_resume hd (by simp [hstate]) hnext
    have hend : d'.state = .complete := by
      simp only [frameByte, hstate] at hnext
      split at hnext
      · rw [← some.inj hnext]
      · cases hnext
    have hresume : ∀ later, d.resume (c :: rest ++ later) = ending (rest ++ later) := by
      intro later
      rw [cons_append, hread, resume, hend]
    refine ⟨[], by simp, ?_⟩
    by_cases hlast : rest = []
    · rw [if_pos hlast]
      refine .more (.inr rfl) hsound hstate' (by simp [hbudget]) (by simp [Accepted]) fun later => ?_
      rw [hresume, hlast, resume, hend]
      rfl
    · rw [if_neg hlast]
      refine .stopped (by simp) (Nat.zero_le _) (by simp [Accepted]) fun later => ?_
      rw [hresume, ending, if_neg (by simp [hlast])]
      exact ⟨rfl, nil_prefix⟩

theorem feedLoop_holds (fuel : Nat) : LoopHolds fuel := by
  induction fuel with
  | zero =>
    intro d consumed data past hd hstate hcomplete hfuel
    obtain rfl := length_eq_zero_iff.1 (Nat.le_zero.1 hfuel)
    exact ⟨[], by simp, .rest hd hstate⟩
  | succ fuel ih =>
    intro d consumed data past hd hstate hcomplete hfuel
    cases data with
    | nil => exact ⟨[], by simp, .rest hd hstate⟩
    | cons c rest =>
      have hrest : rest.length ≤ fuel := Nat.le_of_succ_le_succ hfuel
      have hopen : d.state ≠ .complete := fun h => by cases hcomplete h
      by_cases hframing : d.AtFraming
      · rw [feedLoop_framing hframing]
        cases hnext : d.frameByte c with
        | none => exact ⟨[], by simp, .invalid hd hnext⟩
        | some d' =>
          obtain ⟨hsound, hstate', hbudget, hread⟩ :=
            frameByte_resume hd ⟨hframing.1, hframing.2.1, hopen, hstate⟩ hnext
          have hnext := ih.after [c] (consumed + 1) past [] hsound hstate'
            (frameByte_incomplete hframing.2.2 hopen hnext) hrest (by simp [hbudget]) (by simp [Accepted])
            hread
          simpa using hnext
      · cases hat : d.state with
        | contentLength => exact feedLoop_contentLength ih hd hat consumed hrest past
        | chunkData => exact feedLoop_chunkData ih hd hat consumed hrest past
        | finalLf => exact feedLoop_finalLf hd hat fuel consumed rest past
        | _ => exact absurd (by simp [AtFraming, hat]) hframing

theorem feed_holds (hd : d.Sound) (hstate : d.state ≠ .failed) (data : Bytes)
    (past : List (Event bodySinkSignature)) :
    (d.feed data).Holds sinkContract
      (fun r now => ∃ new, now = past ++ new ∧ Fed d data r.1 r.2.2 new) past := by
  have hloop := fun hopen => feedLoop_holds data.length 0 past hd hstate (fun h => absurd h hopen)
    (Nat.le_refl _)
  unfold feed
  cases hat : d.state with
  | failed => exact absurd hat hstate
  | complete =>
    refine ⟨[], by simp, ?_⟩
    by_cases hempty : data = []
    · rw [if_pos hempty, hempty]
      exact .more (.inr rfl) hd hstate (Nat.zero_add _) (by simp [Accepted]) fun later => rfl
    · rw [if_neg hempty]
      refine .stopped (by simp) (Nat.zero_le _) (by simp [Accepted]) fun later => ?_
      rw [resume, hat]
      simp [ending, hempty]
  | _ => exact hloop (by simp [hat])

/-! ### Whole sessions -/

/-- What a session that ended with `status` has made of the stream. -/
structure Settled (d : HttpBodyDecoder) (stream : Bytes) (status : HttpBodyStatus)
    (events : List (Event bodySinkSignature)) : Prop where
  bounded : (delivered events).length ≤ d.budget
  delivers : delivered events <+: (d.resume stream).2
  rejected : ¬ Accepted events → status = .sinkRejected
  accepted : Accepted events → status = (d.resume stream).1
  complete : status = .complete → delivered events = (d.resume stream).2

theorem session_holds (hd : d.Sound) (hstate : d.state ≠ .failed) (pieces : List Bytes)
    (past : List (Event bodySinkSignature)) :
    (d.session pieces).Holds sinkContract
      (fun status now => ∃ new, now = past ++ new ∧ Settled d pieces.flatten status new) past := by
  induction pieces generalizing d past with
  | nil =>
    have hend := resume_nil hd hstate
    refine ⟨[], by simp, ⟨Nat.zero_le _, nil_prefix, fun h => ?_, fun _ => ?_, fun _ => ?_⟩⟩
    · exact absurd (by simp [Accepted]) h
    · rw [flatten_nil, hend]
    · rw [flatten_nil, hend]
      rfl
  | cons piece pieces ih =>
    rw [session, flatten_cons]
    apply Program.Holds.bind (feed_holds hd hstate piece past)
    rintro ⟨status, consumed, d'⟩ now ⟨first, rfl, hfed⟩
    cases hfed with
    | more hstatus hsound hstate' hbudget haccepted hread =>
      simp only [hstatus, if_true]
      refine (ih hsound hstate' (past ++ first)).mono ?_
      rintro status' now ⟨second, rfl, hsettled⟩
      refine ⟨first ++ second, append_assoc _ _ _, ?_⟩
      have hread' := hread pieces.flatten
      have hboth : Accepted (first ++ second) ↔ Accepted second := by
        rw [accepted_append]
        exact and_iff_right haccepted
      constructor
      · have hle := hsettled.bounded
        rw [delivered_append, length_append]
        omega
      · rw [hread', delivered_append]
        exact (prefix_append_right_inj _).2 hsettled.delivers
      · rw [hboth]
        exact hsettled.rejected
      · rw [hboth, hread']
        exact hsettled.accepted
      · intro hcomplete
        rw [hread', delivered_append, hsettled.complete hcomplete]
        rfl
    | stopped hstatus hbudget haccepted hread =>
      have hlast : ¬ (status = .ok ∨ status = .complete) := not_or.2 ⟨hstatus.1, hstatus.2.1⟩
      simp only [hlast, if_false]
      refine ⟨first, rfl, ⟨hbudget, (hread _).2, fun h => absurd haccepted h, fun _ => ?_, fun h => ?_⟩⟩
      · exact (hread _).1.symm
      · exact absurd h hstatus.2.1
    | rejected hbudget hrejected hread =>
      exact ⟨first, rfl, ⟨hbudget, hread _, fun _ => rfl, fun h => absurd h hrejected, fun h => by cases h⟩⟩

theorem init_contentLength (hframing : head.framing = some (.contentLength size)) (maximum : Nat) :
    init head maximum true =
      ⟨if size > maximum then .failed else if size = 0 then .complete else .contentLength, size, 0,
        maximum, []⟩ := by
  unfold HttpResponseHead.framing at hframing
  unfold init
  split at hframing
  · rename_i hlength hchunked
    rw [hlength, hchunked, ← Framing.contentLength.inj (some.inj hframing)]
    rfl
  all_goals cases hframing

theorem init_chunked (hframing : head.framing = some .chunked)
    (maximum : Nat) : init head maximum true = ⟨.chunkSize, 0, 0, maximum, []⟩ := by
  unfold HttpResponseHead.framing at hframing
  unfold init
  split at hframing
  · cases hframing
  · rename_i hlength hchunked
    rw [hlength, hchunked]
    rfl
  all_goals cases hframing

/-- A decoder that has failed at its construction never asks the sink anything. -/
theorem session_refused (hstate : d.state = .failed) (pieces : List Bytes) :
    d.session pieces = .done .invalidArgument := by
  cases pieces with
  | nil => simp [session, finish, hstate]
  | cons piece pieces => simp [session, feed, hstate]

/-- The outcome of a session that follows the reference on this stream. -/
structure DecodedExactly (framing : Framing) (maximum : Nat) (stream : Bytes) (status : HttpBodyStatus)
    (events : List (Event bodySinkSignature)) : Prop where
  status_eq : Accepted events → status = (readBody maximum stream framing).1
  rejected : ¬ Accepted events → status = .sinkRejected
  delivers : delivered events <+: (readBody maximum stream framing).2
  bounded : (delivered events).length ≤ maximum
  complete : status = .complete →
    delivered events = (readBody maximum stream framing).2 ∧ Framed framing stream (delivered events)

theorem framed_of_read {framing : Framing} (hframed : framing ≠ .untilClose)
    (h : (readBody maximum stream framing).1 = .complete) :
    Framed framing stream (readBody maximum stream framing).2 := by
  cases framing with
  | untilClose => exact absurd rfl hframed
  | chunked => exact framed_of_complete h
  | contentLength size =>
    unfold readBody at h ⊢
    by_cases hlarge : maximum < size
    · simp [hlarge] at h
    · simp only [hlarge, if_false] at h ⊢
      unfold fixed at h ⊢
      by_cases hshort : stream.length < size
      · simp [hshort] at h
      · simp only [hshort, if_false] at h ⊢
        have hend := ending_complete h
        have hsize : size = stream.length := by
          rw [drop_eq_nil_iff] at hend
          omega
        rw [hsize]
        simpa [ending] using Framed.fixed stream

/-- A session of a sound decoder whose readings are those of the reference. -/
theorem Settled.exactly {framing : Framing} (hframed : framing ≠ .untilClose)
    (hread : d.resume stream = readBody maximum stream framing) (hbudget : d.budget = maximum)
    (h : Settled d stream status events) : DecodedExactly framing maximum stream status events := by
  have haccepted := h.accepted
  have hcomplete := h.complete
  rw [hread] at haccepted hcomplete
  refine ⟨haccepted, h.rejected, hread ▸ h.delivers, hbudget ▸ h.bounded, fun hstatus => ⟨hcomplete hstatus, ?_⟩⟩
  rw [hcomplete hstatus]
  by_cases hall : Accepted events
  · exact framed_of_read hframed ((haccepted hall).symm.trans hstatus)
  · rw [h.rejected hall] at hstatus
    cases hstatus

theorem init_holds {framing : Framing}
    (hframing : head.framing = some framing) (hframed : framing ≠ .untilClose) (pieces : List Bytes) :
    ((init head maximum true).session pieces).Holds sinkContract
      (DecodedExactly framing maximum pieces.flatten) [] := by
  have hexact : ∀ {d : HttpBodyDecoder}, d.Sound → d.state ≠ .failed → d.budget = maximum →
      (∀ stream, d.resume stream = readBody maximum stream framing) →
      (d.session pieces).Holds sinkContract (DecodedExactly framing maximum pieces.flatten) [] := by
    intro d hd hstate hbudget hread
    refine (session_holds hd hstate pieces []).mono ?_
    rintro status now ⟨new, rfl, hsettled⟩
    exact hsettled.exactly hframed (hread _) hbudget
  cases framing with
  | untilClose => exact absurd rfl hframed
  | chunked =>
    rw [init_chunked hframing]
    exact hexact ⟨Nat.zero_le _, by simp, by simp, Nat.zero_le _, by simp, fun _ => rfl⟩ (by simp) rfl
      fun stream => rfl
  | contentLength size =>
    rw [init_contentLength hframing]
    by_cases hlarge : size > maximum
    · have hread : readBody maximum pieces.flatten (.contentLength size) = (.invalidArgument, []) := if_pos hlarge
      rw [if_pos hlarge, session_refused rfl]
      refine ⟨fun _ => by rw [hread], fun h => absurd (by simp [Accepted]) h, by simp, Nat.zero_le _, ?_⟩
      intro h
      cases h
    · have hread : ∀ stream, readBody maximum stream (.contentLength size) = fixed size stream :=
        fun stream => if_neg hlarge
      rw [if_neg hlarge]
      by_cases hzero : size = 0
      · rw [if_pos hzero]
        refine hexact ⟨Nat.zero_le _, by simp, by simp, Nat.zero_le _, by simp, fun _ => rfl⟩ (by simp) rfl
          fun stream => ?_
        rw [hread, hzero, fixed_zero]
        rfl
      · rw [if_neg hzero]
        have hpos : 0 < size ∧ size ≤ maximum - 0 := by omega
        refine hexact ⟨Nat.zero_le _, fun _ => hpos, by simp, Nat.zero_le _, by simp, fun _ => rfl⟩ (by simp)
          rfl fun stream => ?_
        rw [hread]
        rfl

/-- For a head that selects a length or chunks, every way of cutting a stream into `Feed` calls ends
as the reference decoder does on the whole stream. Every other head is refused. -/
theorem session_exact {head : HttpResponseHead} {maximum : Nat} {pieces : List Bytes}
    {events : List (Event bodySinkSignature)} {status : HttpBodyStatus}
    (hrun : AnyRun ((init head maximum true).session pieces) events status) :
    (∀ framing, head.framing = some framing → framing ≠ .untilClose →
        DecodedExactly framing maximum pieces.flatten status events) ∧
      (head.framing = none ∨ head.framing = some .untilClose →
        status = .invalidArgument ∧ events = []) := by
  constructor
  · intro framing hframing hframed
    exact hrun.holds (init_holds hframing hframed pieces)
  · intro hframing
    have hfailed : (init head maximum true).state = .failed := by
      unfold HttpResponseHead.framing at hframing
      unfold init
      cases hlength : head.hasContentLength <;> cases hchunked : head.chunked <;>
        simp [hlength, hchunked] at hframing ⊢
    rw [session_refused hfailed] at hrun
    cases hrun
    exact ⟨rfl, rfl⟩

def framedHead (hasContentLength chunked : Bool) (contentLength : Nat) : HttpResponseHead :=
  ⟨200, hasContentLength, contentLength, chunked, false, [], []⟩

def samplePieces : List Bytes := [ascii "3\r", ascii "\nab", ascii "c\r\n0\r\n\r\n"]

/-- The session on the sample against a sink that takes everything. -/
def sampleSession : List (Event bodySinkSignature) × HttpBodyStatus × Unit :=
  ((init (framedHead false true 0) 8 true).session samplePieces).run (fun _ s => (true, s)) ()

theorem sampleSession_exact :
    sampleSession.2.1 = .complete ∧ delivered sampleSession.1 = ascii "abc" ∧
      DecodedExactly .chunked 8 samplePieces.flatten sampleSession.2.1 sampleSession.1 :=
  ⟨by decide, by decide,
    (session_exact (run_anyRun _ _ _)).1 .chunked rfl (by decide)⟩

/-- A sink with room for so many bytes. -/
def boundedSink (capacity : Nat) : Handler bodySinkSignature Nat := fun bytes used =>
  if capacity < used + bytes.length then (false, used) else (true, used + bytes.length)

/-- A body that ends with the connection is not decoded, and a sink that has less room than the
decoder allows is refused at different points by different pieces. -/
theorem untilClose_refused :
    (¬ ∀ head maximum framing pieces events status, head.framing = some framing →
      AnyRun ((init head maximum true).session pieces) events status → Accepted events →
        status = (readBody maximum pieces.flatten framing).1) ∧
    ∃ first second : List Bytes, first.flatten = second.flatten ∧
      (((init (framedHead false true 0) 5 true).session first).run (boundedSink 3) 0).2.1 ≠
        (((init (framedHead false true 0) 5 true).session second).run (boundedSink 3) 0).2.1 := by
  constructor
  · intro h
    have hstatus := h (framedHead false false 0) 8 .untilClose [ascii "a"] [] .invalidArgument rfl
      (.refl _ _) (by simp [Accepted])
    cases hstatus
  · refine ⟨[ascii "a\r\nabcdefghij\r\n"], (ascii "a\r\nabcdefghij\r\n").map fun c => [c], ?_, ?_⟩
    · decide
    · decide

end HttpBodyDecoder

end Bmx.Update
