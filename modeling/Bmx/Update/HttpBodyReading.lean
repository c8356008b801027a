import Bmx.Update.HttpBody

/-!
# What a framed body says

The reference decoder reads a whole stream at once, by recursion on what is left of it. It completes
on exactly the streams that are a framed body and nothing else.
-/

namespace Bmx.Update

open HttpBodyDecoder List

/-- The three ways a head may delimit a body. -/
inductive Framing
  | contentLength (size : Nat)
  | chunked
  | untilClose
  deriving DecidableEq

def HttpResponseHead.framing (head : HttpResponseHead) : Option Framing :=
  match head.hasContentLength, head.chunked with
  | true, false => some (.contentLength head.contentLength)
  | false, true => some .chunked
  | false, false => some .untilClose
  | true, true => none

namespace HttpBody

/-- How a body ends and the bytes it carries up to there. -/
abbrev Reading := HttpBodyStatus × Bytes

def prefixed (data : Bytes) (r : Reading) : Reading := (r.1, data ++ r.2)

@[simp] theorem prefixed_nil (r : Reading) : prefixed [] r = r := rfl

@[simp] theorem prefixed_prefixed (first second : Bytes) (r : Reading) :
    prefixed first (prefixed second r) = prefixed (first ++ second) r := by
  simp [prefixed]

@[simp] theorem prefixed_fst (data : Bytes) (r : Reading) : (prefixed data r).1 = r.1 := rfl

@[simp] theorem prefixed_snd (data : Bytes) (r : Reading) : (prefixed data r).2 = data ++ r.2 := rfl

/-- What follows a literal. -/
def expect : Bytes → Bytes → Except HttpBodyStatus Bytes
  | [], stream => .ok stream
  | _ :: _, [] => .error .truncated
  | b :: literal, c :: stream => if c = b then expect literal stream else .error .invalidChunk

def hexValue (digits : Bytes) : Option Nat :=
  if digits = [] then none
  else digits.foldlM (fun value c => (hexDigit c).map (value * 16 + ·)) 0

/-- The line with the size of a chunk, up to its CR. -/
def sizeLine (stream : Bytes) : Except HttpBodyStatus (Nat × Bytes) :=
  let line := stream.takeWhile (· ≠ cr)
  if chunkLineBytes < line.length ∨ lf ∈ line ∨ semicolon ∈ line then .error .invalidChunk
  else if line.length = stream.length then .error .truncated
  else
    match hexValue line with
    | none => .error .invalidChunk
    | some size =>
      if size ≤ uint64Max then .ok (size, stream.drop (line.length + 1))
      else .error .invalidChunk

/-- The end of the framed body: nothing may follow. -/
def ending (stream : Bytes) : Reading := (if stream = [] then .complete else .unexpectedData, [])

def fixed (size : Nat) (stream : Bytes) : Reading :=
  if stream.length < size then (.truncated, stream)
  else prefixed (stream.take size) (ending (stream.drop size))

/-- What is left of the line end after the chunk of size zero. -/
def lastChunk (lineEnd stream : Bytes) : Reading :=
  match expect lineEnd stream with
  | .error status => (status, [])
  | .ok rest => ending rest

variable {literal stream rest xs : Bytes} {c : UInt8} {size room : Nat} {status : HttpBodyStatus}

theorem expect_eq_ok : expect literal stream = .ok rest ↔ stream = literal ++ rest := by
  induction literal generalizing stream with
  | nil => simp [expect]
  | cons b literal ih =>
    cases stream with
    | nil => simp [expect]
    | cons c stream =>
      rw [expect, cons_append, cons.injEq]
      by_cases hbyte : c = b
      · rw [if_pos hbyte, ih]
        simp [hbyte]
      · rw [if_neg hbyte]
        simp [hbyte]

theorem expect_length (h : expect literal stream = .ok rest) : stream.length = literal.length + rest.length := by
  rw [expect_eq_ok.1 h, length_append]

theorem takeWhile_line (line rest : Bytes) (hdigits : ∀ c ∈ line, c ≠ cr) :
    (line ++ rest).takeWhile (· ≠ cr) = line ++ rest.takeWhile (· ≠ cr) := by
  apply takeWhile_append_of_pos
  intro c hc
  simpa using hdigits c hc

theorem hexDigit_ne {b : UInt8} (hvalue : hexDigit c ≠ none) (hb : hexDigit b = none) : c ≠ b := by
  rintro rfl
  exact hvalue hb

theorem hexValue_digits {line : Bytes} (h : hexValue line = some size) : ∀ c ∈ line, hexDigit c ≠ none := by
  unfold hexValue at h
  split at h
  · cases h
  · generalize hstart : (0 : Nat) = start at h
    clear hstart
    rename_i hempty
    clear hempty
    induction line generalizing start with
    | nil => simp
    | cons b line ih =>
      obtain ⟨next, hnext, hrest⟩ := Option.bind_eq_some_iff.1 h
      obtain ⟨digit, hdigit, rfl⟩ := Option.map_eq_some_iff.1 hnext
      intro c hc
      rcases mem_cons.1 hc with rfl | hc
      · simp [hdigit]
      · exact ih _ hrest c hc

theorem sizeLine_eq_ok :
    sizeLine stream = .ok (size, rest) ↔
      ∃ line, stream = line ++ cr :: rest ∧ line.length ≤ chunkLineBytes ∧
        hexValue line = some size ∧ size ≤ uint64Max := by
  constructor
  · intro h
    unfold sizeLine at h
    dsimp only at h
    split at h
    · cases h
    · rename_i hwell
      split at h
      · cases h
      · rename_i hne
        split at h
        · cases h
        · rename_i size' hvalue
          split at h
          · rename_i hsize
            cases h
            refine ⟨_, ?_, Nat.not_lt.1 (not_or.1 hwell).1, hvalue, hsize⟩
            have hsplit := takeWhile_append_dropWhile (p := fun c => decide (c ≠ cr)) (l := stream)
            generalize htake : stream.takeWhile (· ≠ cr) = line at *
            cases hdrop : stream.dropWhile (· ≠ cr) with
            | nil =>
              rw [hdrop, append_nil] at hsplit
              exact absurd (by rw [hsplit]) hne
            | cons c tail =>
              have hc : c = cr := by
                have hhead := head?_dropWhile_not (fun c => decide (c ≠ cr)) stream
                rw [hdrop] at hhead
                simpa using hhead
              rw [hdrop, hc] at hsplit
              rw [← hsplit]
              simp
          · cases h
  · rintro ⟨line, rfl, hlength, hvalue, hsize⟩
    have hdigits := hexValue_digits hvalue
    have hline : (line ++ cr :: rest).takeWhile (· ≠ cr) = line := by
      rw [takeWhile_line line _ fun c hc => hexDigit_ne (hdigits c hc) (by decide)]
      simp
    unfold sizeLine
    rw [hline, if_neg, if_neg (by simp), hvalue]
    · simp [hsize]
    · rintro (h | h | h)
      · omega
      · exact hdigits _ h (by decide)
      · exact hdigits _ h (by decide)

theorem sizeLine_length (h : sizeLine stream = .ok (size, rest)) : rest.length < stream.length := by
  obtain ⟨line, rfl, -⟩ := sizeLine_eq_ok.1 h
  simp only [length_append, length_cons]
  omega

mutual

/-- A sequence of chunks of which `budget` bytes may still be delivered. -/
def chunked (budget : Nat) (stream : Bytes) : Reading :=
  match _hline : sizeLine stream with
  | .error status => (status, [])
  | .ok (size, rest) => afterSize budget size rest
termination_by stream.length
decreasing_by exact sizeLine_length _hline

/-- After the CR of a size line. -/
def afterSize (budget size : Nat) (stream : Bytes) : Reading :=
  match _hend : expect [lf] stream with
  | .error status => (status, [])
  | .ok rest => if size = 0 then lastChunk [cr, lf] rest else chunkData budget size rest
termination_by stream.length
decreasing_by
  have hlength := expect_length _hend
  simp only [length_singleton] at hlength
  omega

/-- Inside a chunk of which `size` bytes are missing. -/
def chunkData (budget size : Nat) (stream : Bytes) : Reading :=
  let data := stream.take size
  if budget < data.length then (.tooLarge, data.take budget)
  else if data.length < size then (.truncated, data)
  else
    match _hend : expect [cr, lf] (stream.drop size) with
    | .error status => (status, data)
    | .ok rest => prefixed data (chunked (budget - size) rest)
termination_by stream.length
decreasing_by
  have hlength := expect_length _hend
  simp only [length_cons, length_nil, length_drop] at hlength
  omega

end

/-- After the data of a chunk, of whose line end this is left. -/
def dataEnd (budget : Nat) (lineEnd stream : Bytes) : Reading :=
  match expect lineEnd stream with
  | .error status => (status, [])
  | .ok rest => chunked budget rest

theorem chunked_of_error (hline : sizeLine stream = .error status) : chunked room stream = (status, []) := by
  rw [chunked]
  split
  · rename_i status' hread
    rw [hline] at hread
    rw [Except.error.inj hread]
  · rename_i size rest hread
    rw [hline] at hread
    cases hread

theorem chunked_of_ok (room : Nat)
    (hline : sizeLine stream = .ok (size, rest)) : chunked room stream = afterSize room size rest := by
  rw [chunked]
  split
  · rename_i status hread
    rw [hline] at hread
    cases hread
  · rename_i size' rest' hread
    rw [hline] at hread
    cases hread
    rfl

theorem afterSize_lf (room size : Nat) (stream : Bytes) :
    afterSize room size (lf :: stream) =
      if size = 0 then lastChunk [cr, lf] stream else chunkData room size stream := by
  rw [afterSize]
  rfl

theorem afterSize_other (hc : c ≠ lf) (room size : Nat) (stream : Bytes) :
    afterSize room size (c :: stream) = (.invalidChunk, []) := by
  have hend : expect [lf] (c :: stream) = .error .invalidChunk := by simp [expect, hc]
  rw [afterSize]
  split
  · rename_i status hread
    rw [hend] at hread
    rw [← Except.error.inj hread]
  · rename_i rest hread
    rw [hend] at hread
    cases hread

theorem fixed_append (hxs : xs.length ≤ size) (later : Bytes) :
    fixed size (xs ++ later) = prefixed xs (fixed (size - xs.length) later) := by
  unfold fixed
  rw [length_append]
  by_cases hshort : later.length < size - xs.length
  · rw [if_pos (by omega), if_pos hshort]
    rfl
  · rw [if_neg (by omega), if_neg hshort, prefixed_prefixed, take_append, take_of_length_le hxs,
      drop_append, drop_of_length_le hxs, nil_append]

@[simp] theorem fixed_zero (later : Bytes) : fixed 0 later = ending later := by
  simp [fixed]

theorem chunkData_eq (room size : Nat) (stream : Bytes) :
    chunkData room size stream =
      if room < (stream.take size).length then (.tooLarge, (stream.take size).take room)
      else if (stream.take size).length < size then (.truncated, stream.take size)
      else prefixed (stream.take size) (dataEnd (room - size) [cr, lf] (stream.drop size)) := by
  rw [chunkData, dataEnd]
  by_cases hlarge : room < (stream.take size).length
  · simp only [if_pos hlarge]
  · by_cases hshort : (stream.take size).length < size
    · simp only [if_neg hlarge, if_pos hshort]
    · simp only [if_neg hlarge, if_neg hshort]
      split
      · rename_i status hend
        rw [hend]
        simp [prefixed]
      · rename_i rest hend
        rw [hend]

theorem chunkData_append (hxs : xs.length ≤ size) (hroom : xs.length ≤ room) (later : Bytes) :
    chunkData room size (xs ++ later) =
      prefixed xs (chunkData (room - xs.length) (size - xs.length) later) := by
  have htake : (xs ++ later).take size = xs ++ later.take (size - xs.length) := by
    rw [take_append, take_of_length_le hxs]
  have hdrop : (xs ++ later).drop size = later.drop (size - xs.length) := by
    rw [drop_append, drop_of_length_le hxs, nil_append]
  have hbudget : room - xs.length - (size - xs.length) = room - size := by omega
  rw [chunkData_eq, chunkData_eq, htake, hdrop, hbudget, length_append]
  by_cases hlarge : room - xs.length < (later.take (size - xs.length)).length
  · rw [if_pos (by omega), if_pos hlarge, prefixed, take_append, take_of_length_le hroom]
  · rw [if_neg (by omega), if_neg hlarge]
    by_cases hshort : (later.take (size - xs.length)).length < size - xs.length
    · rw [if_pos (by omega), if_pos hshort]
      rfl
    · rw [if_neg (by omega), if_neg hshort, prefixed_prefixed]

theorem chunkData_zero (room : Nat) (later : Bytes) : chunkData room 0 later = dataEnd room [cr, lf] later := by
  rw [chunkData_eq]
  simp

theorem chunkData_tooLarge (hxs : xs.length ≤ size) (hroom : room < xs.length) (later : Bytes) :
    (chunkData room size (xs ++ later)).1 = .tooLarge := by
  have hlarge : room < ((xs ++ later).take size).length := by
    rw [length_take, length_append]
    omega
  rw [chunkData]
  simp only [if_pos hlarge]

/-- The reference decoder, applied to the whole stream. -/
def readBody (maximumBodyBytes : Nat) (stream : Bytes) : Framing → Reading
  | .contentLength size =>
    if maximumBodyBytes < size then (.invalidArgument, []) else fixed size stream
  | .chunked => chunked maximumBodyBytes stream
  | .untilClose =>
    if maximumBodyBytes < stream.length then (.tooLarge, stream.take maximumBodyBytes)
    else (.complete, stream)

/-! ### The bodies that are read completely -/

/-- A stream that frames a body, and the body. -/
inductive Framed : Framing → Bytes → Bytes → Prop
  | fixed (body : Bytes) : Framed (.contentLength body.length) body body
  | last {line : Bytes} (hlength : line.length ≤ chunkLineBytes) (hvalue : hexValue line = some 0) :
      Framed .chunked (line ++ [cr, lf, cr, lf]) []
  | chunk {line data stream body : Bytes} (hlength : line.length ≤ chunkLineBytes)
      (hvalue : hexValue line = some data.length) (hsize : data.length ≤ uint64Max)
      (hdata : data ≠ []) (hrest : Framed .chunked stream body) :
      Framed .chunked (line ++ cr :: lf :: (data ++ cr :: lf :: stream)) (data ++ body)

theorem ending_complete (h : (ending stream).1 = .complete) : stream = [] := by
  unfold ending at h
  by_cases hempty : stream = []
  · exact hempty
  · rw [if_neg hempty] at h
    cases h

theorem expect_error (h : expect literal stream = .error status) : status ≠ .complete := by
  induction literal generalizing stream with
  | nil => cases h
  | cons b literal ih =>
    cases stream with
    | nil =>
      obtain rfl := Except.error.inj h
      simp
    | cons c stream =>
      rw [expect] at h
      split at h
      · exact ih h
      · obtain rfl := Except.error.inj h
        simp

theorem sizeLine_error (h : sizeLine stream = .error status) : status ≠ .complete := by
  unfold sizeLine at h
  grind

theorem lastChunk_complete (h : (lastChunk [cr, lf] stream).1 = .complete) : stream = [cr, lf] := by
  unfold lastChunk at h
  cases hend : expect [cr, lf] stream with
  | error status =>
    rw [hend] at h
    exact absurd h (expect_error hend)
  | ok rest =>
    rw [hend] at h
    rw [expect_eq_ok.1 hend, ending_complete h]
    rfl

theorem afterSize_complete (h : (afterSize room size stream).1 = .complete) : ∃ rest, stream = lf :: rest := by
  cases stream with
  | nil =>
    rw [afterSize] at h
    cases h
  | cons c rest =>
    by_cases hlf : c = lf
    · exact ⟨rest, by rw [hlf]⟩
    · rw [afterSize_other hlf] at h
      cases h

theorem dataEnd_complete (h : (dataEnd room [cr, lf] stream).1 = .complete) :
    ∃ rest, stream = cr :: lf :: rest ∧ dataEnd room [cr, lf] stream = chunked room rest := by
  unfold dataEnd at h ⊢
  cases hend : expect [cr, lf] stream with
  | error status =>
    rw [hend] at h
    exact absurd h (expect_error hend)
  | ok rest => exact ⟨rest, expect_eq_ok.1 hend, rfl⟩

theorem chunkData_complete (h : (chunkData room size stream).1 = .complete) :
    ∃ data rest, stream = data ++ cr :: lf :: rest ∧ data.length = size ∧ size ≤ room ∧
      chunkData room size stream = prefixed data (chunked (room - size) rest) := by
  have heq := chunkData_eq room size stream
  split at heq
  · rw [heq] at h
    cases h
  · split at heq
    · rw [heq] at h
      cases h
    · rename_i hroom hsize
      have hlength : (stream.take size).length ≤ size := by
        rw [length_take]
        omega
      rw [heq] at h
      obtain ⟨rest, hdrop, hend⟩ := dataEnd_complete h
      refine ⟨stream.take size, rest, ?_, by omega, by omega, ?_⟩
      · rw [← hdrop, take_append_drop]
      · rw [heq, hend]

theorem framed_of_complete (h : (chunked room stream).1 = .complete) :
    Framed .chunked stream (chunked room stream).2 := by
  induction hlength : stream.length using Nat.strongRecOn generalizing room stream with
  | ind n ih =>
    cases hline : sizeLine stream with
    | error status =>
      rw [chunked_of_error hline] at h
      exact absurd h (sizeLine_error hline)
    | ok result =>
      obtain ⟨size, rest⟩ := result
      have hafter := chunked_of_ok room hline
      rw [hafter] at h ⊢
      obtain ⟨line, rfl, hline', hvalue, hsize⟩ := sizeLine_eq_ok.1 hline
      obtain ⟨rest, rfl⟩ := afterSize_complete h
      rw [afterSize_lf] at h ⊢
      by_cases hzero : size = 0
      · rw [if_pos hzero] at h ⊢
        obtain rfl := lastChunk_complete h
        rw [hzero] at hvalue
        exact .last hline' hvalue
      · rw [if_neg hzero] at h ⊢
        obtain ⟨data, tail, rfl, hdata, -, hread⟩ := chunkData_complete h
        rw [hread] at h ⊢
        rw [← hdata] at hvalue hsize hzero
        refine .chunk hline' hvalue hsize (by simpa using hzero) ?_
        apply ih tail.length _ h rfl
        rw [← hlength]
        simp only [length_append, length_cons]
        omega

end HttpBody

end Bmx.Update
