import Bmx.Base.Bytes
import Bmx.Base.Overwrite
import Bmx.Remote.HttpTypes
import Mathlib.Data.List.Infix

/-!
# The log of developer mode

`DeveloperLogRing` keeps the newest bytes of all that is logged, under numbers that count all of it. A response streams
a part of the log while more is logged. It sends that part, or it fails.
-/

namespace Bmx.Remote

open List Nat

/-! ### Bytes that go around -/

/-- The two copies of `Append`: what does not fit behind a place goes to the front. -/
def copyAround (bytes : Bytes) (sequence : Nat) (source : Bytes) : Bytes :=
  let position := sequence % bytes.length
  let first := min (bytes.length - position) source.length
  overwrite (overwrite bytes position (source.take first)) 0 (source.drop first)

/-- The two copies of `Read`. -/
def readAround (bytes : Bytes) (sequence size : Nat) : Bytes :=
  let position := sequence % bytes.length
  let first := min (bytes.length - position) size
  (bytes.drop position).take first ++ bytes.take (size - first)

variable {bytes source : Bytes} {size count : Nat} (sequence : Nat)

/-- The place after `count` more bytes, for less than one time around. -/
theorem place_add {capacity : Nat} (h : count < capacity) :
    (sequence + count) % capacity =
      if sequence % capacity + count < capacity then sequence % capacity + count
      else sequence % capacity + count - capacity := by
  rw [add_mod_eq_ite, mod_eq_of_lt h]
  split <;> split <;> omega

theorem length_copyAround (hsource : source.length ≤ bytes.length) (hsome : 0 < bytes.length) :
    (copyAround bytes sequence source).length = bytes.length := by
  have hplace := mod_lt sequence hsome
  unfold copyAround
  rw [length_overwrite (Nat.zero_le _), length_overwrite (Nat.le_of_lt hplace), length_drop, length_take]
  omega

theorem getElem?_copyAround {i : Nat} (hsource : source.length ≤ bytes.length) (hfirst : sequence ≤ i)
    (hlast : i < sequence + bytes.length) : (copyAround bytes sequence source)[i % bytes.length]? =
      if i < sequence + source.length then source[i - sequence]? else bytes[i % bytes.length]? := by
  obtain ⟨count, rfl⟩ := Nat.exists_eq_add_of_le hfirst
  have hcount : count < bytes.length := by omega
  have hplace := mod_lt sequence (zero_lt_of_lt hcount)
  unfold copyAround
  rw [getElem?_overwrite (Nat.zero_le _), getElem?_overwrite (Nat.le_of_lt hplace), length_drop,
    length_take, place_add sequence hcount, Nat.add_sub_cancel_left]
  by_cases haround : sequence % bytes.length + count < bytes.length
  · rw [if_pos haround, if_neg (by omega)]
    by_cases hcopied : count < source.length
    · rw [if_pos (by omega), if_pos (by omega), getElem?_take_of_lt (by omega)]
      congr 1
      omega
    · rw [if_neg (by omega), if_neg (by omega)]
  · rw [if_neg haround]
    by_cases hcopied : count < source.length
    · rw [if_pos (by omega), if_pos (by omega), getElem?_drop]
      congr 1
      omega
    · rw [if_neg (by omega), if_neg (by omega), if_neg (by omega)]

theorem getElem?_readAround (hsize : size ≤ bytes.length) (hcount : count < size) :
    (readAround bytes sequence size)[count]? = bytes[(sequence + count) % bytes.length]? := by
  have hplace := mod_lt sequence (Nat.lt_of_lt_of_le (zero_lt_of_lt hcount) hsize)
  unfold readAround
  rw [place_add sequence (Nat.lt_of_lt_of_le hcount hsize), getElem?_append, length_take, length_drop]
  by_cases haround : sequence % bytes.length + count < bytes.length
  · rw [if_pos haround, if_pos (by omega), getElem?_take_of_lt (by omega), getElem?_drop]
  · rw [if_neg haround, if_neg (by omega), getElem?_take_of_lt (by omega)]
    congr 1
    omega

theorem length_readAround (hsize : size ≤ bytes.length) : (readAround bytes sequence size).length = size := by
  unfold readAround
  rw [length_append, length_take, length_drop, length_take]
  omega

/-! ### The ring -/

/-- `bytes_`, which is empty if there is no memory for it, and `next_sequence_`. -/
structure DeveloperLogRing where
  bytes : Bytes
  nextSequence : Nat := 0

structure DeveloperLogRead where
  requested : Nat
  start : Nat
  next : Nat
  oldest : Nat
  size : Nat
  gap : Bool

namespace DeveloperLogRing

def capacity (ring : DeveloperLogRing) : Nat := ring.bytes.length

/-- `Append`. Of what is longer than the ring the end is kept. -/
def append (ring : DeveloperLogRing) (data : Bytes) : DeveloperLogRing :=
  if ring.capacity = 0 ∨ data = [] then ring
  else
    let skipped := data.length - min data.length ring.capacity
    { bytes := copyAround ring.bytes ((ring.nextSequence + skipped) % 2 ^ 64) (data.drop skipped)
      nextSequence := (ring.nextSequence + data.length) % 2 ^ 64 }

/-- The oldest byte, of `Window` and `Read`. -/
def oldest (ring : DeveloperLogRing) : Nat := ring.nextSequence - ring.capacity

/-- `Read`, with the bytes it copies. -/
def read (ring : DeveloperLogRing) (sequence capacity : Nat) : DeveloperLogRead × Bytes :=
  if ring.capacity = 0 then (⟨sequence, sequence, sequence, 0, 0, false⟩, [])
  else
    let start := if sequence < ring.oldest then ring.oldest else min sequence ring.nextSequence
    let size := min (ring.nextSequence - start) capacity
    (⟨sequence, start, start + size, ring.oldest, size, sequence < ring.oldest⟩, readAround ring.bytes start size)

structure Holds (ring : DeveloperLogRing) (log : Bytes) : Prop where
  capacity : 0 < ring.capacity
  next : ring.nextSequence = log.length
  bytes : ∀ i < log.length, log.length ≤ i + ring.capacity → ring.bytes[i % ring.capacity]? = log[i]?

theorem holds_init {memory : Bytes} (h : memory ≠ []) : Holds ⟨memory, 0⟩ [] where
  capacity := length_pos_iff.2 h
  next := rfl
  bytes i hi := absurd hi (Nat.not_lt_zero i)

variable {ring : DeveloperLogRing} {log : Bytes}

theorem capacity_append (ring : DeveloperLogRing) (data : Bytes) : (ring.append data).capacity = ring.capacity := by
  unfold append
  split
  · rfl
  · rename_i hsome
    refine length_copyAround _ ?_ (Nat.pos_of_ne_zero fun hnone => hsome (.inl hnone))
    rw [length_drop]
    change _ ≤ ring.capacity
    omega

theorem Holds.append (h : ring.Holds log) (data : Bytes) (hsize : (log ++ data).length < 2 ^ 64) :
    (ring.append data).Holds (log ++ data) := by
  by_cases hdata : data = []
  · rw [hdata, append_nil, DeveloperLogRing.append, if_pos (.inr rfl)]
    exact h
  have hcapacity := h.capacity
  have hskipped : data.length - min data.length ring.capacity = data.length - ring.capacity := by omega
  have happend : ring.append data =
      ⟨copyAround ring.bytes (log.length + (data.length - ring.capacity)) (data.drop (data.length - ring.capacity)),
        (log ++ data).length⟩ := by
    rw [length_append] at hsize ⊢
    unfold DeveloperLogRing.append
    rw [if_neg (by simp [hdata, Nat.ne_of_gt hcapacity]), hskipped, h.next]
    dsimp only
    rw [mod_eq_of_lt hsize, mod_eq_of_lt (b := 2 ^ 64) (by omega)]
  have hsame := capacity_append ring data
  refine ⟨hsame ▸ hcapacity, by rw [happend], ?_⟩
  rw [hsame, happend]
  intro i hi hnew
  rw [length_append] at hi hnew
  have hfits : (data.drop (data.length - ring.capacity)).length ≤ ring.bytes.length := by
    rw [length_drop]
    change _ ≤ ring.capacity
    omega
  have hcopy := fun j => getElem?_copyAround (i := j) (log.length + (data.length - ring.capacity)) hfits
  rw [length_drop] at hcopy
  by_cases hcopied : log.length + (data.length - ring.capacity) ≤ i
  · -- a byte of the new data
    refine Eq.trans (hcopy i hcopied (by change _ < _ + ring.capacity; omega)) ?_
    rw [if_pos (by omega), getElem?_drop, getElem?_append_right (by omega)]
    congr 1
    omega
  · -- an older one, whose place is behind the new data
    rw [getElem?_append_left (by omega), ← h.bytes i (by omega) (by omega), ← add_mod_right i]
    refine Eq.trans (hcopy (i + ring.capacity) (by omega) (by change _ < _ + ring.capacity; omega)) ?_
    rw [if_neg (by omega)]
    rfl

/-- A read copies a part of the log that the ring holds. -/
theorem Holds.readAround (h : ring.Holds log) {start size : Nat} (hold : ring.oldest ≤ start)
    (hsize : start + size ≤ log.length) : readAround ring.bytes start size = (log.drop start).take size := by
  have hnext := h.next
  unfold oldest at hold
  have hbound : size ≤ ring.bytes.length := by
    change size ≤ ring.capacity
    omega
  apply ext_getElem?
  intro i
  by_cases hi : i < size
  · rw [getElem?_readAround _ hbound hi, getElem?_take_of_lt hi, getElem?_drop]
    exact h.bytes (start + i) (by omega) (by omega)
  · rw [getElem?_eq_none (by rw [length_readAround _ hbound]; omega),
      getElem?_eq_none (by rw [length_take]; omega)]

theorem Holds.read_eq (h : ring.Holds log) (sequence capacity : Nat) :
    let start := max ring.oldest (min sequence log.length)
    let size := min (log.length - start) capacity
    ring.read sequence capacity =
      (⟨sequence, start, start + size, ring.oldest, size, sequence < ring.oldest⟩, (log.drop start).take size) := by
  have hstart : (if sequence < ring.oldest then ring.oldest else min sequence log.length) =
      max ring.oldest (min sequence log.length) := by
    have hnext := h.next
    unfold oldest
    split <;> omega
  unfold read
  rw [if_neg (Nat.ne_of_gt h.capacity)]
  dsimp only
  rw [h.next, hstart, h.readAround (Nat.le_max_left _ _)]
  have hnext := h.next
  unfold oldest
  omega

theorem Holds.appends (h : ring.Holds log) (appends : List Bytes) (hsize : (log ++ appends.flatten).length < 2 ^ 64) :
    (appends.foldl DeveloperLogRing.append ring).Holds (log ++ appends.flatten) ∧
      (appends.foldl DeveloperLogRing.append ring).capacity = ring.capacity := by
  induction appends generalizing ring log with
  | nil => exact ⟨by rwa [flatten_nil, append_nil], rfl⟩
  | cons data rest ih =>
    rw [flatten_cons, ← append_assoc] at hsize ⊢
    have hnext := h.append data (by rw [length_append] at hsize; omega)
    rw [foldl_cons, ← capacity_append ring data]
    exact ih hnext hsize

/-- The ring is a window on all that was logged: a read gives what is asked for of it, from the oldest byte that is
there on, and tells if there was an older one. -/
theorem read_window {memory : Bytes} (hmemory : memory ≠ []) (appends : List Bytes)
    (hsize : appends.flatten.length < 2 ^ 64) (sequence capacity : Nat) :
    let read := (appends.foldl append ⟨memory, 0⟩).read sequence capacity
    read.1.oldest = appends.flatten.length - memory.length ∧ (read.1.gap = true ↔ sequence < read.1.oldest) ∧
      read.1.start = max read.1.oldest (min sequence appends.flatten.length) ∧
      read.2 = (appends.flatten.drop read.1.start).take capacity ∧
      read.1.size = read.2.length ∧ read.1.next = read.1.start + read.2.length := by
  obtain ⟨hholds, hcapacity⟩ := (holds_init hmemory).appends appends hsize
  rw [nil_append] at hholds
  have holdest : (appends.foldl append ⟨memory, 0⟩).oldest = appends.flatten.length - memory.length := by
    unfold oldest
    rw [hholds.next, hcapacity]
    rfl
  have hread := hholds.read_eq sequence capacity
  dsimp only at hread ⊢
  rw [hread, holdest]
  refine ⟨rfl, decide_eq_true_iff, rfl, ?_, ?_, ?_⟩
  all_goals dsimp only
  · rw [← length_drop, Nat.min_comm, ← take_eq_take_min]
  all_goals rw [length_take, length_drop]; omega

/-- Four bytes in a ring of three. -/
theorem read_window_lost : (([[1, 2], [3, 4]].foldl append ⟨[0, 0, 0], 0⟩).read 0 2).2 = [2, 3] := by
  obtain ⟨holdest, -, hstart, hbytes, -⟩ :=
    read_window (show ([0, 0, 0] : Bytes) ≠ [] by decide) [[1, 2], [3, 4]] (by decide) 0 2
  rw [hbytes, hstart, holdest]
  rfl

end DeveloperLogRing

/-! ### Streaming the log -/

/-- `LogStream`: `sequence_`, `snapshot_end_` and `follow_`. -/
structure LogStream where
  sequence : Nat
  snapshotEnd : Nat
  follow : Bool

/-- `LogStream::Read`, with the bytes of its output. -/
def LogStream.read (stream : LogStream) (ring : DeveloperLogRing) (capacity : Nat) :
    HttpStreamReadResult × Bytes × LogStream :=
  if stream.follow = false ∧ stream.snapshotEnd ≤ stream.sequence then
    (if stream.sequence = stream.snapshotEnd then .ended else .error, [], stream)
  else
    let capacity := if stream.follow then capacity else min capacity (stream.snapshotEnd - stream.sequence)
    let (read, data) := ring.read stream.sequence capacity
    if read.gap ∧ stream.sequence ≠ read.start then (.error, [], stream)
    else
      (if read.size ≠ 0 then .data else if stream.follow then .wouldBlock else .error, data,
        { stream with sequence := read.next })

/-- The stream that `RouteLogs` answers with, and whether there is a gap before it. A cursor beyond the log belongs to
an earlier one. -/
def openLogStream (ring : DeveloperLogRing) (currentEpoch : Nat) (since epoch : Option Nat) (follow : Bool) :
    LogStream × Bool :=
  let requested := since.getD ring.oldest
  let reset := epoch.any (· ≠ currentEpoch)
  let start := if reset ∨ requested < ring.oldest then ring.oldest else requested
  (⟨if start > ring.nextSequence then ring.oldest else start, ring.nextSequence, follow⟩,
    reset ∨ requested < ring.oldest ∨ requested > ring.nextSequence)

/-- What happens while a response is sent. -/
inductive LogAction
  | append (data : Bytes)
  | read (capacity : Nat)

def LogAction.logged : LogAction → Bytes
  | append data => data
  | read _ => []

structure LogResponse where
  ring : DeveloperLogRing
  stream : LogStream
  sent : Bytes := []

def LogResponse.step (r : LogResponse) : LogAction → LogResponse
  | .append data => { r with ring := r.ring.append data }
  | .read capacity =>
    let (_, data, stream) := r.stream.read r.ring capacity
    { r with stream := stream, sent := r.sent ++ data }

/-- The response has sent the log from where it was opened on. -/
structure LogResponse.Follows (r : LogResponse) (opened : LogStream) (kept : Nat) (log : Bytes) : Prop where
  ring : r.ring.Holds log
  kept : r.ring.capacity = kept
  start : opened.sequence ≤ opened.snapshotEnd
  whole : opened.snapshotEnd ≤ log.length
  stream : r.stream = { opened with sequence := opened.sequence + r.sent.length }
  sent : r.sent <+: log.drop opened.sequence
  bounded : opened.follow = false → opened.sequence + r.sent.length ≤ opened.snapshotEnd

namespace LogResponse

variable {r : LogResponse} {opened : LogStream} {kept : Nat} {log : Bytes}

/-- What a read does: it ends behind the snapshot, fails where the log is overwritten, or goes on. -/
theorem Follows.read_eq (h : r.Follows opened kept log) (capacity : Nat) :
    let place := opened.sequence + r.sent.length
    let size := min (log.length - place) (if opened.follow then capacity else min capacity (opened.snapshotEnd - place))
    r.stream.read r.ring capacity =
      if opened.follow = false ∧ place = opened.snapshotEnd then (.ended, [], r.stream)
      else if place + kept < log.length then (.error, [], r.stream)
      else (if size ≠ 0 then .data else if opened.follow then .wouldBlock else .error, (log.drop place).take size,
        { opened with sequence := place + size }) := by
  have hlength := h.sent.length_le
  rw [length_drop] at hlength
  have hstart := h.start
  have hwhole := h.whole
  have hold : r.ring.oldest = log.length - kept := by
    unfold DeveloperLogRing.oldest
    rw [h.ring.next, h.kept]
  unfold LogStream.read
  rw [h.stream]
  dsimp only
  rw [h.ring.read_eq, Nat.min_eq_left (by omega), hold]
  dsimp only
  by_cases hend : opened.follow = false ∧ opened.sequence + r.sent.length = opened.snapshotEnd
  · rw [if_pos ⟨hend.1, Nat.le_of_eq hend.2.symm⟩, if_pos hend.2, if_pos hend]
  rw [if_neg hend, if_neg fun hbehind => hend ⟨hbehind.1, Nat.le_antisymm (h.bounded hbehind.1) hbehind.2⟩]
  by_cases hlost : opened.sequence + r.sent.length + kept < log.length
  · rw [if_pos hlost, if_pos ⟨decide_eq_true (by omega), by omega⟩]
  · rw [if_neg hlost, if_neg fun hgap => hgap.2 (by omega), Nat.max_eq_right (by omega)]

theorem Follows.step (h : r.Follows opened kept log) (action : LogAction)
    (hsize : (log ++ action.logged).length < 2 ^ 64) : (r.step action).Follows opened kept (log ++ action.logged) := by
  cases action with
  | append data =>
    refine { h with ring := h.ring.append data hsize, kept := ?_, whole := ?_, sent := ?_ }
    · exact (r.ring.capacity_append data).trans h.kept
    · exact Nat.le_trans h.whole (by rw [length_append]; omega)
    · rw [drop_append_of_le_length (Nat.le_trans h.start h.whole)]
      exact h.sent.trans (prefix_append _ _)
  | read capacity =>
    have hread := h.read_eq capacity
    rw [LogAction.logged, append_nil]
    unfold LogResponse.step
    dsimp only at hread ⊢
    rw [hread]
    by_cases hend : opened.follow = false ∧ opened.sequence + r.sent.length = opened.snapshotEnd
    · rw [if_pos hend, append_nil]
      exact h
    by_cases hlost : opened.sequence + r.sent.length + kept < log.length
    · rw [if_neg hend, if_pos hlost, append_nil]
      exact h
    rw [if_neg hend, if_neg hlost]
    dsimp only
    generalize htaken : min (log.length - (opened.sequence + r.sent.length)) _ = size
    have hlength : ((log.drop (opened.sequence + r.sent.length)).take size).length = size := by
      rw [length_take, length_drop]
      omega
    refine { h with stream := ?_, sent := ?_, bounded := ?_ }
    · rw [length_append, hlength, Nat.add_assoc]
    · obtain ⟨rest, hrest⟩ := h.sent
      rw [← drop_drop, ← hrest, drop_left]
      exact (prefix_append_right_inj _).2 ( take_prefix _ _)
    · intro hsnapshot
      have hbounded := h.bounded hsnapshot
      rw [hsnapshot, if_neg Bool.false_ne_true] at htaken
      rw [length_append, hlength]
      omega

/-- All of the snapshot is sent. -/
theorem Follows.complete_iff (h : r.Follows opened kept log) {seen : Bytes} (hseen : seen <+: log)
    (hend : opened.snapshotEnd = seen.length) : r.sent = seen.drop opened.sequence ↔
      opened.sequence + r.sent.length = opened.snapshotEnd := by
  have hstart := h.start
  constructor
  · intro hsent
    rw [hsent, length_drop]
    omega
  · intro hplace
    refine (prefix_of_prefix_length_le h.sent (IsPrefix.drop hseen _) ?_).eq_of_length ?_
    all_goals rw [length_drop]; omega

theorem Follows.run (h : r.Follows opened kept log) (actions : List LogAction)
    (hsize : (log ++ actions.flatMap LogAction.logged).length < 2 ^ 64) :
    (actions.foldl LogResponse.step r).Follows opened kept (log ++ actions.flatMap LogAction.logged) := by
  induction actions generalizing r log with
  | nil => exact (append_nil log).symm ▸ h
  | cons action rest ih =>
    rw [flatMap_cons, ← append_assoc] at hsize ⊢
    exact ih (h.step action (by rw [length_append] at hsize; omega)) hsize

end LogResponse

/-- A response begins at a byte that the ring has, and says if this is not the one that was asked for. Whatever is
logged meanwhile, it sends the log from there on: all there was at its beginning, or all there is as long as it is
followed. It fails only where the log is overwritten before it is sent, or where no byte is asked for. -/
theorem log_streamed {memory : Bytes} (hmemory : memory ≠ []) (earlier : List Bytes) (currentEpoch : Nat)
    (since epoch : Option Nat) (follow : Bool) (actions : List LogAction)
    (hsize : (earlier.flatten ++ actions.flatMap LogAction.logged).length < 2 ^ 64) :
    let ring := earlier.foldl DeveloperLogRing.append ⟨memory, 0⟩
    let opened := openLogStream ring currentEpoch since epoch follow
    let r := actions.foldl LogResponse.step ⟨ring, opened.1, []⟩
    let log := earlier.flatten ++ actions.flatMap LogAction.logged
    let complete := follow = false ∧ r.sent = earlier.flatten.drop opened.1.sequence
    ring.oldest ≤ opened.1.sequence ∧ opened.1.sequence ≤ earlier.flatten.length ∧
      (opened.2 = false → opened.1.sequence = since.getD ring.oldest ∧ ∀ asked, epoch = some asked → asked = currentEpoch) ∧
      r.sent <+: log.drop opened.1.sequence ∧
      ∀ capacity,
        ((r.stream.read r.ring capacity).1 = .ended ↔ complete) ∧
          ((r.stream.read r.ring capacity).1 = .error ↔ ¬ complete ∧
            (opened.1.sequence + r.sent.length + memory.length < log.length ∨ (follow = false ∧ capacity = 0))) := by
  intro ring opened r log complete
  obtain ⟨hring, hcapacity⟩ := (DeveloperLogRing.holds_init hmemory).appends earlier
    (by rw [length_append] at hsize; rw [nil_append]; omega)
  rw [nil_append] at hring
  have hnext : ring.nextSequence = earlier.flatten.length := hring.next
  have hold : ring.oldest ≤ ring.nextSequence := sub_le _ _
  have hstart : ring.oldest ≤ opened.1.sequence ∧ opened.1.sequence ≤ ring.nextSequence := by
    change ring.oldest ≤ (if _ then _ else _) ∧ (if _ then _ else _) ≤ _
    split_ifs <;> omega
  have hfollows : (⟨ring, opened.1, []⟩ : LogResponse).Follows opened.1 memory.length earlier.flatten :=
    ⟨hring, hcapacity, hstart.2, Nat.le_of_eq hnext, rfl, nil_prefix, fun _ => hstart.2⟩
  have hrun : r.Follows opened.1 memory.length log := hfollows.run actions hsize
  have hcomplete := hrun.complete_iff (prefix_append _ _) hnext
  refine ⟨hstart.1, hnext ▸ hstart.2, ?_, hrun.sent, ?_⟩
  · intro hgap
    change decide _ = false at hgap
    change (if (if _ then _ else _) > _ then _ else if _ then _ else _) = _ ∧ _
    rw [decide_eq_false_iff_not, not_or, not_or] at hgap
    obtain ⟨hepoch, hlower, hupper⟩ := hgap
    rw [if_neg (not_or.2 ⟨hepoch, hlower⟩), if_neg hupper]
    refine ⟨rfl, fun asked hasked => ?_⟩
    subst hasked
    simpa using hepoch
  · intro capacity
    have hread := hrun.read_eq capacity
    dsimp only at hread
    rw [hread]
    have hlength := hrun.sent.length_le
    rw [length_drop] at hlength
    have hbounded := hrun.bounded
    have hwhole := hrun.whole
    by_cases hend : opened.1.follow = false ∧ opened.1.sequence + r.sent.length = opened.1.snapshotEnd
    · rw [if_pos hend]
      have hdone : complete := ⟨hend.1, hcomplete.2 hend.2⟩
      simp [hdone]
    have hmore : ¬ complete := fun hdone => hend ⟨hdone.1, hcomplete.1 hdone.2⟩
    rw [if_neg hend]
    by_cases hlost : opened.1.sequence + r.sent.length + memory.length < log.length
    · rw [if_pos hlost]
      simp [hmore, hlost]
    rw [if_neg hlost]
    have hfollow : opened.1.follow = follow := rfl
    rw [hfollow] at hend hbounded ⊢
    cases follow
    · have hplace := Nat.lt_of_le_of_ne (hbounded rfl) fun hplace => hend ⟨rfl, hplace⟩
      rw [if_neg Bool.false_ne_true, if_neg Bool.false_ne_true]
      by_cases hnone : capacity = 0
      · simp [hmore, hnone]
      · rw [if_pos (by omega)]
        simp [hmore, hlost, hnone]
    · simp [hmore, hlost]
      split <;> simp

/-- A snapshot of three bytes, of which two are sent when it is overwritten. -/
theorem log_streamed_lost :
    let r := [.read 2, .append [4, 5, 6]].foldl LogResponse.step
      ⟨DeveloperLogRing.append ⟨[0, 0, 0], 0⟩ [1, 2, 3], ⟨0, 3, false⟩, []⟩
    r.sent = [1, 2] ∧ (r.stream.read r.ring 8).1 = .error := by
  obtain ⟨-, -, -, -, hread⟩ := log_streamed (show ([0, 0, 0] : Bytes) ≠ [] by decide) [[1, 2, 3]] 0 none none false
    [.read 2, .append [4, 5, 6]] (by decide)
  exact ⟨rfl, (hread 8).2.2 (by decide)⟩

end Bmx.Remote
