import Bmx.Input.EmuxQueues

/-!
# The input queues are first in, first out

While every single event finds a free slot, a ring keeps what its drain loop has still to read: each
event is handled once, as it was queued, in the order of the events. A batch looks for room itself. A
single event that finds none takes the slot of the oldest.
-/

namespace Bmx.Input

open Interaction List Nat

/-! ### Counters -/

section

variable {size : Nat} {α : Type}

theorem tail_toNat {r : EventRing size α} {n : Nat} (hpending : r.pending = n) :
    r.tail.toBitVec.toNat = (r.head.toBitVec.toNat + n) % 2 ^ 32 := by
  have hdistance : (r.tail.toBitVec - r.head.toBitVec).toInt = n := by
    exact hpending
  rw [BitVec.toInt_eq_toNat_cond, BitVec.toNat_sub] at hdistance
  omega

theorem pending_advance {r : EventRing size α} {n : Nat} (hpending : r.pending = (n + 1 : Nat)) :
    EventRing.pending { r with head := r.head + 1 } = n := by
  have hmove : r.tail - (r.head + 1) = (r.tail - r.head) + -1 := by grind
  have hdistance : (r.tail - r.head).toInt = (n + 1 : Nat) := hpending
  have hbound := Int32.toInt_lt (r.tail - r.head)
  change (r.tail - (r.head + 1)).toInt = _
  rw [hmove, Int32.toInt_add, hdistance]
  change ((n + 1 : Nat) + -1 : Int).bmod (2 ^ 32) = n
  rw [Int.bmod_eq_of_le]
  · omega
  · omega
  · omega

theorem head_eq_tail_iff {r : EventRing size α} : r.head = r.tail ↔ r.pending = 0 := by
  unfold EventRing.pending
  constructor
  · intro hsame
    rw [hsame, Int32.sub_self]
    rfl
  · intro hnone
    have hzero : r.tail - r.head = 0 := Int32.toInt_inj.1 hnone
    grind

variable [NeZero size]

theorem index_succ (hsize : size ∣ 2 ^ 32) (counter : Int32) :
    (EventRing.index (counter + 1) : Fin size).val = ((EventRing.index counter : Fin size).val + 1) % size := by
  change ((counter + 1).toBitVec.toNat) % size = (counter.toBitVec.toNat % size + 1) % size
  rw [Int32.toBitVec_add, BitVec.toNat_add, mod_mod_of_dvd _ hsize, mod_add_mod]
  rfl

theorem index_tail (hsize : size ∣ 2 ^ 32) {r : EventRing size α} {n : Nat} (hpending : r.pending = n) :
    EventRing.index r.tail = Fin.ofNat size ((EventRing.index r.head : Fin size).val + n) := by
  apply Fin.ext
  change r.tail.toBitVec.toNat % size = (r.head.toBitVec.toNat % size + n) % size
  rw [tail_toNat hpending, mod_mod_of_dvd _ hsize, mod_add_mod]

theorem pending_queue {r : EventRing size α} {n : Nat} (hpending : r.pending = n) (hsmall : n + 1 < 2 ^ 31)
    (event : α) : (r.queue event).pending = (n + 1 : Nat) := by
  have hmove : r.tail + 1 - r.head = (r.tail - r.head) + 1 := by grind
  have hdistance : (r.tail - r.head).toInt = n := hpending
  change (r.tail + 1 - r.head).toInt = _
  have hone : (1 : Int32).toInt = 1 := rfl
  rw [hmove, Int32.toInt_add, hdistance, hone, Int.bmod_eq_of_le]
  · omega
  · omega
  · omega

/-! ### Rings -/

def EventRing.Keeps (written : List α) (first : Nat) (r : EventRing size α) : Prop :=
  ∃ n : Nat, r.pending = n ∧ Feed.Window written first r.events (EventRing.index r.head : Fin size).val n

variable {r : EventRing size α} {written : List α} {first : Nat}

theorem EventRing.Keeps.queue (hsize : size ∣ 2 ^ 32) (hsmall : size < 2 ^ 31) (h : r.Keeps written first)
    (hroom : r.pending < size) (event : α) : (r.queue event).Keeps (written ++ [event]) first := by
  obtain ⟨n, hpending, hwindow⟩ := h
  have hn : n < size := by omega
  refine ⟨n + 1, pending_queue hpending (by omega) event, ?_⟩
  have happended := hwindow.append hn event
  rw [← index_tail hsize hpending] at happended
  exact happended

theorem EventRing.Keeps.queueAll (hsize : size ∣ 2 ^ 32) (hsmall : size < 2 ^ 31) (events : List α)
    (h : r.Keeps written first) (hroom : r.pending + events.length ≤ size) :
    (events.foldl (fun r event => r.queue event) r).Keeps (written ++ events) first := by
  induction events generalizing r written with
  | nil =>
    rw [append_nil]
    exact h
  | cons event rest ih =>
    rw [length_cons] at hroom
    have hnext := h.queue hsize hsmall (by omega) event
    obtain ⟨n, hpending, -⟩ := h
    have hlater := pending_queue hpending (by omega) event
    have hall := ih hnext (by omega)
    rw [append_assoc] at hall
    exact hall

theorem EventRing.Keeps.bounded (h : r.Keeps written first) : 0 ≤ r.pending ∧ r.pending ≤ size := by
  obtain ⟨n, hpending, hwindow⟩ := h
  have hbounded := hwindow.bounded
  omega

theorem EventRing.Keeps.length (h : r.Keeps written first) : first + r.pending = written.length := by
  obtain ⟨n, hpending, hwindow⟩ := h
  have hall := hwindow.all
  omega

theorem EventRing.Keeps.contents (h : r.Keeps written first) : r.contents = written.drop first := by
  obtain ⟨n, hpending, hwindow⟩ := h
  unfold EventRing.contents
  rw [hpending]
  exact hwindow.ringList_eq

theorem EventRing.Keeps.oldest (h : r.Keeps written first) {event : α} (hevent : written[first]? = some event) :
    r.events (EventRing.index r.head) = event := by
  obtain ⟨n, hpending, hwindow⟩ := h
  have hlength := (List.getElem?_eq_some_iff.1 hevent).1
  have hall := hwindow.all
  have hslot := hwindow.slots 0 (by omega)
  have hindex : Fin.ofNat size ((EventRing.index r.head : Fin size).val + 0) = EventRing.index r.head := by
    apply Fin.ext
    exact mod_eq_of_lt (EventRing.index r.head).isLt
  rw [Nat.add_zero, hevent, hindex] at hslot
  exact (Option.some.inj hslot).symm

theorem EventRing.Keeps.advance (hsize : size ∣ 2 ^ 32) (h : r.Keeps written first)
    (hsome : first < written.length) : EventRing.Keeps written (first + 1) { r with head := r.head + 1 } := by
  obtain ⟨n, hpending, hwindow⟩ := h
  have hall := hwindow.all
  obtain ⟨m, rfl⟩ : ∃ m, n = m + 1 := exists_eq_succ_of_ne_zero (by omega)
  refine ⟨m, pending_advance hpending, ?_⟩
  have hadvanced := hwindow.advance (succ_ne_zero m)
  rw [← index_succ hsize] at hadvanced
  exact hadvanced

theorem queueBatch_cases (hpending : 0 ≤ r.pending ∧ r.pending ≤ size) (events : Option (Nat → α)) (count : Nat) :
    r.queueBatch events count = (false, r) ∨
      (r.pending + (EventQueue.batchEvents events count).length ≤ size ∧
        (EventQueue.batchEvents events count).length = count ∧
        r.queueBatch events count =
          (true, (EventQueue.batchEvents events count).foldl (fun r event => r.queue event) r)) := by
  unfold EventRing.queueBatch
  split
  · exact .inl rfl
  rename_i hgiven
  split
  · exact .inl rfl
  rename_i hroom
  have hfits : r.pending + count ≤ size := by
    unfold EventRing.free at hroom
    omega
  cases events with
  | none =>
    have hnone : count = 0 := by
      by_contra hsome
      exact hgiven (.inl ⟨hsome, rfl⟩)
    refine .inr ⟨?_, hnone.symm, rfl⟩
    simpa [EventQueue.batchEvents] using hpending.2
  | some events =>
    have hlength : (EventQueue.batchEvents (some events) count).length = count := by
      simp [EventQueue.batchEvents]
    refine .inr ⟨?_, hlength, ?_⟩
    · rw [hlength]
      exact hfits
    · simp [EventQueue.batchEvents, foldl_map]

end

/-! ### A queue and its drain loop -/

/-- The fields of an event, as a drain loop has read them. -/
def EventReader.readOf {α β σ : Type} (reader : EventReader α β σ) (fieldsRead : Nat) (event : α) : β :=
  (reader.fields.take fieldsRead).foldl (fun read field => field event read) reader.blank

namespace EventQueue

variable {size : Nat} [NeZero size] {α β σ : Type} {reader : EventReader α β σ} {initial : σ} {view : α → β}
  {q : EventQueue size α β σ}

def ReadsOldest (reader : EventReader α β σ) (q : EventQueue size α β σ) : Prop :=
  match q.drain with
  | .condition => True
  | .reading i fieldsRead read =>
    i = EventRing.index q.ring.head ∧ fieldsRead ≤ reader.fields.length ∧
      ∃ event, q.accepted[q.handled.length]? = some event ∧ read = reader.readOf fieldsRead event

structure Kept (reader : EventReader α β σ) (initial : σ) (view : α → β) (q : EventQueue size α β σ) : Prop where
  ring : q.ring.Keeps q.accepted q.handled.length
  handled : q.handled = (q.accepted.take q.handled.length).map view
  consumer : q.consumer = q.handled.foldl (fun consumer read => reader.handle read consumer) initial
  oldest : q.ReadsOldest reader

theorem Kept.handled_le (h : Kept reader initial view q) : q.handled.length ≤ q.accepted.length := by
  have hlength := h.ring.length
  have hbounded := h.ring.bounded
  omega

theorem Kept.accept (h : Kept reader initial view q) {ring : EventRing size α} {events : List α}
    (hring : ring.Keeps (q.accepted ++ events) q.handled.length) (hhead : ring.head = q.ring.head) :
    Kept reader initial view { q with ring := ring, accepted := q.accepted ++ events } := by
  refine ⟨hring, ?_, h.consumer, ?_⟩
  · have hbefore := h.handled
    change q.handled = ((q.accepted ++ events).take q.handled.length).map view
    rw [take_append_of_le_length h.handled_le]
    exact hbefore
  · have holdest := h.oldest
    unfold ReadsOldest at holdest ⊢
    split
    · trivial
    · rename_i i fieldsRead read hdrain
      rw [hdrain] at holdest
      obtain ⟨hindex, hfields, event, hevent, hread⟩ := holdest
      refine ⟨?_, hfields, event, ?_, hread⟩
      · rw [hhead]
        exact hindex
      · rw [getElem?_append_left (List.getElem?_eq_some_iff.1 hevent).1]
        exact hevent

theorem head_queueAll (events : List α) (r : EventRing size α) :
    (events.foldl (fun r event => r.queue event) r).head = r.head := by
  induction events generalizing r with
  | nil => rfl
  | cons event rest ih => exact ih (r.queue event)

theorem Kept.queue (hsize : size ∣ 2 ^ 32) (hsmall : size < 2 ^ 31) (h : Kept reader initial view q)
    (hroom : q.ring.pending < size) (event : α) :
    Kept reader initial view (q.answered (true, q.ring.queue event) [event]) :=
  h.accept (h.ring.queue hsize hsmall hroom event) rfl

theorem Kept.batch (hsize : size ∣ 2 ^ 32) (hsmall : size < 2 ^ 31) (h : Kept reader initial view q)
    (events : Option (Nat → α)) (count : Nat) :
    Kept reader initial view (q.answered (q.ring.queueBatch events count) (batchEvents events count)) := by
  rcases queueBatch_cases h.ring.bounded events count with hrefused | ⟨hroom, -, hqueued⟩
  · rw [hrefused]
    exact h
  · rw [hqueued]
    exact h.accept (h.ring.queueAll hsize hsmall _ hroom) (head_queueAll _ _)

theorem Kept.drainStep (hsize : size ∣ 2 ^ 32)
    (hview : ∀ event, reader.readOf reader.fields.length event = view event) (h : Kept reader initial view q) :
    Kept reader initial view (q.drainStep reader) := by
  have holdest := h.oldest
  unfold ReadsOldest at holdest
  unfold EventQueue.drainStep
  split
  · split
    · rename_i hsome
      rw [ne_eq, head_eq_tail_iff] at hsome
      have hlength := h.ring.length
      have hfirst : q.handled.length < q.accepted.length := by
        have hbounded := h.ring.bounded
        omega
      refine ⟨h.ring, h.handled, h.consumer, rfl, Nat.zero_le _, q.accepted[q.handled.length], ?_, rfl⟩
      exact getElem?_eq_getElem hfirst
    · exact h
  · rename_i i fieldsRead read hdrain
    rw [hdrain] at holdest
    obtain ⟨rfl, hfields, event, hevent, rfl⟩ := holdest
    split
    · rename_i field hfield
      obtain ⟨hmore, rfl⟩ := List.getElem?_eq_some_iff.1 hfield
      refine ⟨h.ring, h.handled, h.consumer, rfl, hmore, event, hevent, ?_⟩
      rw [h.ring.oldest hevent]
      unfold EventReader.readOf
      rw [take_succ_eq_append_getElem hmore, foldl_append]
      rfl
    · rename_i hnone
      have hall : fieldsRead = reader.fields.length := by
        have hend := List.getElem?_eq_none_iff.1 hnone
        omega
      obtain ⟨hfirst, hevent⟩ := List.getElem?_eq_some_iff.1 hevent
      have hread : reader.readOf fieldsRead event = view event := by
        rw [hall]
        exact hview event
      have hadvanced := h.ring.advance hsize hfirst
      refine ⟨?_, ?_, ?_, trivial⟩
      · dsimp only
        rw [length_append]
        exact hadvanced
      · dsimp only
        rw [length_append, length_singleton, take_succ_eq_append_getElem hfirst, map_append, ← h.handled, hevent, hread]
        rfl
      · dsimp only
        rw [foldl_append, ← h.consumer]
        rfl

/-! ### The drain loop ends -/

/-- The steps that a drain loop still has to take. -/
def work (reader : EventReader α β σ) (q : EventQueue size α β σ) : Nat :=
  match q.drain with
  | .condition => (q.accepted.length - q.handled.length) * (reader.fields.length + 2)
  | .reading _ fieldsRead _ =>
    (q.accepted.length - q.handled.length - 1) * (reader.fields.length + 2) + (reader.fields.length + 1 - fieldsRead)

theorem accepted_drainStep (reader : EventReader α β σ) (q : EventQueue size α β σ) :
    (q.drainStep reader).accepted = q.accepted := by
  unfold EventQueue.drainStep
  split
  · split
    · rfl
    · rfl
  · split
    · rfl
    · rfl

theorem Kept.work_drainStep (h : Kept reader initial view q) (hwork : q.work reader ≠ 0) :
    (q.drainStep reader).work reader < q.work reader := by
  have holdest := h.oldest
  unfold ReadsOldest at holdest
  unfold EventQueue.drainStep
  cases hdrain : q.drain with
  | condition =>
    unfold work at hwork
    rw [hdrain] at hwork holdest
    have hsome : q.accepted.length - q.handled.length ≠ 0 := fun hnone => hwork (by simp [hnone])
    have hlength := h.ring.length
    have hne : q.ring.head ≠ q.ring.tail := by
      rw [ne_eq, head_eq_tail_iff]
      omega
    obtain ⟨m, hm⟩ := exists_eq_succ_of_ne_zero hsome
    simp only [if_pos hne, work, hdrain, hm, succ_mul, succ_sub_one]
    omega
  | reading i fieldsRead read =>
    rw [hdrain] at holdest
    cases hfield : reader.fields[fieldsRead]? with
    | some field =>
      simp only [work, hdrain, hfield]
      omega
    | none =>
      simp only [work, hdrain, hfield, length_append, length_singleton, sub_add_eq]
      omega

theorem Kept.exists_drained (hsize : size ∣ 2 ^ 32)
    (hview : ∀ event, reader.readOf reader.fields.length event = view event) (h : Kept reader initial view q) :
    ∃ steps, ((EventQueue.drainStep reader)^[steps] q).handled = q.accepted.map view := by
  induction hn : q.work reader using Nat.strong_induction_on generalizing q with
  | _ n ih =>
    by_cases hwork : q.work reader = 0
    · refine ⟨0, ?_⟩
      have hall : q.accepted.length ≤ q.handled.length := by
        have holdest := h.oldest
        unfold ReadsOldest at holdest
        unfold work at hwork
        split at hwork
        · simp only [Nat.mul_eq_zero] at hwork
          omega
        · rename_i i fieldsRead read hdrain
          rw [hdrain] at holdest
          omega
      have hhandled := h.handled
      rw [take_of_length_le hall] at hhandled
      exact hhandled
    · have hless := h.work_drainStep hwork
      rw [hn] at hless
      obtain ⟨steps, hsteps⟩ := ih _ hless (h.drainStep hsize hview) rfl
      rw [accepted_drainStep] at hsteps
      exact ⟨steps + 1, hsteps⟩

/-- A bounded queue, first in, first out. `view` is what is read of an event. -/
structure Fifo (reader : EventReader α β σ) (initial : σ) (view : α → β) (q : EventQueue size α β σ) : Prop where
  bounded : 0 ≤ q.ring.pending ∧ q.ring.pending ≤ size
  /-- What was accepted was handled in order, or waits. -/
  inOrder : q.handled = (q.accepted.take q.handled.length).map view
  waiting : q.ring.contents = q.accepted.drop q.handled.length
  consumer : q.consumer = q.handled.foldl (fun consumer read => reader.handle read consumer) initial
  /-- A drain loop that goes on handles everything. -/
  drained : ∃ steps, ((EventQueue.drainStep reader)^[steps] q).handled = q.accepted.map view
  /-- A batch is queued whole or refused. -/
  batch : ∀ (events : Option (Nat → α)) (count : Nat),
    ((q.ring.queueBatch events count).1 = true → q.ring.pending + count ≤ size ∧
      (q.ring.queueBatch events count).2.contents = q.ring.contents ++ batchEvents events count) ∧
    ((q.ring.queueBatch events count).1 = false → (q.ring.queueBatch events count).2 = q.ring)

theorem Kept.fifo (hsize : size ∣ 2 ^ 32) (hsmall : size < 2 ^ 31)
    (hview : ∀ event, reader.readOf reader.fields.length event = view event) (h : Kept reader initial view q) :
    Fifo reader initial view q := by
  refine ⟨h.ring.bounded, h.handled, h.ring.contents, h.consumer, h.exists_drained hsize hview, ?_⟩
  intro events count
  rcases queueBatch_cases h.ring.bounded events count with hrefused | ⟨hroom, hcount, hqueued⟩
  · rw [hrefused]
    exact ⟨fun htrue => Bool.noConfusion htrue, fun _ => rfl⟩
  · rw [hqueued]
    refine ⟨fun _ => ⟨?_, ?_⟩, fun hfalse => Bool.noConfusion hfalse⟩
    · rw [hcount] at hroom
      exact hroom
    · have hall := h.ring.queueAll hsize hsmall _ hroom
      rw [hall.contents, h.ring.contents, drop_append_of_le_length h.handled_le]

end EventQueue

/-! ### Runs -/

/-- What the drain loop reads of a joystick change. -/
def joyChangeOf (event : PendingEmuJoy) : JoyChange := ⟨event.value, event.type, event.port⟩

namespace EmuxQueues

variable {κ : Type} {handle : PendingEmuKey → κ → κ} {consumer : κ} {q : EmuxQueues κ}

/-- Both queues are bounded and first in, first out. -/
structure Fifo (handle : PendingEmuKey → κ → κ) (consumer : κ) (q : EmuxQueues κ) : Prop where
  keys : q.keys.Fifo (keyReader handle) consumer id
  joys : q.joys.Fifo joyReader (fun _ => 0) joyChangeOf

/-- A single event finds a free slot. -/
def Roomy (action : EmuxAction) (q : EmuxQueues κ) : Prop :=
  match action with
  | .keyInterruptMod .. | .keyInterrupt .. | .keyInterruptLocked .. => q.keys.ring.pending < pendingEmuKeySize
  | .joyInterrupt .. => q.joys.ring.pending < pendingEmuJoySize
  | _ => True

instance (action : EmuxAction) (q : EmuxQueues κ) : Decidable (Roomy action q) :=
  match action with
  | .keyInterruptMod .. | .keyInterrupt .. | .keyInterruptLocked .. =>
    inferInstanceAs (Decidable (q.keys.ring.pending < pendingEmuKeySize))
  | .joyInterrupt .. => inferInstanceAs (Decidable (q.joys.ring.pending < pendingEmuJoySize))
  | .keyInterruptBatch .. | .joyInterruptBatch .. | .drainKeys | .drainJoy => inferInstanceAs (Decidable True)

/-- Every single event of a run finds a free slot. -/
def RoomyRun (handle : PendingEmuKey → κ → κ) (q : EmuxQueues κ) : List EmuxAction → Prop
  | [] => True
  | action :: rest => Roomy action q ∧ RoomyRun handle (q.step handle action) rest

def decideRoomyRun (handle : PendingEmuKey → κ → κ) (q : EmuxQueues κ) :
    (actions : List EmuxAction) → Decidable (RoomyRun handle q actions)
  | [] => inferInstanceAs (Decidable True)
  | action :: rest =>
    have := decideRoomyRun handle (q.step handle action) rest
    inferInstanceAs (Decidable (Roomy action q ∧ RoomyRun handle (q.step handle action) rest))

instance (handle : PendingEmuKey → κ → κ) (q : EmuxQueues κ) (actions : List EmuxAction) :
    Decidable (RoomyRun handle q actions) := decideRoomyRun handle q actions

structure Kept (handle : PendingEmuKey → κ → κ) (consumer : κ) (q : EmuxQueues κ) : Prop where
  keys : q.keys.Kept (keyReader handle) consumer id
  joys : q.joys.Kept joyReader (fun _ => 0) joyChangeOf

theorem init_kept (handle : PendingEmuKey → κ → κ) (consumer : κ) : Kept handle consumer (init consumer) := by
  have hnone : ((0 : Int32) - 0).toInt = 0 := by decide
  exact ⟨⟨⟨0, hnone, Feed.window_empty _⟩, rfl, rfl, trivial⟩, ⟨⟨0, hnone, Feed.window_empty _⟩, rfl, rfl, trivial⟩⟩

theorem step_kept (action : EmuxAction) (h : Kept handle consumer q) (hroomy : Roomy action q) :
    Kept handle consumer (q.step handle action) := by
  have hkeySize : pendingEmuKeySize ∣ 2 ^ 32 := by decide
  have hjoySize : pendingEmuJoySize ∣ 2 ^ 32 := by decide
  cases action with
  | keyInterruptMod key pressed mod
  | keyInterrupt key pressed
  | keyInterruptLocked key pressed => exact ⟨h.keys.queue hkeySize (by decide) hroomy _, h.joys⟩
  | keyInterruptBatch keys pressed modifiers count => exact ⟨h.keys.batch hkeySize (by decide) _ count, h.joys⟩
  | joyInterrupt type port device value => exact ⟨h.keys, h.joys.queue hjoySize (by decide) hroomy _⟩
  | joyInterruptBatch ports devices values count => exact ⟨h.keys, h.joys.batch hjoySize (by decide) _ count⟩
  | drainKeys => exact ⟨h.keys.drainStep hkeySize fun _ => rfl, h.joys⟩
  | drainJoy => exact ⟨h.keys, h.joys.drainStep hjoySize fun _ => rfl⟩

theorem run_kept (actions : List EmuxAction) (h : Kept handle consumer q) (hroomy : RoomyRun handle q actions) :
    Kept handle consumer (q.run handle actions) := by
  induction actions generalizing q with
  | nil => exact h
  | cons action rest ih => exact ih (step_kept action h hroomy.1) hroomy.2

/-- While single events find free slots, both queues are bounded and first in, first out. -/
theorem run_fifo (handle : PendingEmuKey → κ → κ) (consumer : κ) (actions : List EmuxAction)
    (hroomy : RoomyRun handle (init consumer) actions) : Fifo handle consumer ((init consumer).run handle actions) := by
  have hkept := run_kept actions (init_kept handle consumer) hroomy
  exact ⟨hkept.keys.fifo (by decide) (by decide) fun _ => rfl, hkept.joys.fifo (by decide) (by decide) fun _ => rfl⟩

/-- A key and a batch that is refused, a joystick change, and the key is handled. -/
def roomyActions : List EmuxAction :=
  [.keyInterrupt 4 1, .keyInterruptBatch (some fun _ => 5) (some fun _ => 1) (some fun _ => 0) 16,
    .joyInterrupt 0 1 0 31, .drainKeys, .drainKeys, .keyInterruptLocked 6 1, .drainKeys, .drainKeys, .drainKeys]

theorem roomyActions_fifo :
    Fifo (fun key pressed => key :: pressed) [] ((init []).run (fun key pressed => key :: pressed) roomyActions) :=
  run_fifo (fun key pressed => key :: pressed) [] roomyActions (by decide)

/-- Seventeen keys, of which the first is read. -/
def crowdedActions : List EmuxAction :=
  List.replicate 16 (.keyInterrupt 4 1) ++ .keyInterrupt 5 1 :: List.replicate 5 .drainKeys

/-- The seventeenth key takes the slot of the first. -/
theorem crowdedActions_overtaken :
    ((init ()).run (fun _ _ => ()) (crowdedActions.take 17)).keys.ring.pending = 17 ∧
      ¬ Fifo (fun _ _ => ()) () ((init ()).run (fun _ _ => ()) crowdedActions) := by
  constructor
  · decide
  · intro h
    have hhandled : ((init ()).run (fun _ _ => ()) crowdedActions).keys.handled = [⟨5, 0, 1⟩] := by decide
    have hfirst : ((init ()).run (fun _ _ => ()) crowdedActions).keys.accepted.take 1 = [⟨4, 0, 1⟩] := by
      decide
    have horder := h.keys.inOrder
    rw [hhandled, length_singleton, hfirst, List.map_id] at horder
    cases head_eq_of_cons_eq horder

end EmuxQueues

end Bmx.Input
