import Bmx.Interaction.Feed

/-!
# The input queues of the emulator

Keys and joystick changes wait in two rings until the emulator drains them. Producers hold the lock from
their first to their last access. The emulator holds no lock: it reads an event field by field, and only
then moves the head.
-/

namespace Bmx.Input

/-- A ring of events. Its counters run freely, modulo `2 ^ 32`, and their low bits are the places. -/
structure EventRing (size : Nat) (α : Type) where
  head : Int32
  tail : Int32
  events : Fin size → α

namespace EventRing

variable {size : Nat} [NeZero size] {α : Type}

/-- `counter & (size - 1)`. -/
def index (counter : Int32) : Fin size := Fin.ofNat size counter.toBitVec.toNat

/-- `tail - head`. -/
def pending (r : EventRing size α) : Int := (r.tail - r.head).toInt

/-- An event is put behind the others, whether or not there is room. -/
def queue (event : α) (r : EventRing size α) : EventRing size α :=
  { r with events := Function.update r.events (index r.tail) event, tail := r.tail + 1 }

/-- The free slots, as a `size_t`. -/
def free (r : EventRing size α) : Nat := (((size : Int) - r.pending) % 2 ^ 64).toNat

/-- What both batches do. `events` are there where no pointer is null. -/
def queueBatch (events : Option (Nat → α)) (count : Nat) (r : EventRing size α) : Bool × EventRing size α :=
  if (count ≠ 0 ∧ events.isNone) ∨ count > size then (false, r)
  else if r.pending < 0 ∨ count > r.free then (false, r)
  else
    match events with
    | none => (true, r)
    | some events => (true, (List.range count).foldl (fun r n => r.queue (events n)) r)

/-- The events that wait in a ring, from the oldest on. -/
def contents (r : EventRing size α) : List α :=
  Interaction.Feed.ringList r.events (index r.head : Fin size).val r.pending.toNat

end EventRing

/-! ### Keys and joystick changes -/

abbrev pendingEmuKeySize : Nat := 16
abbrev pendingEmuJoySize : Nat := 128

structure PendingEmuKey where
  key : Int64
  mod : Int32
  pressed : Int32
  deriving DecidableEq

structure PendingEmuJoy where
  value : Int32
  port : Int32
  type : Int32
  device : Int32

def pendingEmuJoyTypeAbsolute : Int32 := 0
def pendingEmuJoyTypeAnd : Int32 := 1
def pendingEmuJoyTypeOr : Int32 := 2

abbrev KeyRing := EventRing pendingEmuKeySize PendingEmuKey
abbrev JoyRing := EventRing pendingEmuJoySize PendingEmuJoy

def emuxKeyInterruptMod (key : Int64) (pressed mod : Int32) (r : KeyRing) : KeyRing := r.queue ⟨key, mod, pressed⟩

def emuxKeyInterrupt (key : Int64) (pressed : Int32) (r : KeyRing) : KeyRing := emuxKeyInterruptMod key pressed 0 r

/-- Its caller holds the lock. -/
def emuxKeyInterruptLocked (key : Int64) (pressed : Int32) (r : KeyRing) : KeyRing := r.queue ⟨key, 0, pressed⟩

def keyBatch (keys : Option (Nat → Int64)) (pressed modifiers : Option (Nat → Int32)) :
    Option (Nat → PendingEmuKey) := do
  let keys ← keys
  let pressed ← pressed
  let modifiers ← modifiers
  return fun n => ⟨keys n, modifiers n, pressed n⟩

def emuxKeyInterruptBatch (keys : Option (Nat → Int64)) (pressed modifiers : Option (Nat → Int32)) (count : Nat)
    (r : KeyRing) : Bool × KeyRing := r.queueBatch (keyBatch keys pressed modifiers) count

def JoyRing.waiting (r : JoyRing) : List PendingEmuJoy := r.contents

def emuxJoyInterrupt (type port device value : Int32) (r : JoyRing) : JoyRing := r.queue ⟨value, port, type, device⟩

/-- The events of a batch of joystick changes. -/
def joyBatch (ports devices values : Option (Nat → Int32)) : Option (Nat → PendingEmuJoy) := do
  let ports ← ports
  let devices ← devices
  let values ← values
  return fun n => ⟨values n, ports n, pendingEmuJoyTypeAbsolute, devices n⟩

def emuxJoyInterruptBatch (ports devices values : Option (Nat → Int32)) (count : Nat) (r : JoyRing) :
    Bool × JoyRing := r.queueBatch (joyBatch ports devices values) count

/-! ### Draining -/

/-- How a drain loop reads an event, one field after the other, and what it does with what it read. -/
structure EventReader (α β σ : Type) where
  blank : β
  fields : List (α → β → β)
  handle : β → σ → σ

/-- `drain_keys`. What it does with a key is a parameter. -/
def keyReader {κ : Type} (handle : PendingEmuKey → κ → κ) : EventReader PendingEmuKey PendingEmuKey κ where
  blank := ⟨0, 0, 0⟩
  fields :=
    [fun event read => { read with key := event.key },
      fun event read => { read with pressed := event.pressed },
      fun event read => { read with mod := event.mod }]
  handle := handle

/-- What `drain_joy` reads of an event. -/
structure JoyChange where
  value : Int32
  type : Int32
  port : Int32

def joyLatchOf (port : Int32) : Option (Fin 2) := if port = 1 then some 0 else if port = 2 then some 1 else none

/-- `s_joy_latch` after a change. -/
def latchJoy (change : JoyChange) (latch : Fin 2 → Int32) : Fin 2 → Int32 :=
  match joyLatchOf change.port with
  | none => latch
  | some idx =>
    let bits := change.value &&& 0x1f
    if change.type = pendingEmuJoyTypeAbsolute then Function.update latch idx bits
    else if change.type = pendingEmuJoyTypeAnd then Function.update latch idx (latch idx &&& bits)
    else if change.type = pendingEmuJoyTypeOr then Function.update latch idx (latch idx ||| bits)
    else latch

/-- `drain_joy`. -/
def joyReader : EventReader PendingEmuJoy JoyChange (Fin 2 → Int32) where
  blank := ⟨0, 0, 0⟩
  fields :=
    [fun event read => { read with value := event.value },
      fun event read => { read with type := event.type },
      fun event read => { read with port := event.port }]
  handle := latchJoy

/-- Where a drain loop is: at its condition, or with some fields of an event read. -/
inductive DrainPoint (size : Nat) (β : Type)
  | condition
  | reading (i : Fin size) (fieldsRead : Nat) (read : β)

/-- A ring and its drain loop. What was accepted and what was handled are kept beside them. -/
structure EventQueue (size : Nat) (α β σ : Type) where
  ring : EventRing size α
  drain : DrainPoint size β := .condition
  consumer : σ
  accepted : List α := []
  handled : List β := []

namespace EventQueue

variable {size : Nat} [NeZero size] {α β σ : Type}

def answered (answer : Bool × EventRing size α) (events : List α) (q : EventQueue size α β σ) :
    EventQueue size α β σ :=
  { q with ring := answer.2, accepted := if answer.1 then q.accepted ++ events else q.accepted }

def batchEvents (events : Option (Nat → α)) (count : Nat) : List α :=
  match events with
  | none => []
  | some events => (List.range count).map events

/-- A step of a drain loop. After its end it may begin again. -/
def drainStep (reader : EventReader α β σ) (q : EventQueue size α β σ) : EventQueue size α β σ :=
  match q.drain with
  | .condition =>
    if q.ring.head ≠ q.ring.tail then
      { q with drain := .reading (EventRing.index q.ring.head) 0 reader.blank }
    else q
  | .reading i fieldsRead read =>
    match reader.fields[fieldsRead]? with
    | some field => { q with drain := .reading i (fieldsRead + 1) (field (q.ring.events i) read) }
    | none =>
      { q with
        ring := { q.ring with head := q.ring.head + 1 }
        drain := .condition
        consumer := reader.handle read q.consumer
        handled := q.handled ++ [read] }

/-- A step of `drain_joy`. -/
def drainJoy (reader : EventReader PendingEmuJoy β σ) (q : EventQueue pendingEmuJoySize PendingEmuJoy β σ) :
    EventQueue pendingEmuJoySize PendingEmuJoy β σ := q.drainStep reader

end EventQueue

/-! ### Both queues -/

structure EmuxQueues (κ : Type) where
  keys : EventQueue pendingEmuKeySize PendingEmuKey PendingEmuKey κ
  joys : EventQueue pendingEmuJoySize PendingEmuJoy JoyChange (Fin 2 → Int32)

inductive EmuxAction
  | keyInterruptMod (key : Int64) (pressed mod : Int32)
  | keyInterrupt (key : Int64) (pressed : Int32)
  | keyInterruptLocked (key : Int64) (pressed : Int32)
  | keyInterruptBatch (keys : Option (Nat → Int64)) (pressed modifiers : Option (Nat → Int32)) (count : Nat)
  | joyInterrupt (type port device value : Int32)
  | joyInterruptBatch (ports devices values : Option (Nat → Int32)) (count : Nat)
  | drainKeys
  | drainJoy

namespace EmuxQueues

variable {κ : Type}

def init (consumer : κ) : EmuxQueues κ where
  keys := { ring := ⟨0, 0, fun _ => ⟨0, 0, 0⟩⟩, consumer := consumer }
  joys := { ring := ⟨0, 0, fun _ => ⟨0, 0, 0, 0⟩⟩, consumer := fun _ => 0 }

def step (handle : PendingEmuKey → κ → κ) (action : EmuxAction) (q : EmuxQueues κ) : EmuxQueues κ :=
  match action with
  | .keyInterruptMod key pressed mod =>
    { q with keys := q.keys.answered (true, emuxKeyInterruptMod key pressed mod q.keys.ring) [⟨key, mod, pressed⟩] }
  | .keyInterrupt key pressed =>
    { q with keys := q.keys.answered (true, emuxKeyInterrupt key pressed q.keys.ring) [⟨key, 0, pressed⟩] }
  | .keyInterruptLocked key pressed =>
    { q with keys := q.keys.answered (true, emuxKeyInterruptLocked key pressed q.keys.ring) [⟨key, 0, pressed⟩] }
  | .keyInterruptBatch keys pressed modifiers count =>
    { q with
      keys := q.keys.answered (emuxKeyInterruptBatch keys pressed modifiers count q.keys.ring)
        (EventQueue.batchEvents (keyBatch keys pressed modifiers) count) }
  | .joyInterrupt type port device value =>
    { q with
      joys := q.joys.answered (true, emuxJoyInterrupt type port device value q.joys.ring)
        [⟨value, port, type, device⟩] }
  | .joyInterruptBatch ports devices values count =>
    { q with
      joys := q.joys.answered (emuxJoyInterruptBatch ports devices values count q.joys.ring)
        (EventQueue.batchEvents (joyBatch ports devices values) count) }
  | .drainKeys => { q with keys := q.keys.drainStep (keyReader handle) }
  | .drainJoy => { q with joys := q.joys.drainJoy joyReader }

def run (handle : PendingEmuKey → κ → κ) (actions : List EmuxAction) (q : EmuxQueues κ) : EmuxQueues κ :=
  actions.foldl (fun q action => q.step handle action) q

end EmuxQueues

end Bmx.Input
