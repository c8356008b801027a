import Bmx.Input.Keyboard
import Bmx.Input.EmuxQueuesSpec

/-!
# Joystick ports

The events of the joystick queue change the ports. A port has a stick, whose directions and fire are bits,
and two pots, whose values are bytes.
-/

namespace Bmx.Input

/-- A port. `stick` is what `drain_joy` keeps. It takes no notice of pots; the other emulator keeps them. -/
structure PortLatch where
  stick : Int32
  potX : UInt8
  potY : UInt8

def potXBitMask : Int32 := 0x1fe0
def potYBitMask : Int32 := 0x1fe000

/-- The byte of a value that belongs to the first pot, as `raspi_set_potx` takes it. -/
def potXOf (value : Int32) : UInt8 := UInt8.ofBitVec (((value &&& potXBitMask) >>> 5).toBitVec.setWidth 8)

def potYOf (value : Int32) : UInt8 := UInt8.ofBitVec (((value &&& potYBitMask) >>> 13).toBitVec.setWidth 8)

def PortLatch.change (type value : Int32) (latch : PortLatch) : PortLatch :=
  let bits := value &&& 0x1f
  if type = pendingEmuJoyTypeAbsolute then ⟨bits, potXOf value, potYOf value⟩
  else if type = pendingEmuJoyTypeAnd then
    ⟨latch.stick &&& bits, latch.potX &&& potXOf value, latch.potY &&& potYOf value⟩
  else if type = pendingEmuJoyTypeOr then
    ⟨latch.stick ||| bits, latch.potX ||| potXOf value, latch.potY ||| potYOf value⟩
  else latch

def latchPorts (change : JoyChange) (latches : Fin 2 → PortLatch) : Fin 2 → PortLatch :=
  match joyLatchOf change.port with
  | none => latches
  | some idx => Function.update latches idx ((latches idx).change change.type change.value)

/-- The drain loop, over ports. -/
def portReader : EventReader PendingEmuJoy JoyChange (Fin 2 → PortLatch) where
  blank := joyReader.blank
  fields := joyReader.fields
  handle := latchPorts

abbrev JoyQueue := EventQueue pendingEmuJoySize PendingEmuJoy JoyChange (Fin 2 → PortLatch)

/-- The pots of a port are set high when the emulator starts. -/
def JoyConfig.idle (c : JoyConfig) : PortLatch where
  stick := 0
  potX := UInt8.ofBitVec (c.potXHighValue.toBitVec.setWidth 8)
  potY := UInt8.ofBitVec (c.potYHighValue.toBitVec.setWidth 8)

def JoyQueue.call (call : KbdCall) (q : JoyQueue) : JoyQueue :=
  match call with
  | .emuxJoyInterrupt type port device value =>
    EventQueue.answered (true, emuxJoyInterrupt type port device value q.ring) [⟨value, port, type, device⟩] q
  | _ => q

/-- The keyboard with the joystick queue and the ports behind it. `driving` tells of each key that is held whether it
was pressed while the menu was down. -/
structure JoyRun where
  kbd : Kbd := {}
  joys : JoyQueue
  held : Int64 → Bool := fun _ => false
  driving : Int64 → Bool := fun _ => false

inductive JoyAction
  | key (action : KbdAction)
  | drainJoy

namespace JoyRun

variable (c : KbdConfig)

def start : JoyRun where
  joys := { ring := ⟨0, 0, fun _ => ⟨0, 0, 0, 0⟩⟩, consumer := fun _ => c.joy.idle }

/-- The keys that are held from a press with the menu down. -/
def drivingAfter (action : KbdAction) (r : JoyRun) : Int64 → Bool :=
  match action with
  | .press key _ _ => Function.update r.driving key (r.driving key || !r.kbd.uiEnabled)
  | .release key _ _ => Function.update r.driving key false
  | _ => r.driving

def step (action : JoyAction) (r : JoyRun) : JoyRun :=
  match action with
  | .key action =>
    let (calls, kbd) := r.kbd.act c action
    { kbd := kbd
      joys := calls.foldl (fun q call => JoyQueue.call call q) r.joys
      held := action.heldAfter r.held
      driving := r.drivingAfter action }
  | .drainJoy => { r with joys := r.joys.drainJoy portReader }

def run (actions : List JoyAction) (r : JoyRun) : JoyRun := actions.foldl (fun r action => r.step c action) r

/-- The ports, once the queued events are applied. -/
def ports (r : JoyRun) : Fin 2 → PortLatch :=
  (JoyRing.waiting r.joys.ring).foldl (fun latches event => latchPorts (joyChangeOf event) latches) r.joys.consumer

end JoyRun

end Bmx.Input
