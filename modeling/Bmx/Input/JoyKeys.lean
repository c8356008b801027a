import Bmx.Input.EmuxQueues

/-!
# Joystick keys

A keyboard joystick device takes the keys that are mapped to its inputs. While the menu is up, the two
numpad devices turn theirs into navigation; otherwise a press sets bits of a port's latch, and a release
clears them.
-/

namespace Bmx.Input

def keycodeReturn : Int64 := 0x28
def keycodeSpace : Int64 := 0x2C
def keycodeF7 : Int64 := 0x40
def keycodeF12 : Int64 := 0x45
def keycodeRight : Int64 := 0x4F
def keycodeLeft : Int64 := 0x50
def keycodeDown : Int64 := 0x51
def keycodeUp : Int64 := 0x52
def keycodeKP1 : Int64 := 0x59
def keycodeKP2 : Int64 := 0x5a
def keycodeKP3 : Int64 := 0x5b
def keycodeKP4 : Int64 := 0x5c
def keycodeKP5 : Int64 := 0x5d
def keycodeKP6 : Int64 := 0x5e
def keycodeKP7 : Int64 := 0x5f
def keycodeKP8 : Int64 := 0x60
def keycodeKP9 : Int64 := 0x61
def keycodeKP0 : Int64 := 0x62
def keycodeLeftControl : Int64 := 0x102

/-- The devices that the keyboard drives, `JOYDEV_NUMS_1` to `JOYDEV_KEYSET2`, and the others. -/
inductive JoyDevice
  | nums1 | nums2 | cursSp | cursLc | keyset1 | keyset2
  | other (code : Int32)
  deriving DecidableEq

def JoyDevice.code : JoyDevice → Int32
  | .nums1 => 17
  | .nums2 => 18
  | .cursSp => 16
  | .cursLc => 19
  | .keyset1 => 2
  | .keyset2 => 3
  | .other code => code

/-- `JOYDEV_NUMS_1`, `JOYDEV_NUMS_2`, `JOYDEV_CURS_SP`, `JOYDEV_CURS_LC`, `JOYDEV_KEYSET1`, `JOYDEV_KEYSET2`. -/
def JoyDevice.isKeyboard : JoyDevice → Bool
  | .other _ => false
  | _ => true

/-- The inputs of a joystick, in the order of `keyset_codes`. -/
inductive JoyInput
  | up | down | left | right | fire | potX | potY
  deriving DecidableEq

def JoyInput.all : List JoyInput := [.up, .down, .left, .right, .fire, .potX, .potY]

structure JoydevConfig where
  port : Int32
  device : JoyDevice

/-- What the menu has set. `kbd.c` looks at two of the devices. -/
structure JoyConfig where
  joydevs : Fin 2 → JoydevConfig
  keysetCodes : Fin 2 → JoyInput → Int64
  potXHighValue : Int32
  potXLowValue : Int32
  potYHighValue : Int32
  potYLowValue : Int32

def JoyConfig.keyOf (c : JoyConfig) : JoyDevice → JoyInput → Option Int64
  | .nums1, .up => some keycodeKP8
  | .nums1, .down => some keycodeKP2
  | .nums1, .left => some keycodeKP4
  | .nums1, .right => some keycodeKP6
  | .nums1, .fire => some keycodeKP5
  | .nums2, .up => some keycodeKP9
  | .nums2, .down => some keycodeKP3
  | .nums2, .left => some keycodeKP7
  | .nums2, .right => some keycodeKP1
  | .nums2, .fire => some keycodeKP0
  | .cursSp, .up | .cursLc, .up => some keycodeUp
  | .cursSp, .down | .cursLc, .down => some keycodeDown
  | .cursSp, .left | .cursLc, .left => some keycodeLeft
  | .cursSp, .right | .cursLc, .right => some keycodeRight
  | .cursSp, .fire => some keycodeSpace
  | .cursLc, .fire => some keycodeLeftControl
  | .keyset1, input => some (c.keysetCodes ⟨0, Nat.two_pos⟩ input)
  | .keyset2, input => some (c.keysetCodes ⟨1, Nat.one_lt_two⟩ input)
  | _, _ => none

/-- The first input of a device that has a key. The handlers take the key as an `int`. -/
def JoyConfig.inputOf (c : JoyConfig) (device : JoyDevice) (key : Int32) : Option JoyInput :=
  JoyInput.all.find? fun input => c.keyOf device input = some key.toInt64

/-- The navigation key of an input, while the menu is up. -/
def JoyInput.navigation : JoyInput → Option Int64
  | .up => some keycodeUp
  | .down => some keycodeDown
  | .left => some keycodeLeft
  | .right => some keycodeRight
  | .fire => some keycodeReturn
  | .potX | .potY => none

/-- A change of a latch, as the queue carries it. -/
structure LatchChange where
  type : Int32
  value : Int32

/-- What a press sets. A pot goes from its high value to its low one. -/
def JoyConfig.pressChanges (c : JoyConfig) : JoyInput → List LatchChange
  | .up => [⟨pendingEmuJoyTypeOr, 0x01⟩]
  | .down => [⟨pendingEmuJoyTypeOr, 0x02⟩]
  | .left => [⟨pendingEmuJoyTypeOr, 0x04⟩]
  | .right => [⟨pendingEmuJoyTypeOr, 0x08⟩]
  | .fire => [⟨pendingEmuJoyTypeOr, 0x10⟩]
  | .potX => [⟨pendingEmuJoyTypeAnd, ~~~(c.potXHighValue <<< 5)⟩, ⟨pendingEmuJoyTypeOr, c.potXLowValue <<< 5⟩]
  | .potY => [⟨pendingEmuJoyTypeAnd, ~~~(c.potYHighValue <<< 13)⟩, ⟨pendingEmuJoyTypeOr, c.potYLowValue <<< 13⟩]

def JoyConfig.releaseChanges (c : JoyConfig) : JoyInput → List LatchChange
  | .up => [⟨pendingEmuJoyTypeAnd, ~~~0x01⟩]
  | .down => [⟨pendingEmuJoyTypeAnd, ~~~0x02⟩]
  | .left => [⟨pendingEmuJoyTypeAnd, ~~~0x04⟩]
  | .right => [⟨pendingEmuJoyTypeAnd, ~~~0x08⟩]
  | .fire => [⟨pendingEmuJoyTypeAnd, ~~~0x10⟩]
  | .potX => [⟨pendingEmuJoyTypeAnd, ~~~(c.potXLowValue <<< 5)⟩, ⟨pendingEmuJoyTypeOr, c.potXHighValue <<< 5⟩]
  | .potY => [⟨pendingEmuJoyTypeAnd, ~~~(c.potYLowValue <<< 13)⟩, ⟨pendingEmuJoyTypeOr, c.potYHighValue <<< 13⟩]

/-- `BTN_ASSIGN_*`: what a hotkey can be assigned to, and the other codes. -/
inductive BtnAssign
  | menu | warp | statusToggle | swapPorts | tapeMenu | cartMenu | cartFreeze | resetHard | resetSoft
  | activeDisplay | pipLocation | pipSwap | columns4080 | resetMenu | flushDisk | attachTape | attachCart
  | attachDisk8 | attachDisk9 | attachDisk10 | attachDisk11 | sidFilterOsd
  | other (code : Int32)
  deriving DecidableEq, Repr

/-- What a key leads to. The slot of a hotkey is kept beside its call. -/
inductive KbdCall
  | emuUiKeyInterrupt (key : Int64) (pressed : Bool)
  | emuxKeyInterruptMod (key : Int64) (pressed : Bool) (mod : Int32)
  | emuxJoyInterrupt (type port device value : Int32)
  | emuQuickFuncInterrupt (slot : Fin 8) (function : BtnAssign)
  | uiTogglePending (slot : Option (Fin 8))
  | rawKeycodeFunc (key : Int64)
  | switchSafe
  | reboot

/-- What both handlers do with a key, or nothing where the device leaves it to others. -/
def JoyConfig.joyKey (c : JoyConfig) (changes : JoyInput → List LatchChange) (pressed uiEnabled : Bool)
    (device : Fin 2) (key : Int32) : Option (List KbdCall) :=
  let joydev := c.joydevs device
  if uiEnabled then
    if joydev.device = .nums1 ∨ joydev.device = .nums2 then do
      let input ← c.inputOf joydev.device key
      let navigation ← input.navigation
      return [.emuUiKeyInterrupt navigation pressed]
    else none
  else do
    let input ← c.inputOf joydev.device key
    return (changes input).map fun change =>
      .emuxJoyInterrupt change.type joydev.port joydev.device.code change.value

def JoyConfig.joyKeyDown (c : JoyConfig) (uiEnabled : Bool) (device : Fin 2) (key : Int32) : Option (List KbdCall) :=
  c.joyKey c.pressChanges true uiEnabled device key

def JoyConfig.joyKeyUp (c : JoyConfig) (uiEnabled : Bool) (device : Fin 2) (key : Int32) : Option (List KbdCall) :=
  c.joyKey c.releaseChanges false uiEnabled device key

end Bmx.Input
