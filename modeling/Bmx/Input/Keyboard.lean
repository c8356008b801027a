import Bmx.Input.JoyKeys

/-!
# The keyboard

Every key event passes the joystick devices and the hotkeys before it reaches the menu or the emulator.
A hotkey is a second key that is pressed while the Commodore or the Control key is held. Some functions
are invoked when the second key is released, the others when a modifier is.
-/

namespace Bmx.Input

/-- What the menu has set: the joysticks and the two modifier keys. -/
structure KbdConfig where
  joy : JoyConfig
  commodoreKeySym : Int64
  ctrlKeySym : Int64

structure KeyComboState where
  secondKey : Int64 := 0
  invoked : Bool := false
  function : BtnAssign := .other 0

structure Kbd where
  commodoreDown : Bool := false
  controlDown : Bool := false
  f7Down : Bool := false
  videoResetTimeDown : UInt64 := 0
  keyComboStates : Fin 8 → KeyComboState := fun _ => {}
  /-- `ui_enabled`, and whether `raw_keycode_func` is set: the menu changes both. -/
  uiEnabled : Bool := false
  rawKeycodeFunc : Bool := false

def videoResetTimeDelay : UInt64 := 1000000 * 5

def commodoreSlots : List (Fin 8) := [0, 1, 2, 3]
def controlSlots : List (Fin 8) := [4, 5, 6, 7]
def comboSlots : List (Fin 8) := commodoreSlots ++ controlSlots

/-- The functions that are invoked when the second key is released. -/
def BtnAssign.atKeyRelease : BtnAssign → Bool
  | .warp | .swapPorts | .statusToggle | .cartFreeze | .activeDisplay | .pipLocation | .pipSwap | .columns4080
  | .flushDisk => true
  | _ => false

/-- The functions, besides the menu, that are invoked when a modifier is released. -/
def BtnAssign.atModifierRelease : BtnAssign → Bool
  | .resetMenu | .resetHard | .resetSoft | .tapeMenu | .cartMenu | .sidFilterOsd | .attachTape | .attachCart
  | .attachDisk8 | .attachDisk9 | .attachDisk10 | .attachDisk11 => true
  | _ => false

namespace Kbd

def kbdSetHotkeyFunction (slot : Nat) (key : Int64) (function : BtnAssign) (s : Kbd) : Kbd :=
  if h : slot < 8 then
    { s with
      keyComboStates := Function.update s.keyComboStates ⟨slot, h⟩
        { secondKey := key, invoked := false, function := function } }
  else s

def setInvoked (slot : Fin 8) (invoked : Bool) (s : Kbd) : Kbd :=
  { s with
    keyComboStates := Function.update s.keyComboStates slot { s.keyComboStates slot with invoked := invoked } }

/-- The slot of a key, among those whose modifier is down. -/
def comboOf (key : Int64) (s : Kbd) : Option (Fin 8) :=
  ((if s.commodoreDown then commodoreSlots else []) ++ (if s.controlDown then controlSlots else [])).find?
    fun slot => (s.keyComboStates slot).secondKey = key

def handleKeyComboPress (key : Int64) (s : Kbd) : Bool × Kbd :=
  match s.comboOf key with
  | some slot => (true, s.setInvoked slot true)
  | none => (false, s)

/-- The first slot of a key that waits for a release. -/
def invokedOf (key : Int64) (s : Kbd) : Option (Fin 8) :=
  comboSlots.find? fun slot => (s.keyComboStates slot).secondKey = key ∧ (s.keyComboStates slot).invoked

/-- The release of a second key is consumed, where the function can be invoked now. -/
def handleKeyComboRelease (key : Int64) (s : Kbd) : Bool × List KbdCall × Kbd :=
  match s.invokedOf key with
  | some slot =>
    if (s.keyComboStates slot).function.atKeyRelease then
      (true, [.emuQuickFuncInterrupt slot (s.keyComboStates slot).function], s.setInvoked slot false)
    else (false, [], s)
  | none => (false, [], s)

/-- What a slot that waits for a modifier's release leads to. -/
def comboCalls (slot : Fin 8) (s : Kbd) : List KbdCall :=
  if (s.keyComboStates slot).invoked then
    if (s.keyComboStates slot).function = .menu then [.uiTogglePending (some slot)]
    else if (s.keyComboStates slot).function.atModifierRelease then
      [.emuQuickFuncInterrupt slot (s.keyComboStates slot).function]
    else []
  else []

/-- All slots that wait are cleared, and the functions that can only be invoked now are. -/
def handleKeyComboFunction (s : Kbd) : List KbdCall × Kbd :=
  (comboSlots.flatMap fun slot => s.comboCalls slot,
    { s with keyComboStates := fun slot => { s.keyComboStates slot with invoked := false } })

variable (c : KbdConfig)

/-- The modifiers and `F7` are noted, whatever becomes of the key. -/
def notePress (key : Int64) (ticks : UInt64) (s : Kbd) : Kbd :=
  if key = c.commodoreKeySym then { s with commodoreDown := true }
  else if key = c.ctrlKeySym then { s with controlDown := true }
  else if key = keycodeF7 then
    { s with f7Down := true, videoResetTimeDown := if s.commodoreDown then ticks else s.videoResetTimeDown }
  else s

/-- The safe video mode is restored where `F7` was held long enough. -/
def noteRelease (key : Int64) (ticks : UInt64) (s : Kbd) : List KbdCall × Kbd :=
  if key = c.commodoreKeySym then ([], { s with commodoreDown := false })
  else if key = c.ctrlKeySym then ([], { s with controlDown := false })
  else if key = keycodeF7 then
    (if s.commodoreDown ∧ ticks - s.videoResetTimeDown ≥ videoResetTimeDelay then [.switchSafe, .reboot] else [],
      { s with f7Down := false })
  else ([], s)

def deviceTakes (joyKey : Fin 2 → Int32 → Option (List KbdCall)) (device : Fin 2) (key : Int64) :
    Option (List KbdCall) :=
  if (c.joy.joydevs device).device.isKeyboard then joyKey device key.toInt32 else none

def joyTakes (joyKey : Fin 2 → Int32 → Option (List KbdCall)) (key : Int64) : Option (List KbdCall) :=
  (List.finRange 2).findSome? fun device => deviceTakes c joyKey device key

/-- A key goes to the menu or to the emulator. -/
def passOn (key : Int64) (pressed : Bool) (mod : Int32) (s : Kbd) : List KbdCall :=
  if s.uiEnabled then [.emuUiKeyInterrupt key pressed] else [.emuxKeyInterruptMod key pressed mod]

def emuKeyPressedMod (key : Int64) (mod : Int32) (ticks : UInt64) (s : Kbd) : List KbdCall × Kbd :=
  if s.rawKeycodeFunc then ([], s)
  else
    let s := s.notePress c key ticks
    match joyTakes c (c.joy.joyKeyDown s.uiEnabled) key with
    | some calls => (calls, s)
    | none =>
      match s.handleKeyComboPress key with
      | (true, s) => ([], s)
      | (false, s) => (s.passOn key true mod, s)

/-- The last steps of a release: the hotkeys, and who else is told of it. -/
def finishRelease (key : Int64) (mod : Int32) (s : Kbd) : List KbdCall × Kbd :=
  match s.handleKeyComboRelease key with
  | (true, calls, s) => (calls, s)
  | (false, calls, s) =>
    let calls := calls ++ s.passOn key false mod
    if key = c.commodoreKeySym ∨ key = c.ctrlKeySym then
      let (invoked, s) := s.handleKeyComboFunction
      (calls ++ invoked, s)
    else (calls, s)

/-- Both functions that await a raw key unset `raw_keycode_func`. -/
def emuKeyReleasedMod (key : Int64) (mod : Int32) (ticks : UInt64) (s : Kbd) : List KbdCall × Kbd :=
  if s.rawKeycodeFunc then ([.rawKeycodeFunc key], { s with rawKeycodeFunc := false })
  else
    let (noted, s) := s.noteRelease c key ticks
    if key = keycodeF12 then
      if s.uiEnabled then (noted ++ [.emuUiKeyInterrupt key false], s)
      else (noted ++ [.emuxKeyInterruptMod key false 0, .uiTogglePending none], s)
    else
      match joyTakes c (c.joy.joyKeyUp s.uiEnabled) key with
      | some calls => (noted ++ calls, s)
      | none =>
        let (calls, s) := s.finishRelease c key mod
        (noted ++ calls, s)

end Kbd

/-! ### Runs -/

/-- A key event, or a change that the menu makes. -/
inductive KbdAction
  | press (key : Int64) (mod : Int32) (ticks : UInt64)
  | release (key : Int64) (mod : Int32) (ticks : UInt64)
  | setUiEnabled (enabled : Bool)
  | setRawKeycodeFunc

def Kbd.act (c : KbdConfig) (action : KbdAction) (s : Kbd) : List KbdCall × Kbd :=
  match action with
  | .press key mod ticks => s.emuKeyPressedMod c key mod ticks
  | .release key mod ticks => s.emuKeyReleasedMod c key mod ticks
  | .setUiEnabled enabled => ([], { s with uiEnabled := enabled })
  | .setRawKeycodeFunc => ([], { s with rawKeycodeFunc := true })

def KbdAction.heldAfter (action : KbdAction) (held : Int64 → Bool) : Int64 → Bool :=
  match action with
  | .press key _ _ => Function.update held key true
  | .release key _ _ => Function.update held key false
  | _ => held

/-- A key is pressed while it is up, and released while it is held. -/
def KbdAction.Alternates (action : KbdAction) (held : Int64 → Bool) : Prop :=
  match action with
  | .press key _ _ => held key = false
  | .release key _ _ => held key = true
  | _ => True

instance (action : KbdAction) (held : Int64 → Bool) : Decidable (action.Alternates held) :=
  match action with
  | .press key _ _ => inferInstanceAs (Decidable (held key = false))
  | .release key _ _ => inferInstanceAs (Decidable (held key = true))
  | .setUiEnabled _ | .setRawKeycodeFunc => inferInstanceAs (Decidable True)

end Bmx.Input
