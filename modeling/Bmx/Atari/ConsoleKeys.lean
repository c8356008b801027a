import Bmx.Input.EmuxQueues
import Mathlib.Data.Fintype.Basic

/-!
# The console keys of the Atari

The drain loop of the Atari core turns the key events of a frame into the levels of the console keys. F2, F3 and F4 stand for
them always, and F6 to F11 as the keyboard menu assigns them.
-/

namespace Bmx.Atari

open Input

/-! ### Keys -/

def keycodeCapsLock : Int64 := 0x39
def keycodeF1 : Int64 := 0x3A
def keycodeF2 : Int64 := 0x3B
def keycodeF3 : Int64 := 0x3C
def keycodeF4 : Int64 := 0x3D
def keycodeF5 : Int64 := 0x3E
def keycodeF6 : Int64 := 0x3F
def keycodeF11 : Int64 := 0x44
def keycodeDelete : Int64 := 0x4C
def keycodeLeftShift : Int64 := 0x100
def keycodeRightShift : Int64 := 0x101
def keycodeLeftControl : Int64 := 0x102
def keycodeRightControl : Int64 := 0x103

/-- Whether `hid_to_akey` knows a key: letters, digits and signs but for the back quote, the arrows, and F1. -/
def hasAkey (hid : Int64) : Bool :=
  (0x04 ≤ hid ∧ hid ≤ 0x31) ∨ hid = 0x33 ∨ hid = 0x34 ∨ (0x36 ≤ hid ∧ hid ≤ 0x38) ∨ (0x4F ≤ hid ∧ hid ≤ 0x52) ∨
    hid = keycodeF1

/-- Whether `hid_to_ascii` has a character for a key that is not shifted. -/
def hasAscii (hid : Int64) : Bool :=
  (0x04 ≤ hid ∧ hid ≤ 0x31) ∨ (0x33 ≤ hid ∧ hid ≤ 0x38) ∨ hid = keycodeDelete

/-! ### The drain loop -/

/-- The static variables that the loop writes. -/
structure InputState where
  shiftDown : Bool := false
  ctrlDown : Bool := false
  shiftExplicit : Bool := false
  ctrlExplicit : Bool := false
  start : Bool := false
  select : Bool := false
  option : Bool := false
  helpHeld : Bool := false
  resetPending : Bool := false
  capsTogglePending : Bool := false
  lastHid : Int32 := 0
  uiTogglePending : Int32 := 0

/-- `g_fkey_action` -/
abbrev FkeyActions : Type := Fin 6 → Int32

/-- The place of a key among F6 to F11. -/
def fkeySlot (key : Int64) : Option (Fin 6) :=
  if keycodeF6 ≤ key ∧ key ≤ keycodeF11 then
    some ⟨(key - keycodeF6).toInt.toNat % 6, Nat.mod_lt _ (by decide)⟩
  else none

def takeModifiers (event : PendingEmuKey) (s : InputState) : InputState :=
  let pressed : Bool := event.pressed ≠ 0
  let shiftExplicit := if event.key = keycodeLeftShift ∨ event.key = keycodeRightShift then pressed else s.shiftExplicit
  let ctrlExplicit := if event.key = keycodeLeftControl ∨ event.key = keycodeRightControl then pressed else s.ctrlExplicit
  { s with
    shiftExplicit := shiftExplicit
    ctrlExplicit := ctrlExplicit
    shiftDown := if event.mod &&& 0x03 ≠ 0 then true else shiftExplicit
    ctrlDown := if event.mod &&& 0x0c ≠ 0 then true else ctrlExplicit }

/-- The action of one of the keys F6 to F11. -/
def takeAction (action : Int32) (pressed : Bool) (s : InputState) : InputState :=
  if action = 1 then { s with helpHeld := pressed }
  else if action = 2 then { s with start := pressed }
  else if action = 3 then { s with select := pressed }
  else if action = 4 then { s with option := pressed }
  else if action = 5 then { s with resetPending := s.resetPending || pressed }
  else if action = 6 then { s with uiTogglePending := if pressed then 2 else s.uiTogglePending }
  else s

def takeTyped (key : Int64) (pressed : Bool) (s : InputState) : InputState :=
  if key = keycodeCapsLock then { s with capsTogglePending := s.capsTogglePending || pressed }
  else if pressed then
    if hasAscii key ∨ hasAkey key then { s with lastHid := key.toInt32 } else s
  else if key.toInt32 = s.lastHid then { s with lastHid := 0 }
  else s

/-- A round of `drain_keys`. -/
def drainKey (actions : FkeyActions) (s : InputState) (event : PendingEmuKey) : InputState :=
  let pressed : Bool := event.pressed ≠ 0
  let s := takeModifiers event s
  if event.key = keycodeLeftShift ∨ event.key = keycodeRightShift ∨ event.key = keycodeLeftControl ∨
      event.key = keycodeRightControl then s
  else if event.key = keycodeF2 then { s with start := pressed }
  else if event.key = keycodeF3 then { s with select := pressed }
  else if event.key = keycodeF4 then { s with option := pressed }
  else if event.key = keycodeF5 then { s with resetPending := s.resetPending || pressed }
  else
    match fkeySlot event.key with
    | some slot => takeAction (actions slot) pressed s
    | none => takeTyped event.key pressed s

/-- `drain_keys` over the events that wait -/
def drainKeys (actions : FkeyActions) (s : InputState) (events : List PendingEmuKey) : InputState :=
  events.foldl (drainKey actions) s

/-- An assignment of the keyboard menu or of the settings file. -/
def assignFkey (actions : FkeyActions) (slot : Fin 6) (value : Int32) : FkeyActions :=
  Function.update actions slot (if value < 0 ∨ value > 6 then 0 else value)

/-! ### Console keys -/

inductive ConsoleKey
  | start | select | option | help
  deriving DecidableEq

/-- The level that the core is given. -/
def InputState.level (s : InputState) : ConsoleKey → Bool
  | .start => s.start
  | .select => s.select
  | .option => s.option
  | .help => s.helpHeld

def actionKey (action : Int32) : Option ConsoleKey :=
  if action = 1 then some .help
  else if action = 2 then some .start
  else if action = 3 then some .select
  else if action = 4 then some .option
  else none

def consoleKey (actions : FkeyActions) (key : Int64) : Option ConsoleKey :=
  if key = keycodeF2 then some .start
  else if key = keycodeF3 then some .select
  else if key = keycodeF4 then some .option
  else (fkeySlot key).bind fun slot => actionKey (actions slot)

/-- What happens between two looks at the levels: a drain, or a change of the assignments. -/
inductive Step
  | drain (events : List PendingEmuKey)
  | assign (slot : Fin 6) (value : Int32)

/-- The core, with the keys that were pressed and not released since. -/
structure Console where
  input : InputState
  actions : FkeyActions
  held : Int64 → Bool

/-- No key is held yet. -/
def Console.init (actions : FkeyActions) : Console := ⟨{}, actions, fun _ => false⟩

def Console.takeEvent (c : Console) (event : PendingEmuKey) : Console where
  input := drainKey c.actions c.input event
  actions := c.actions
  held := Function.update c.held event.key (event.pressed ≠ 0)

def Console.step (c : Console) : Step → Console
  | .drain events =>
    { input := drainKeys c.actions c.input events
      actions := c.actions
      held := events.foldl (fun held event => Function.update held event.key (event.pressed ≠ 0)) c.held }
  | .assign slot value => { c with actions := assignFkey c.actions slot value }

/-- Some key that is held is assigned to a console key. -/
def Console.Holds (c : Console) (console : ConsoleKey) : Prop :=
  ∃ key, c.held key = true ∧ consoleKey c.actions key = some console

/-- The levels are those of the keys that are held. -/
def Console.Follows (c : Console) : Prop := ∀ console, c.input.level console = true ↔ c.Holds console

/-- With a key that is released no other key is held that is assigned to the same console key. -/
def Console.Alone (c : Console) (event : PendingEmuKey) : Prop :=
  event.pressed = 0 → ∀ console, consoleKey c.actions event.key = some console →
    ∀ other, c.held other = true → consoleKey c.actions other = some console → other = event.key

/-- A new assignment leaves it as it is which console keys the held keys are assigned to. -/
def Console.Keeps (c : Console) (slot : Fin 6) (value : Int32) : Prop :=
  ∀ console, (c.step (.assign slot value)).Holds console ↔ c.Holds console

/-- The releases among events are alone, each when its turn comes. -/
def Console.HarmlessEvents : Console → List PendingEmuKey → Prop
  | _, [] => True
  | c, event :: events => c.Alone event ∧ (c.takeEvent event).HarmlessEvents events

def Console.HarmlessStep (c : Console) : Step → Prop
  | .drain events => c.HarmlessEvents events
  | .assign slot value => c.Keeps slot value

/-- All releases of a run are alone, and all its assignments keep the console keys that are held. -/
def Console.Harmless : Console → List Step → Prop
  | _, [] => True
  | c, step :: steps => c.HarmlessStep step ∧ (c.step step).Harmless steps

end Bmx.Atari
