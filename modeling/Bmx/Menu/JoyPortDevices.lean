import Bmx.Base.Instances
import Mathlib.Data.Fin.VecNotation
import Mathlib.Data.List.FinRange

/-!
# The devices of the joystick ports

Which device a port has is kept in the port's menu item, in `joydevs` and in the emulator core, and that a port
has the mouse is a setting of its own. A choice in the menu, a swap and a refresh each bring some of them in line.
-/

namespace Bmx.Menu

abbrev JoyPort : Type := Fin 4

/-- `JOYDEV_NONE` and `JOYDEV_MOUSE`. -/
def joydevNone : Int32 := 0
def joydevMouse : Int32 := 20

/-- The devices of a port's choices: none, two gamepads, two GPIO banks, the keys, the mouse, two keysets, and
two gamepads more. -/
def choiceInts : Fin 14 → Int32 := ![0, 12, 13, 14, 15, 16, 17, 18, 19, 20, 2, 3, 21, 22]

/-- The ports that have a menu item. A second port comes with a first one. -/
structure JoyPortMenu where
  hasItem : JoyPort → Bool
  second : hasItem 1 → hasItem 0

/-- What is known of the ports: the choice of each item, `joydevs`, what the core was last given, and its
mouse setting. -/
structure JoyPortState where
  items : JoyPort → Fin 14
  joydevs : JoyPort → Int32
  core : JoyPort → Int32
  mouse : Bool

namespace JoyPortState

variable (c : JoyPortMenu)

def shown (s : JoyPortState) (p : JoyPort) : Int32 := choiceInts (s.items p)

/-- `emux_set_joy_port_device`. -/
def setJoyPortDevice (p : JoyPort) (device : Int32) (s : JoyPortState) : JoyPortState :=
  { s with core := Function.update s.core p device }

/-- `set_need_mouse`. The choices of the first item stand for those of the second. -/
def setNeedMouse (s : JoyPortState) : JoyPortState :=
  { s with mouse := (c.hasItem 0 && s.shown 0 = joydevMouse) || (c.hasItem 1 && s.shown 1 = joydevMouse) }

def dropMouse (p other : JoyPort) (s : JoyPortState) : JoyPortState :=
  if other = p then s
  else if c.hasItem other ∧ s.shown other = joydevMouse then
    { s.setJoyPortDevice other joydevNone with items := Function.update s.items other 0 }
  else s

def setJoyItemToValue (p : JoyPort) (value : Int32) (s : JoyPortState) : JoyPortState :=
  let s := { s with joydevs := Function.update s.joydevs p value }
  let s := if value = joydevMouse then (List.finRange 4).foldl (fun s other => s.dropMouse c p other) s else s
  s.setJoyPortDevice p value

/-- The item of a port shows the device in `joydevs`, if it is among the choices. -/
def matchItem (p : JoyPort) (s : JoyPortState) : JoyPortState :=
  if c.hasItem p then
    match (List.finRange 14).find? fun i => choiceInts i = s.joydevs p with
    | some i => { s with items := Function.update s.items p i }
    | none => s
  else s

def applyItem (p : JoyPort) (s : JoyPortState) : JoyPortState :=
  if c.hasItem p then s.setJoyItemToValue c p (s.shown p) else s

def uiSetJoyItems (s : JoyPortState) : JoyPortState :=
  let s := (List.finRange 4).foldl (fun s p => s.matchItem c p) s
  let s := (List.finRange 4).foldl (fun s p => s.applyItem c p) s
  s.setNeedMouse c

def menuSwapJoysticks (s : JoyPortState) : JoyPortState :=
  let s := if c.hasItem 0 ∧ s.shown 0 = joydevMouse then s.setJoyPortDevice 0 joydevNone else s
  let s := if c.hasItem 1 ∧ s.shown 1 = joydevMouse then s.setJoyPortDevice 1 joydevNone else s
  let joydevs := Function.update (Function.update s.joydevs 0 (s.joydevs 1)) 1 (s.joydevs 0)
  { s with joydevs := joydevs }.uiSetJoyItems c

/-- A choice in the menu of a port. -/
def choose (p : JoyPort) (i : Fin 14) (s : JoyPortState) : JoyPortState :=
  ({ s with items := Function.update s.items p i }.setJoyItemToValue c p (choiceInts i)).setNeedMouse c

inductive Step
  | choose (p : JoyPort) (i : Fin 14)
  | swap
  | refresh

/-- Only a port that has an item can be chosen for. -/
def step (step : Step) (s : JoyPortState) : JoyPortState :=
  match step with
  | .choose p i => if c.hasItem p then s.choose c p i else s
  | .swap => s.menuSwapJoysticks c
  | .refresh => s.uiSetJoyItems c

end JoyPortState

end Bmx.Menu
