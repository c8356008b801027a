import Bmx.Input.EmuxQueues

/-!
# The virtual keyboard

Joysticks and pads move one cursor over the keys of a machine and press the key it is on. A toggle key changes its state at
each press. Any other key is set to what the press or the release says. The keys act on the latched keyboard matrix, but for
Restore, which is queued as a key event. Drawing is left out, and what only drawing reads.
-/

namespace Bmx.Input

abbrev joydevNumJoydevs : Nat := 23

def vkbdCntrl : Int32 := -12
def vkbdCommodore : Int32 := -17
def vkbdLshift : Int32 := -18
def vkbdRshift : Int32 := -19

/-- A key of a layout of `n` keys, which names its neighbours. -/
structure VkbdKey (n : Nat) where
  row : Int32
  col : Int32
  toggle : Int32
  code : Int32
  up : Fin n
  down : Fin n
  left : Fin n
  right : Fin n

/-- The keys of a machine and the code that stands for Restore. -/
structure VkbdLayout (n : Nat) where
  keys : Fin n → VkbdKey n
  restoreKeySym : Int64

/-- The cursor, the state that each key shows, the latched matrix and the key events that were queued. -/
structure VirtualKeyboard (n : Nat) where
  cursor : Fin n
  state : Fin n → Int32 := fun _ => 0
  press : Fin joydevNumJoydevs → Int32 := fun _ => 0
  lshiftDown : Int32 := 0
  rshiftDown : Int32 := 0
  commodoreDown : Int32 := 0
  cntrlDown : Int32 := 0
  latch : Int32 × Int32 → Bool := fun _ => false
  queued : List PendingEmuKey := []

namespace VirtualKeyboard

variable {n : Nat}

/-- `emux_kbd_set_latch_keyarr`; the matrix has no negative rows and columns. -/
def emuxKbdSetLatchKeyarr (row col value : Int32) (v : VirtualKeyboard n) : VirtualKeyboard n :=
  if row < 0 ∨ col < 0 then v else { v with latch := Function.update v.latch (row, col) (value ≠ 0) }

/-- What a toggle key tells the labels. -/
def showModifier (code state : Int32) (v : VirtualKeyboard n) : VirtualKeyboard n :=
  if code = vkbdLshift then { v with lshiftDown := state }
  else if code = vkbdRshift then { v with rshiftDown := state }
  else if code = vkbdCommodore then { v with commodoreDown := state }
  else if code = vkbdCntrl then { v with cntrlDown := state }
  else v

def vkbdNavPress (layout : VkbdLayout n) (pressed : Int32) (device : Fin joydevNumJoydevs) (v : VirtualKeyboard n) :
    VirtualKeyboard n :=
  let key := layout.keys v.cursor
  let acted :=
    if key.toggle ≠ 0 then
      if pressed ≠ 0 then
        let state := 1 - v.state v.cursor
        let toggled := { v with state := Function.update v.state v.cursor state }
        showModifier key.code state (toggled.emuxKbdSetLatchKeyarr key.col key.row state)
      else v
    else
      let sent :=
        if key.row = 0 ∧ key.col = -3 then { v with queued := v.queued ++ [⟨layout.restoreKeySym, 0, pressed⟩] }
        else v.emuxKbdSetLatchKeyarr key.col key.row pressed
      { sent with state := Function.update sent.state v.cursor pressed }
  { acted with press := Function.update acted.press device pressed }

/-- What the devices do. -/
inductive Call
  | up | down | left | right
  | press (pressed : Int32) (device : Fin joydevNumJoydevs)

/-- `vkbd_nav_up`, `vkbd_nav_down`, `vkbd_nav_left`, `vkbd_nav_right` and `vkbd_nav_press` -/
def step (layout : VkbdLayout n) (v : VirtualKeyboard n) : Call → VirtualKeyboard n
  | .up => { v with cursor := (layout.keys v.cursor).up }
  | .down => { v with cursor := (layout.keys v.cursor).down }
  | .left => { v with cursor := (layout.keys v.cursor).left }
  | .right => { v with cursor := (layout.keys v.cursor).right }
  | .press pressed device => v.vkbdNavPress layout pressed device

/-- Each device presses and releases in turn, `held` being what it did last. -/
def Alternates : (Fin joydevNumJoydevs → Bool) → List Call → Prop
  | _, [] => True
  | held, .press pressed device :: calls =>
    (held device = true ↔ pressed = 0) ∧ Alternates (Function.update held device (pressed ≠ 0)) calls
  | held, _ :: calls => Alternates held calls

/-! ### What is latched -/

end VirtualKeyboard

/-- What a key acts on. -/
inductive VkbdLead
  | restore
  | matrix (row col : Int32)
  deriving DecidableEq

/-- The lead of a key; the shift lock has none. -/
def VkbdKey.lead {n : Nat} (key : VkbdKey n) : Option VkbdLead :=
  if key.toggle = 0 ∧ key.row = 0 ∧ key.col = -3 then some .restore
  else if key.col < 0 ∨ key.row < 0 then none
  else some (.matrix key.col key.row)

namespace VirtualKeyboard

variable {n : Nat}

/-- The emulator holds a lead down. -/
def level (v : VirtualKeyboard n) : VkbdLead → Bool
  | .restore => v.queued.getLast?.any (fun event => event.pressed ≠ 0)
  | .matrix row col => v.latch (row, col)

/-- A key is latched in the emulator. -/
def Latched (layout : VkbdLayout n) (v : VirtualKeyboard n) (i : Fin n) : Prop :=
  ∃ lead, (layout.keys i).lead = some lead ∧ v.level lead = true

/-- While no device holds its press no key is latched but toggle keys. These are latched just when they show it,
whatever is held. -/
structure NothingStuck (layout : VkbdLayout n) (v : VirtualKeyboard n) : Prop where
  typed : (∀ device, v.press device = 0) → ∀ i, (layout.keys i).toggle = 0 → ¬ v.Latched layout i
  toggles : ∀ i, (layout.keys i).toggle ≠ 0 → (v.Latched layout i ↔ v.state i ≠ 0)

/-- What a press or a release sets the key under the cursor to, if it acts on it. -/
def given (layout : VkbdLayout n) (v : VirtualKeyboard n) (pressed : Int32) : Option Int32 :=
  if (layout.keys v.cursor).toggle = 0 then some pressed
  else if pressed ≠ 0 then some (1 - v.state v.cursor)
  else none

/-- The key under the cursor, set to `value`, disagrees with no toggle key: each other one on its lead shows the same, and a
toggle key without a lead is not switched on. -/
structure Agrees (layout : VkbdLayout n) (v : VirtualKeyboard n) (value : Int32) : Prop where
  others : ∀ i, i ≠ v.cursor → (layout.keys i).toggle ≠ 0 → (layout.keys i).lead = (layout.keys v.cursor).lead →
    (layout.keys i).lead ≠ none → (v.state i ≠ 0 ↔ value ≠ 0)
  leads : (layout.keys v.cursor).toggle ≠ 0 → (layout.keys v.cursor).lead = none → value = 0

/-- Of the keys that are no toggle keys only the one under the cursor is latched. -/
def OnlyCursor (layout : VkbdLayout n) (v : VirtualKeyboard n) : Prop :=
  ∀ i, (layout.keys i).toggle = 0 → v.Latched layout i →
    (layout.keys v.cursor).toggle = 0 ∧ (layout.keys i).lead = (layout.keys v.cursor).lead

/-- A press or a release agrees with the toggle keys, and the last release finds the cursor on what is latched. -/
def HarmlessCall (layout : VkbdLayout n) (v : VirtualKeyboard n) : Call → Prop
  | .press pressed device =>
    (∀ value, v.given layout pressed = some value → v.Agrees layout value) ∧
      (pressed = 0 → (∀ other, other ≠ device → v.press other = 0) → v.OnlyCursor layout)
  | _ => True

/-- All calls of a run are harmless, each when its turn comes. -/
def Harmless (layout : VkbdLayout n) : VirtualKeyboard n → List Call → Prop
  | _, [] => True
  | v, call :: calls => v.HarmlessCall layout call ∧ (v.step layout call).Harmless layout calls

end VirtualKeyboard

end Bmx.Input
