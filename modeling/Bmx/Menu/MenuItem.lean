import Bmx.Base.Instances
import Mathlib.Data.Fin.Basic

/-!
# Menu items

A key or the mouse adjusts the value of an item, and the item's handler is told of it. Keys step to the left
and to the right, in large or in fine steps. The wheel turns a range in large steps, and a drag in fine ones.
-/

namespace Bmx.Menu

inductive MenuItemType
  | toggle | checkbox | multipleChoice | button | range | folder | divider | textField
  deriving DecidableEq

abbrev maxChoices : Nat := 64

/-- An item, as far as it is adjusted. -/
structure MenuItem where
  type : MenuItemType
  disabled : Bool := false
  hidden : Bool := false
  value : Int32 := 0
  numChoices : Int32 := 0
  choiceInts : Fin maxChoices → Int32 := fun _ => 0
  choiceDisabled : Fin maxChoices → Bool := fun _ => false
  min : Int32 := 0
  max : Int32 := 0
  step : Int32 := 0
  ministep : Int32 := 0
  isExpanded : Bool := false
  strValue : List UInt8 := []

namespace MenuItem

/-- `choice_disabled[index]`. What lies before the array is `choice_ints`; nothing is known of what lies beyond. -/
def choiceDisabledAt (item : MenuItem) (index : Int32) : Bool :=
  let i := index.toInt
  if h : 0 ≤ i ∧ i < maxChoices then item.choiceDisabled ⟨i.toNat, by omega⟩
  else if h : -maxChoices ≤ i ∧ i < 0 then item.choiceInts ⟨(maxChoices + i).toNat, by omega⟩ ≠ 0
  else false

/-- Disabled choices are skipped, down to the choice that the loop began with. -/
def skipDisabled (item : MenuItem) (next : Int32 → Int32) (orig : Int32) : Nat → Int32 → Option Int32
  | 0, _ => none
  | fuel + 1, value =>
    if item.choiceDisabledAt value ∧ value ≠ orig then skipDisabled item next orig fuel (next value) else some value

/-- The values repeat after that many steps, so a loop that has not ended by then does not end. -/
def skipBound : Nat := 2 ^ 32 + 1

/-- The step of a range. -/
def increment (item : MenuItem) (fine : Bool) : Int32 := if fine then item.ministep else item.step

/-- `ACTION_Left` and `ACTION_MiniLeft`: whether the handler is called, and the item. -/
def actionLeft (fine : Bool) (cur : MenuItem) : Option (Bool × MenuItem) :=
  if cur.disabled then some (false, cur)
  else
    match cur.type with
    | .folder =>
      if fine then some (false, cur)
      else if cur.isExpanded then some (true, { cur with isExpanded := false })
      else some (false, cur)
    | .range =>
      let value := cur.value - cur.increment fine
      if value < cur.min then some (false, { cur with value := cur.min })
      else some (true, { cur with value := value })
    | .multipleChoice => do
      let value := cur.value - 1
      let value := if value < 0 then cur.numChoices - 1 else value
      let value ← cur.skipDisabled (· - 1) cur.value skipBound value
      let value := if value < 0 then cur.numChoices - 1 else value
      return (true, { cur with value := value })
    | .toggle => some (true, { cur with value := 1 - cur.value })
    | .textField =>
      let value := cur.value - 1
      some (false, { cur with value := if value < 0 then 0 else value })
    | _ => some (false, cur)

def nextChoice (cur : MenuItem) : Option (Bool × MenuItem) := do
  let value := cur.value + 1
  let value := if value ≥ cur.numChoices then 0 else value
  let value ← cur.skipDisabled (fun value => (value + 1) % cur.numChoices) cur.value skipBound value
  return (true, { cur with value := value })

/-- `ACTION_Right` and `ACTION_MiniRight`. A text's length is compared without a sign. -/
def actionRight (fine : Bool) (cur : MenuItem) : Option (Bool × MenuItem) :=
  if cur.disabled then some (false, cur)
  else
    match cur.type with
    | .folder =>
      if fine then some (false, cur)
      else if cur.isExpanded then some (false, cur)
      else some (true, { cur with isExpanded := true })
    | .range =>
      let value := cur.value + cur.increment fine
      if value > cur.max then some (false, { cur with value := cur.max })
      else some (true, { cur with value := value })
    | .multipleChoice => cur.nextChoice
    | .toggle => some (true, { cur with value := 1 - cur.value })
    | .textField =>
      let value := cur.value + 1
      let length := cur.strValue.length
      some (false, { cur with value := if value < 0 ∨ value.toInt ≥ length then Int32.ofNat length else value })
    | _ => some (false, cur)

/-- `ACTION_Return`, of the items that it adjusts. -/
def actionReturn (cur : MenuItem) : Option (Bool × MenuItem) :=
  if cur.disabled then some (false, cur)
  else
    match cur.type with
    | .folder => some (true, { cur with isExpanded := !cur.isExpanded })
    | .checkbox | .toggle => some (true, { cur with value := 1 - cur.value })
    | .button => some (true, cur)
    | .multipleChoice => cur.nextChoice
    | _ => some (false, cur)

/-- `ui_menu_mouse_adjust_range`. It computes with 64 bits. -/
def mouseAdjustRange (item : MenuItem) (signedSteps : Int32) (fine : Bool) : Bool × MenuItem :=
  if item.type ≠ .range ∨ item.disabled ∨ signedSteps = 0 then (false, item)
  else
    let increment := if item.increment fine ≤ 0 then 1 else item.increment fine
    let next := item.value.toInt + signedSteps.toInt * increment.toInt
    let next := if next < item.min.toInt then item.min.toInt else next
    let next := if next > item.max.toInt then item.max.toInt else next
    if next = item.value.toInt then (false, item) else (true, { item with value := Int32.ofInt next })

end MenuItem

/-! ### The mouse -/

def saturatingAdd (left right : Int32) : Int32 :=
  let sum := left.toInt + right.toInt
  if sum > Int32.maxValue.toInt then Int32.maxValue
  else if sum < Int32.minValue.toInt then Int32.minValue
  else Int32.ofInt sum

def saturatingNegate (value : Int32) : Int32 := if value = Int32.minValue then Int32.maxValue else -value

/-- `ui_menu_mouse_magnitude`. -/
def magnitude (value : Int32) : Nat := value.toInt.natAbs

inductive DragSpeed
  | slow | normal | fast

def dragStepDistance : DragSpeed → Int32
  | .slow => 24
  | .fast => 8
  | .normal => 16

def dragDeadZone : Int32 := 12
def dragMaxStepsPerReport : Int32 := 4

def consumeDeadZone (movement : Int32) : Int32 :=
  if movement > 0 then movement - dragDeadZone else if movement < 0 then movement + dragDeadZone else 0

inductive DragAxis
  | none | horizontal | vertical
  deriving DecidableEq

structure MouseDrag where
  axis : DragAxis := .none
  x : Int32 := 0
  y : Int32 := 0
  remainder : Int32 := 0

structure MouseEvent where
  left : Bool
  deltaX : Int32
  deltaY : Int32

/-- The drag finds its axis once it has left the dead zone. -/
def MouseDrag.lock (event : MouseEvent) (drag : MouseDrag) : MouseDrag :=
  let x := saturatingAdd drag.x event.deltaX
  let y := saturatingAdd drag.y event.deltaY
  if magnitude x < magnitude dragDeadZone ∧ magnitude y < magnitude dragDeadZone then { drag with x := x, y := y }
  else if magnitude x ≥ magnitude y then
    { axis := .horizontal, x := x, y := y, remainder := consumeDeadZone x }
  else { axis := .vertical, x := x, y := y, remainder := consumeDeadZone (saturatingNegate y) }

/-- `ui_menu_mouse_continue_drag`: the drag, or its end, and the fine steps it comes to. -/
def MouseDrag.continue (speed : DragSpeed) (event : MouseEvent) (drag : MouseDrag) : Option MouseDrag × Int32 :=
  if !event.left then (none, 0)
  else
    let moved :=
      match drag.axis with
      | .none => drag.lock event
      | .horizontal => { drag with remainder := saturatingAdd drag.remainder event.deltaX }
      | .vertical => { drag with remainder := saturatingAdd drag.remainder (saturatingNegate event.deltaY) }
    if moved.axis = .none then (some moved, 0)
    else
      let steps := moved.remainder / dragStepDistance speed
      if steps = 0 then (some moved, 0)
      else
        let steps :=
          if steps > dragMaxStepsPerReport then dragMaxStepsPerReport
          else if steps < -dragMaxStepsPerReport then -dragMaxStepsPerReport
          else steps
        (some { moved with remainder := moved.remainder % dragStepDistance speed }, steps)

def wheelSteps (move : Int32) : Int32 := if move > 16 then 16 else if move < -16 then -16 else move

/-! ### Runs -/

/-- An adjustment. The menu's own listener may take a step to the left or to the right before the item sees it. -/
inductive ItemAction
  | left (taken : Bool)
  | right (taken : Bool)
  | miniLeft
  | miniRight
  | returnKey
  | wheel (move : Int32)
  | startDrag
  | continueDrag (speed : DragSpeed) (event : MouseEvent)

/-- An item, its drag, and the values that its handler was called with. -/
structure ItemRun where
  item : MenuItem
  drag : Option MouseDrag := none
  commits : List Int32 := []

namespace ItemRun

/-- `ui_menu_commit`. -/
def adjusted (answer : Bool × MenuItem) (r : ItemRun) : ItemRun :=
  { r with item := answer.2, commits := if answer.1 then r.commits ++ [answer.2.value] else r.commits }

def step (action : ItemAction) (r : ItemRun) : Option ItemRun :=
  match action with
  | .left taken => if taken then some r else (r.item.actionLeft false).map r.adjusted
  | .right taken => if taken then some r else (r.item.actionRight false).map r.adjusted
  | .miniLeft => (r.item.actionLeft true).map r.adjusted
  | .miniRight => (r.item.actionRight true).map r.adjusted
  | .returnKey => r.item.actionReturn.map r.adjusted
  | .wheel move => some (r.adjusted (r.item.mouseAdjustRange (wheelSteps move) false))
  | .startDrag => if r.item.type = .range ∧ !r.item.disabled then some { r with drag := some {} } else some r
  | .continueDrag speed event =>
    match r.drag with
    | none => some r
    | some drag =>
      let (drag, steps) := drag.continue speed event
      some ({ r with drag := drag }.adjusted (r.item.mouseAdjustRange steps true))

def run (actions : List ItemAction) (r : ItemRun) : Option ItemRun := actions.foldlM (fun r action => r.step action) r

end ItemRun

end Bmx.Menu
