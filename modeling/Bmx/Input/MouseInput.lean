import Bmx.Base.Instances
import Mathlib.Data.Fin.Basic

/-!
# Mouse reports and their consumers

A mouse report goes to the raw monitor, to the menu or to the emulator. The emulator is told when a
button changes; the monitor and the menu get whole reports.
-/

namespace Bmx.Input

inductive MouseButton
  | left | right | middle
  deriving DecidableEq

/-- The bit of a button in a report, which the USB library chooses. -/
abbrev ButtonBits := MouseButton → Fin 32

def ButtonBits.mask (bits : ButtonBits) (button : MouseButton) : BitVec 32 := BitVec.twoPow 32 (bits button)

/-- `(buttons & mask) != 0`. -/
def ButtonBits.down (bits : ButtonBits) (buttons : BitVec 32) (button : MouseButton) : Bool :=
  buttons &&& bits.mask button ≠ 0

/-- A report, and what the consumers want when it is processed. -/
structure MouseReport where
  buttons : BitVec 32
  deltaX : Int32 := 0
  deltaY : Int32 := 0
  wheelMove : Int32 := 0
  wantsRawMouse : Bool := false
  wantsMenuMouse : Bool := false

/-- What the consumers are told. -/
inductive MouseCall
  | emuMouseMove (x y : Int32)
  | emuMouseButton (button : MouseButton) (pressed : Bool)
  | emuMouseWheelUp
  | emuMouseWheelDown
  | emuSetRawMouse (pressed : MouseButton → Bool) (deltaX deltaY wheelMove : Int32)
  | emuSetMenuMouse (pressed : MouseButton → Bool) (deltaX deltaY wheelMove : Int32)

structure BmxMouseStatusState where
  previousButtons : BitVec 32 := 0
  suppressedButtons : BitVec 32 := 0
  monitorActive : Bool := false
  menuActive : Bool := false

def maxWheelStepsPerReport : Int32 := 127

variable (bits : ButtonBits)

def forwardButton (buttons previousButtons : BitVec 32) (button : MouseButton) : List MouseCall :=
  if (buttons ^^^ previousButtons) &&& bits.mask button ≠ 0 then [.emuMouseButton button (bits.down buttons button)]
  else []

/-- The three buttons in their order. -/
def forwardButtons (buttons previousButtons : BitVec 32) : List MouseCall :=
  forwardButton bits buttons previousButtons .left ++ forwardButton bits buttons previousButtons .right ++
    forwardButton bits buttons previousButtons .middle

def releaseEmulatorButtons (state : BmxMouseStatusState) : List MouseCall × BmxMouseStatusState :=
  (forwardButtons bits 0 state.previousButtons, { state with previousButtons := 0 })

/-- The wheel steps that the emulator is told of. -/
def wheelCalls (wheelMove : Int32) : List MouseCall :=
  let wheelMove :=
    if wheelMove > maxWheelStepsPerReport then maxWheelStepsPerReport
    else if wheelMove < -maxWheelStepsPerReport then -maxWheelStepsPerReport
    else wheelMove
  List.replicate wheelMove.toInt.toNat .emuMouseWheelUp ++
    List.replicate (-wheelMove.toInt).toNat .emuMouseWheelDown

/-- The raw monitor takes over. -/
def enterMonitor (state : BmxMouseStatusState) : List MouseCall × BmxMouseStatusState :=
  if state.monitorActive then ([], state)
  else
    let (calls, state) := if state.menuActive then ([], state) else releaseEmulatorButtons bits state
    (calls, { state with suppressedButtons := 0, monitorActive := true, menuActive := false })

/-- The menu takes over. -/
def enterMenu (buttons : BitVec 32) (state : BmxMouseStatusState) : List MouseCall × BmxMouseStatusState :=
  if state.menuActive then ([], state)
  else
    let suppressed := if state.monitorActive then buttons else state.previousButtons &&& buttons
    let (calls, state) :=
      if state.monitorActive then ([], { state with previousButtons := 0 }) else releaseEmulatorButtons bits state
    (calls, { state with suppressedButtons := suppressed, monitorActive := false, menuActive := true })

/-- The emulator takes over. -/
def enterEmulator (buttons : BitVec 32) (state : BmxMouseStatusState) : BmxMouseStatusState :=
  if state.monitorActive ∨ state.menuActive then
    { previousButtons := 0, suppressedButtons := buttons, monitorActive := false, menuActive := false }
  else state

def suppress (buttons : BitVec 32) (state : BmxMouseStatusState) : BitVec 32 × BmxMouseStatusState :=
  let suppressed := state.suppressedButtons &&& buttons
  (buttons &&& ~~~suppressed, { state with suppressedButtons := suppressed })

def bmxMouseStatusUpdate (report : MouseReport) (state : BmxMouseStatusState) :
    List MouseCall × BmxMouseStatusState :=
  if report.wantsRawMouse then
    let (calls, state) := enterMonitor bits state
    (calls ++ [.emuSetRawMouse (bits.down report.buttons) report.deltaX report.deltaY report.wheelMove], state)
  else if report.wantsMenuMouse then
    let (calls, state) := enterMenu bits report.buttons state
    let (buttons, state) := suppress report.buttons state
    (calls ++
      [.emuMouseMove report.deltaX report.deltaY,
        .emuSetMenuMouse (bits.down buttons) report.deltaX report.deltaY report.wheelMove], state)
  else
    let (buttons, state) := suppress report.buttons (enterEmulator report.buttons state)
    ([.emuMouseMove report.deltaX report.deltaY] ++ forwardButtons bits buttons state.previousButtons ++
      wheelCalls report.wheelMove, { state with previousButtons := buttons })

/-! ### Runs -/

inductive MouseConsumer
  | emulator | menu | monitor
  deriving DecidableEq

def MouseReport.consumer (report : MouseReport) : MouseConsumer :=
  if report.wantsRawMouse then .monitor else if report.wantsMenuMouse then .menu else .emulator

/-- The state, the reports that were processed, and the calls that were made, the last report's apart. -/
structure MouseRun where
  state : BmxMouseStatusState := {}
  reports : List MouseReport := []
  before : List MouseCall := []
  last : List MouseCall := []

namespace MouseRun

def calls (r : MouseRun) : List MouseCall := r.before ++ r.last

def step (report : MouseReport) (r : MouseRun) : MouseRun :=
  let (calls, state) := bmxMouseStatusUpdate bits report r.state
  ⟨state, r.reports ++ [report], r.calls, calls⟩

def run (reports : List MouseReport) (r : MouseRun) : MouseRun :=
  reports.foldl (fun r report => r.step bits report) r

end MouseRun

end Bmx.Input
