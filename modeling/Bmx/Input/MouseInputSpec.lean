import Bmx.Input.MouseInput

/-!
# One consumer at a time

What the emulator is told of a button alternates, and no button stays pressed while the menu or the
monitor is active. A button is told as pressed only where it went down, unless the menu takes over from
the emulator while a button is held that the emulator was not told of.
-/

namespace Bmx.Input

open ButtonBits MouseReport List

variable {bits : ButtonBits} {button : MouseButton}

/-! ### Masks -/

theorem ButtonBits.down_eq (bits : ButtonBits) (buttons : BitVec 32) (button : MouseButton) :
    bits.down buttons button = buttons.getLsbD (bits button) := by
  unfold down mask
  rw [BitVec.and_twoPow]
  by_cases hbit : buttons.getLsbD (bits button) = true
  · have hne : BitVec.twoPow 32 (bits button) ≠ 0 := by
      intro hzero
      have hget := congrArg (BitVec.getLsbD · (bits button)) hzero
      simp at hget
    rw [if_pos hbit, hbit]
    exact decide_eq_true hne
  · rw [if_neg hbit, Bool.eq_false_of_not_eq_true hbit]
    simp

@[simp] theorem ButtonBits.down_zero : bits.down 0 button = false := by
  simp [down_eq]

@[simp] theorem ButtonBits.down_and (some other : BitVec 32) :
    bits.down (some &&& other) button = (bits.down some button && bits.down other button) := by
  simp [down_eq]

@[simp] theorem ButtonBits.down_not (buttons : BitVec 32) :
    bits.down (~~~buttons) button = !bits.down buttons button := by
  simp [down_eq]

@[simp] theorem ButtonBits.down_xor (some other : BitVec 32) :
    bits.down (some ^^^ other) button = (bits.down some button ^^ bits.down other button) := by
  simp [down_eq]

/-! ### Presses and releases -/

/-- What the emulator is told of a button. -/
def tellsOf (button : MouseButton) (calls : List MouseCall) : List Bool :=
  calls.filterMap fun call =>
    match call with
    | .emuMouseButton other pressed => if other = button then some pressed else none
    | _ => none

/-- Presses and releases alternate, from a press on. -/
def Alternates (tells : List Bool) : Prop :=
  ∀ (i : Nat) (pressed : Bool), tells[i]? = some pressed → pressed = decide (i % 2 = 0)

/-- Whether the last call was a press. -/
def leftPressed (tells : List Bool) : Bool := tells.getLast?.getD false

theorem tellsOf_append (calls later : List MouseCall) :
    tellsOf button (calls ++ later) = tellsOf button calls ++ tellsOf button later := filterMap_append

theorem leftPressed_append (tells : List Bool) (pressed : Bool) : leftPressed (tells ++ [pressed]) = pressed := by
  simp [leftPressed]

variable {tells : List Bool} {before : Bool}

theorem Alternates.leftPressed_eq (h : Alternates tells) : leftPressed tells = decide (tells.length % 2 = 1) := by
  unfold leftPressed
  rw [getLast?_eq_getElem?]
  cases hlast : tells[tells.length - 1]? with
  | none =>
    have hempty : tells.length = 0 := by
      have hshort := List.getElem?_eq_none_iff.1 hlast
      omega
    simp [hempty]
  | some pressed =>
    have hlength := (List.getElem?_eq_some_iff.1 hlast).1
    have hparity : (tells.length - 1) % 2 = 0 ↔ tells.length % 2 = 1 := by omega
    rw [h _ _ hlast]
    simp [hparity]

theorem Alternates.append (h : Alternates tells) : Alternates (tells ++ [!leftPressed tells]) := by
  intro i pressed hpressed
  by_cases hi : i < tells.length
  · rw [getElem?_append_left hi] at hpressed
    exact h i pressed hpressed
  · have hlength := (List.getElem?_eq_some_iff.1 hpressed).1
    simp only [length_append, length_singleton] at hlength
    obtain rfl : i = tells.length := by omega
    rw [getElem?_concat_length, h.leftPressed_eq] at hpressed
    cases hpressed
    rcases Nat.mod_two_eq_zero_or_one tells.length with heven | hodd
    · simp [heven]
    · simp [hodd]

/-- What a button is told when it changes. -/
def change (before after : Bool) : List Bool := if before = after then [] else [after]

theorem tellsOf_forwardButton (buttons previousButtons : BitVec 32) (other : MouseButton) :
    tellsOf button (forwardButton bits buttons previousButtons other) =
      if other = button then change (bits.down previousButtons button) (bits.down buttons button) else [] := by
  have hchanged : ((buttons ^^^ previousButtons) &&& bits.mask other ≠ 0) ↔
      bits.down previousButtons other ≠ bits.down buttons other := by
    have hdown : ((buttons ^^^ previousButtons) &&& bits.mask other ≠ 0) ↔
        bits.down (buttons ^^^ previousButtons) other = true := decide_eq_true_iff.symm
    rw [hdown, down_xor]
    cases bits.down buttons other <;> cases bits.down previousButtons other <;> simp
  unfold forwardButton change
  by_cases hother : other = button
  · subst hother
    by_cases hdown : bits.down previousButtons other = bits.down buttons other
    · rw [if_neg (fun h => hchanged.1 h hdown)]
      simp [tellsOf, hdown]
    · rw [if_pos (hchanged.2 hdown)]
      simp [tellsOf, hdown]
  · split <;> simp [tellsOf, hother]

theorem tellsOf_forwardButtons (buttons previousButtons : BitVec 32) :
    tellsOf button (forwardButtons bits buttons previousButtons) =
      change (bits.down previousButtons button) (bits.down buttons button) := by
  unfold forwardButtons
  simp only [tellsOf_append, tellsOf_forwardButton]
  cases button <;> simp

theorem tellsOf_wheelCalls (wheelMove : Int32) : tellsOf button (wheelCalls wheelMove) = [] := by
  unfold wheelCalls
  simp [tellsOf]

/-- The calls of a button leave it as its state tells. -/
def Told (tells : List Bool) (pressed : Bool) : Prop := Alternates tells ∧ leftPressed tells = pressed

theorem Told.append (h : Told tells before) (after : Bool) : Told (tells ++ change before after) after := by
  obtain ⟨halternates, rfl⟩ := h
  unfold change
  by_cases hsame : leftPressed tells = after
  · rw [if_pos hsame, append_nil]
    exact ⟨halternates, hsame⟩
  · obtain rfl : after = !leftPressed tells := Bool.eq_not_of_ne (Ne.symm hsame)
    rw [if_neg hsame]
    exact ⟨halternates.append, leftPressed_append tells _⟩

/-! ### What the consumers are told -/

def menuTellsOf (button : MouseButton) (calls : List MouseCall) : List Bool :=
  calls.filterMap fun call =>
    match call with
    | .emuSetMenuMouse pressed _ _ _ => some (pressed button)
    | _ => none

/-- A button is told as pressed, to the emulator or to the menu. -/
def TellsPressed (button : MouseButton) (calls : List MouseCall) : Prop :=
  true ∈ tellsOf button calls ∨ true ∈ menuTellsOf button calls

theorem menuTellsOf_append (calls later : List MouseCall) :
    menuTellsOf button (calls ++ later) = menuTellsOf button calls ++ menuTellsOf button later := filterMap_append

theorem menuTellsOf_forwardButtons (buttons previousButtons : BitVec 32) :
    menuTellsOf button (forwardButtons bits buttons previousButtons) = [] := by
  have hone : ∀ other, menuTellsOf button (forwardButton bits buttons previousButtons other) = [] := by
    intro other
    unfold forwardButton
    split <;> simp [menuTellsOf]
  unfold forwardButtons
  simp only [menuTellsOf_append, hone, append_nil]

theorem menuTellsOf_wheelCalls (wheelMove : Int32) : menuTellsOf button (wheelCalls wheelMove) = [] := by
  unfold wheelCalls
  simp [menuTellsOf]

theorem true_mem_change {after : Bool} (h : true ∈ change before after) : after = true := by
  unfold change at h
  split at h
  · cases h
  · exact (mem_singleton.1 h).symm

/-- A button went down, from up, in a report since which the consumer has been active. -/
def WentDown (bits : ButtonBits) (button : MouseButton) (reports : List MouseReport) : Prop :=
  ∃ before report later, reports = before ++ report :: later ∧
    (∀ other ∈ later, other.consumer = report.consumer) ∧ bits.down report.buttons button = true ∧
      ∀ previous ∈ before.getLast?, bits.down previous.buttons button = false

def lastConsumer (reports : List MouseReport) : MouseConsumer :=
  (reports.getLast?.map consumer).getD .emulator

def lastButtons (reports : List MouseReport) : BitVec 32 := (reports.getLast?.map buttons).getD 0

variable {reports : List MouseReport} {report : MouseReport}

theorem WentDown.now (hdown : bits.down report.buttons button = true)
    (hup : bits.down (lastButtons reports) button = false) : WentDown bits button (reports ++ [report]) := by
  refine ⟨reports, report, [], rfl, ?_, hdown, ?_⟩
  · intro other hother
    cases hother
  · intro previous hprevious
    unfold lastButtons at hup
    rw [Option.mem_def.1 hprevious] at hup
    exact hup

theorem WentDown.still (h : WentDown bits button reports) (hconsumer : report.consumer = lastConsumer reports) :
    WentDown bits button (reports ++ [report]) := by
  obtain ⟨before, first, later, rfl, hlater, hdown, hup⟩ := h
  refine ⟨before, first, later ++ [report], by simp, ?_, hdown, hup⟩
  have hlast : lastConsumer (before ++ first :: later) = first.consumer := by
    unfold lastConsumer
    cases hend : later.getLast? with
    | none => simp [getLast?_cons, hend]
    | some last =>
      simp [getLast?_cons, hend, hlater last (mem_of_getLast? hend)]
  intro other hother
  rcases mem_append.1 hother with hold | hnew
  · exact hlater other hold
  · rw [mem_singleton.1 hnew, hconsumer, hlast]

/-! ### Runs -/

/-- A consumer takes over without a phantom click: the menu from the emulator while no button is held that
the emulator was not told of. -/
def Clean (bits : ButtonBits) (report : MouseReport) (state : BmxMouseStatusState) : Prop :=
  report.consumer = .menu → state.menuActive = false → state.monitorActive = false →
    ∀ button, (bits.down state.suppressedButtons button && bits.down report.buttons button) = false

namespace MouseRun

/-- What holds after every report. -/
structure Kept (bits : ButtonBits) (r : MouseRun) : Prop where
  menu : r.state.menuActive = decide (lastConsumer r.reports = .menu)
  monitor : r.state.monitorActive = decide (lastConsumer r.reports = .monitor)
  told : ∀ button, Told (tellsOf button r.calls) (bits.down r.state.previousButtons button)
  released : lastConsumer r.reports ≠ .emulator → ∀ button, bits.down r.state.previousButtons button = false

/-- What holds after every report of a run without phantom clicks. -/
structure Fresh (bits : ButtonBits) (r : MouseRun) : Prop where
  previous : lastConsumer r.reports = .emulator → ∀ button, bits.down r.state.previousButtons button =
    (bits.down (lastButtons r.reports) button && !bits.down r.state.suppressedButtons button)
  wentDown : lastConsumer r.reports ≠ .monitor → ∀ button, bits.down (lastButtons r.reports) button = true →
    bits.down r.state.suppressedButtons button = false → WentDown bits button r.reports

variable {r : MouseRun}

theorem lastConsumer_append (reports : List MouseReport) (report : MouseReport) :
    lastConsumer (reports ++ [report]) = report.consumer := by
  simp [lastConsumer]

theorem lastButtons_append (reports : List MouseReport) (report : MouseReport) :
    lastButtons (reports ++ [report]) = report.buttons := by
  simp [lastButtons]

/-! ### Takeovers -/

theorem tellsOf_releaseEmulatorButtons (state : BmxMouseStatusState) :
    tellsOf button (releaseEmulatorButtons bits state).1 = change (bits.down state.previousButtons button) false := by
  unfold releaseEmulatorButtons
  rw [tellsOf_forwardButtons, down_zero]

theorem change_self (pressed : Bool) : change pressed pressed = [] := if_pos rfl

/-- At most one exclusive consumer is active, and then no button is pressed. -/
structure Exclusive (bits : ButtonBits) (state : BmxMouseStatusState) : Prop where
  one : state.monitorActive = true → state.menuActive = false
  released : state.monitorActive = true ∨ state.menuActive = true →
    ∀ button, bits.down state.previousButtons button = false

/-- The emulator is told of its last releases. -/
structure Released (bits : ButtonBits) (state : BmxMouseStatusState)
    (entered : List MouseCall × BmxMouseStatusState) : Prop where
  tells : ∀ button, tellsOf button entered.1 = change (bits.down state.previousButtons button) false
  menuTells : ∀ button, menuTellsOf button entered.1 = []
  previous : ∀ button, bits.down entered.2.previousButtons button = false

variable {state : BmxMouseStatusState} {report : MouseReport} {button : MouseButton}

theorem Exclusive.silent (h : Exclusive bits state)
    (hactive : state.monitorActive = true ∨ state.menuActive = true) : Released bits state ([], state) := by
  constructor
  · intro button
    rw [h.released hactive button, change_self]
    rfl
  · intro button
    rfl
  · exact h.released hactive

theorem enterMonitor_released (h : Exclusive bits state) : Released bits state (enterMonitor bits state) := by
  unfold enterMonitor
  split
  · rename_i hmonitor
    exact h.silent (.inl hmonitor)
  dsimp only
  split
  · rename_i hmenu
    have hsilent := h.silent (.inr hmenu)
    exact ⟨hsilent.tells, hsilent.menuTells, hsilent.previous⟩
  · exact ⟨fun button => tellsOf_releaseEmulatorButtons state, fun button => menuTellsOf_forwardButtons _ _,
      fun button => down_zero⟩

theorem enterMonitor_flags (h : Exclusive bits state) :
    (enterMonitor bits state).2.monitorActive = true ∧ (enterMonitor bits state).2.menuActive = false := by
  unfold enterMonitor
  split
  · rename_i hmonitor
    exact ⟨hmonitor, h.one hmonitor⟩
  · exact ⟨rfl, rfl⟩

theorem enterMenu_released (h : Exclusive bits state) (buttons : BitVec 32) :
    Released bits state (enterMenu bits buttons state) := by
  unfold enterMenu
  split
  · rename_i hmenu
    exact h.silent (.inr hmenu)
  split
  · rename_i hmonitor
    have hsilent := h.silent (.inl hmonitor)
    exact ⟨hsilent.tells, hsilent.menuTells, fun button => down_zero⟩
  · exact ⟨fun button => tellsOf_releaseEmulatorButtons state, fun button => menuTellsOf_forwardButtons _ _,
      fun button => down_zero⟩

theorem enterMenu_flags (h : Exclusive bits state) (buttons : BitVec 32) :
    (enterMenu bits buttons state).2.monitorActive = false ∧ (enterMenu bits buttons state).2.menuActive = true := by
  unfold enterMenu
  split
  · rename_i hmenu
    have hmonitor : state.monitorActive = false := by
      cases hactive : state.monitorActive with
      | false => rfl
      | true => exact absurd hmenu (by simp [h.one hactive])
    exact ⟨hmonitor, hmenu⟩
  · exact ⟨rfl, rfl⟩

theorem enterMenu_suppressed (buttons : BitVec 32) (state : BmxMouseStatusState) :
    (enterMenu bits buttons state).2.suppressedButtons =
      if state.menuActive then state.suppressedButtons
      else if state.monitorActive then buttons else state.previousButtons &&& buttons := by
  unfold enterMenu
  split
  · rfl
  · rfl

theorem enterEmulator_flags (buttons : BitVec 32) (state : BmxMouseStatusState) :
    (enterEmulator buttons state).monitorActive = false ∧ (enterEmulator buttons state).menuActive = false := by
  unfold enterEmulator
  split
  · exact ⟨rfl, rfl⟩
  · rename_i hnone
    rw [not_or] at hnone
    exact ⟨Bool.eq_false_of_not_eq_true hnone.1, Bool.eq_false_of_not_eq_true hnone.2⟩

theorem enterEmulator_previous (h : Exclusive bits state) (buttons : BitVec 32) (button : MouseButton) :
    bits.down (enterEmulator buttons state).previousButtons button = bits.down state.previousButtons button := by
  unfold enterEmulator
  split
  · rename_i hactive
    rw [h.released hactive button, down_zero]
  · rfl

theorem Kept.exclusive (h : Kept bits r) : Exclusive bits r.state := by
  constructor
  · intro hmonitor
    rw [h.monitor, decide_eq_true_eq] at hmonitor
    rw [h.menu, hmonitor]
    rfl
  · intro hactive
    apply h.released
    intro hemulator
    rw [h.monitor, h.menu, hemulator] at hactive
    simp at hactive

/-! ### A report, by its consumer -/

theorem update_monitor (hconsumer : report.consumer = .monitor) (state : BmxMouseStatusState) :
    bmxMouseStatusUpdate bits report state =
      ((enterMonitor bits state).1 ++
        [.emuSetRawMouse (bits.down report.buttons) report.deltaX report.deltaY report.wheelMove],
        (enterMonitor bits state).2) := by
  unfold consumer at hconsumer
  cases hraw : report.wantsRawMouse <;> cases hmenu : report.wantsMenuMouse <;>
    simp_all [bmxMouseStatusUpdate]

theorem update_menu (hconsumer : report.consumer = .menu) (state : BmxMouseStatusState) :
    bmxMouseStatusUpdate bits report state =
      ((enterMenu bits report.buttons state).1 ++
        [.emuMouseMove report.deltaX report.deltaY,
          .emuSetMenuMouse (bits.down (suppress report.buttons (enterMenu bits report.buttons state).2).1)
            report.deltaX report.deltaY report.wheelMove],
        (suppress report.buttons (enterMenu bits report.buttons state).2).2) := by
  unfold consumer at hconsumer
  cases hraw : report.wantsRawMouse <;> cases hmenu : report.wantsMenuMouse <;>
    simp_all [bmxMouseStatusUpdate]

theorem update_emulator (hconsumer : report.consumer = .emulator) (state : BmxMouseStatusState) :
    bmxMouseStatusUpdate bits report state =
      ([.emuMouseMove report.deltaX report.deltaY] ++
        forwardButtons bits (suppress report.buttons (enterEmulator report.buttons state)).1
          (enterEmulator report.buttons state).previousButtons ++ wheelCalls report.wheelMove,
        { (suppress report.buttons (enterEmulator report.buttons state)).2 with
          previousButtons := (suppress report.buttons (enterEmulator report.buttons state)).1 }) := by
  unfold consumer at hconsumer
  cases hraw : report.wantsRawMouse <;> cases hmenu : report.wantsMenuMouse <;>
    simp_all [bmxMouseStatusUpdate, suppress]

theorem Kept.update (h : Kept bits r) {calls : List MouseCall}
    (hupdate : bmxMouseStatusUpdate bits report r.state = (calls, state))
    (htells : ∀ button, tellsOf button calls =
      change (bits.down r.state.previousButtons button) (bits.down state.previousButtons button))
    (hmenu : state.menuActive = decide (report.consumer = .menu))
    (hmonitor : state.monitorActive = decide (report.consumer = .monitor))
    (hreleased : report.consumer ≠ .emulator → ∀ button, bits.down state.previousButtons button = false) :
    Kept bits (r.step bits report) := by
  have hstep : r.step bits report = ⟨state, r.reports ++ [report], r.calls, calls⟩ := by
    unfold step
    rw [hupdate]
  rw [hstep]
  refine ⟨?_, ?_, ?_, ?_⟩
  · rw [lastConsumer_append]
    exact hmenu
  · rw [lastConsumer_append]
    exact hmonitor
  · intro button
    have htold := (h.told button).append (bits.down state.previousButtons button)
    rw [← htells, ← tellsOf_append] at htold
    exact htold
  · rw [lastConsumer_append]
    exact hreleased

/-- The calls of every button stay balanced, whichever consumer is active. -/
theorem step_kept (report : MouseReport) (h : Kept bits r) : Kept bits (r.step bits report) := by
  have hexclusive := h.exclusive
  cases hconsumer : report.consumer with
  | monitor =>
    have hentered := enterMonitor_released hexclusive
    have hflags := enterMonitor_flags hexclusive
    apply h.update (update_monitor hconsumer r.state)
    · intro button
      rw [tellsOf_append, hentered.tells, hentered.previous]
      simp [tellsOf]
    · simp [hflags, hconsumer]
    · simp [hflags, hconsumer]
    · intro _
      exact hentered.previous
  | menu =>
    have hentered := enterMenu_released hexclusive report.buttons
    have hflags := enterMenu_flags hexclusive report.buttons
    apply h.update (update_menu hconsumer r.state)
    · intro button
      rw [tellsOf_append, hentered.tells]
      have hprevious := hentered.previous button
      simp [suppress, tellsOf, hprevious]
    · simp [suppress, hflags, hconsumer]
    · simp [suppress, hflags, hconsumer]
    · intro _
      exact hentered.previous
  | emulator =>
    have hflags := enterEmulator_flags report.buttons r.state
    apply h.update (update_emulator hconsumer r.state)
    · intro button
      rw [tellsOf_append, tellsOf_append, tellsOf_forwardButtons, tellsOf_wheelCalls, enterEmulator_previous hexclusive]
      simp [tellsOf]
    · simp [suppress, hflags, hconsumer]
    · simp [suppress, hflags, hconsumer]
    · intro hother
      exact absurd hconsumer hother

theorem init_kept (bits : ButtonBits) : Kept bits {} := by
  refine ⟨rfl, rfl, ?_, ?_⟩
  · intro button
    rw [down_zero]
    refine ⟨?_, rfl⟩
    intro i pressed hpressed
    cases hpressed
  · intro hother
    exact absurd rfl hother

/-! ### No phantom clicks -/

/-- What is down and not suppressed went down while its consumer was active. -/
theorem Fresh.step_menu (hkept : Kept bits r) (h : Fresh bits r)
    (hconsumer : report.consumer = .menu) (hclean : Clean bits report r.state)
    (hdown : bits.down report.buttons button = true)
    (hfree : bits.down (enterMenu bits report.buttons r.state).2.suppressedButtons button = false) :
    WentDown bits button (r.reports ++ [report]) := by
  rw [enterMenu_suppressed] at hfree
  by_cases hup : bits.down (lastButtons r.reports) button = false
  · exact .now hdown hup
  have hheld : bits.down (lastButtons r.reports) button = true := Bool.eq_true_of_not_eq_false hup
  cases hlast : lastConsumer r.reports with
  | menu =>
    have hactive : r.state.menuActive = true := by simp [hkept.menu, hlast]
    rw [if_pos hactive] at hfree
    have hsame : report.consumer = lastConsumer r.reports := hconsumer.trans hlast.symm
    exact (h.wentDown (by simp [hlast]) button hheld hfree).still hsame
  | monitor =>
    have hmenu : r.state.menuActive = false := by simp [hkept.menu, hlast]
    have hmonitor : r.state.monitorActive = true := by simp [hkept.monitor, hlast]
    rw [hmenu, hmonitor] at hfree
    exact absurd hdown (by simpa using hfree)
  | emulator =>
    have hmenu : r.state.menuActive = false := by simp [hkept.menu, hlast]
    have hmonitor : r.state.monitorActive = false := by simp [hkept.monitor, hlast]
    have hunseen := hclean hconsumer hmenu hmonitor button
    have hprevious := h.previous hlast button
    rw [hdown, Bool.and_true] at hunseen
    rw [hmenu, hmonitor] at hfree
    simp [hprevious, hheld, hunseen, hdown] at hfree

theorem Fresh.step_emulator (hkept : Kept bits r) (h : Fresh bits r) (hconsumer : report.consumer = .emulator)
    (hdown : bits.down report.buttons button = true)
    (hfree : bits.down (enterEmulator report.buttons r.state).suppressedButtons button = false) :
    WentDown bits button (r.reports ++ [report]) := by
  unfold enterEmulator at hfree
  by_cases hup : bits.down (lastButtons r.reports) button = false
  · exact .now hdown hup
  have hheld : bits.down (lastButtons r.reports) button = true := Bool.eq_true_of_not_eq_false hup
  by_cases hactive : r.state.monitorActive = true ∨ r.state.menuActive = true
  · rw [if_pos hactive] at hfree
    exact absurd hdown (by simp [hfree])
  · rw [if_neg hactive] at hfree
    have hlast : lastConsumer r.reports = .emulator := by
      rw [hkept.monitor, hkept.menu] at hactive
      cases hcase : lastConsumer r.reports <;> simp_all
    have hsame : report.consumer = lastConsumer r.reports := hconsumer.trans hlast.symm
    exact (h.wentDown (by simp [hlast]) button hheld hfree).still hsame

theorem step_state (report : MouseReport) (r : MouseRun) :
    (r.step bits report).state = (bmxMouseStatusUpdate bits report r.state).2 := rfl

theorem true_not_mem_change (before : Bool) : true ∉ change before false :=
  fun h => Bool.noConfusion (true_mem_change h)

theorem step_fresh (hkept : Kept bits r) (h : Fresh bits r) (hclean : Clean bits report r.state) :
    Fresh bits (r.step bits report) ∧ ∀ button, TellsPressed button (r.step bits report).last →
      WentDown bits button (r.step bits report).reports := by
  have hlast : lastConsumer (r.step bits report).reports = report.consumer := lastConsumer_append r.reports report
  have hbuttons : lastButtons (r.step bits report).reports = report.buttons := lastButtons_append r.reports report
  cases hconsumer : report.consumer with
  | monitor =>
    have hentered := enterMonitor_released hkept.exclusive
    constructor
    · constructor
      all_goals
        intro hother
        simp [hlast, hconsumer] at hother
    · intro button htells
      change TellsPressed button (bmxMouseStatusUpdate bits report r.state).1 at htells
      rw [update_monitor hconsumer] at htells
      unfold TellsPressed at htells
      rw [tellsOf_append, menuTellsOf_append, hentered.tells, hentered.menuTells] at htells
      simp [true_not_mem_change, tellsOf, menuTellsOf] at htells
  | menu =>
    have hentered := enterMenu_released hkept.exclusive report.buttons
    constructor
    · constructor
      · intro hother
        simp [hlast, hconsumer] at hother
      · intro _ button hdown hfree
        rw [hbuttons] at hdown
        rw [step_state, update_menu hconsumer] at hfree
        apply Fresh.step_menu hkept h hconsumer hclean hdown
        simpa [suppress, hdown] using hfree
    · intro button htells
      change TellsPressed button (bmxMouseStatusUpdate bits report r.state).1 at htells
      rw [update_menu hconsumer] at htells
      unfold TellsPressed at htells
      rw [tellsOf_append, menuTellsOf_append, hentered.tells, hentered.menuTells] at htells
      simp [true_not_mem_change, tellsOf, menuTellsOf, suppress] at htells
      apply Fresh.step_menu hkept h hconsumer hclean htells.1
      simpa [htells.1] using htells.2
  | emulator =>
    constructor
    · constructor
      · intro _ button
        rw [step_state, update_emulator hconsumer, hbuttons]
        simp [suppress]
      · intro _ button hdown hfree
        rw [hbuttons] at hdown
        rw [step_state, update_emulator hconsumer] at hfree
        apply Fresh.step_emulator hkept h hconsumer hdown
        simpa [suppress, hdown] using hfree
    · intro button htells
      change TellsPressed button (bmxMouseStatusUpdate bits report r.state).1 at htells
      rw [update_emulator hconsumer] at htells
      unfold TellsPressed at htells
      rw [tellsOf_append, tellsOf_append, menuTellsOf_append, menuTellsOf_append, tellsOf_forwardButtons,
        menuTellsOf_forwardButtons, tellsOf_wheelCalls, menuTellsOf_wheelCalls] at htells
      simp [tellsOf, menuTellsOf] at htells
      have hpressed := true_mem_change htells
      simp [suppress] at hpressed
      apply Fresh.step_emulator hkept h hconsumer hpressed.1
      simpa [hpressed.1] using hpressed.2

theorem init_fresh (bits : ButtonBits) : Fresh bits {} := by
  constructor
  · intro _ button
    change bits.down 0 button = (bits.down 0 button && !bits.down 0 button)
    rw [down_zero]
    rfl
  · intro _ button hdown
    change bits.down 0 button = true at hdown
    rw [down_zero] at hdown
    cases hdown

/-- Mouse buttons are routed to one consumer at a time. -/
structure Routed (bits : ButtonBits) (r : MouseRun) : Prop where
  alternates : ∀ button, Alternates (tellsOf button r.calls)
  released : lastConsumer r.reports ≠ .emulator → ∀ button, leftPressed (tellsOf button r.calls) = false
  /-- The last report tells only of presses that are new. -/
  fresh : ∀ button, TellsPressed button r.last → WentDown bits button r.reports

def CleanRun (bits : ButtonBits) (r : MouseRun) : List MouseReport → Prop
  | [] => True
  | report :: rest => Clean bits report r.state ∧ CleanRun bits (r.step bits report) rest

theorem Kept.routed (h : Kept bits r) (hfresh : ∀ button, TellsPressed button r.last → WentDown bits button r.reports) :
    Routed bits r := by
  refine ⟨?_, ?_, hfresh⟩
  · intro button
    exact (h.told button).1
  · intro hother button
    rw [(h.told button).2, h.released hother]

theorem Routed.run (h : Routed bits r) (hkept : Kept bits r) (hfresh : Fresh bits r) {reports : List MouseReport}
    (hclean : CleanRun bits r reports) : Routed bits (r.run bits reports) := by
  induction reports generalizing r with
  | nil => exact h
  | cons report rest ih =>
    have hnext := step_kept report hkept
    obtain ⟨hfreshNext, htells⟩ := step_fresh hkept hfresh hclean.1
    exact ih (hnext.routed htells) hnext hfreshNext hclean.2

/-- While reports are clean, buttons are routed without phantom clicks. -/
theorem run_routed (bits : ButtonBits) (reports : List MouseReport) (hclean : CleanRun bits {} reports) :
    Routed bits (run bits reports {}) := by
  have hkept := init_kept bits
  have hnone : ∀ button, TellsPressed button [] → WentDown bits button [] := by
    intro button htells
    rcases htells with hemulator | hmenu
    · cases hemulator
    · cases hmenu
  exact (hkept.routed hnone).run hkept (init_fresh bits) hclean

def usbBits : ButtonBits
  | .left => 0
  | .right => 1
  | .middle => 2

/-- A button is pressed, the menu opens and closes, and the button is pressed again. -/
def cleanReports : List MouseReport :=
  [{ buttons := 1 }, { buttons := 1, wantsMenuMouse := true }, { buttons := 1 }, { buttons := 0 }, { buttons := 1 }]

theorem cleanReports_routed : Routed usbBits (run usbBits cleanReports {}) := by
  have hother : ∀ {report : MouseReport} {state : BmxMouseStatusState}, report.consumer ≠ .menu →
      Clean usbBits report state := fun hne hmenu => absurd hmenu hne
  apply run_routed usbBits cleanReports
  refine ⟨hother (by decide), ?_, hother (by decide), hother (by decide), hother (by decide), trivial⟩
  intro _ _ _ button
  cases button <;> decide

/-- A button that is held while the menu is left and opened again. -/
def heldReports : List MouseReport :=
  [{ buttons := 1, wantsMenuMouse := true }, { buttons := 1 }, { buttons := 1, wantsMenuMouse := true }]

/-- The menu is told of a press that it was told of before. -/
theorem heldReports_phantom : ¬ Routed usbBits (run usbBits heldReports {}) := by
  intro h
  have htold : TellsPressed .left (run usbBits heldReports {}).last := .inr (by decide)
  obtain ⟨before, report, later, hreports, hlater, hdown, hup⟩ := h.fresh .left htold
  change heldReports = before ++ report :: later at hreports
  unfold heldReports at hreports
  match before with
  | [] =>
    -- The menu was left after the first report.
    simp only [nil_append, cons.injEq] at hreports
    obtain ⟨rfl, rfl⟩ := hreports
    exact absurd (hlater { buttons := 1 } mem_cons_self) (by decide)
  | [_] =>
    simp only [cons_append, nil_append, cons.injEq] at hreports
    obtain ⟨rfl, rfl, rfl⟩ := hreports
    exact absurd (hup _ rfl) (by decide)
  | [_, _] =>
    simp only [cons_append, nil_append, cons.injEq] at hreports
    obtain ⟨rfl, rfl, rfl, rfl⟩ := hreports
    exact absurd (hup _ rfl) (by decide)
  | _ :: _ :: _ :: rest =>
    simp at hreports

end MouseRun

end Bmx.Input
