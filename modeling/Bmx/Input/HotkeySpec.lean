import Bmx.Input.Keyboard
import Mathlib.Data.List.Count
import Mathlib.Data.List.Nodup
import Mathlib.Data.Fin.VecNotation

/-!
# Hotkeys

A hotkey is invoked once for each press of its second key while its modifier is held, unless the keys are
let go in the wrong order, pressed again too early, or taken by others. The emulator is told of the
release of each key that it was told of, unless the menu comes up in between.
-/

namespace Bmx.Input

open Kbd List

variable {c : KbdConfig}

def modifierOf (c : KbdConfig) (slot : Fin 8) : Int64 := if slot.val < 4 then c.commodoreKeySym else c.ctrlKeySym

/-- The function that a call invokes, and the slot it was assigned to. -/
def KbdCall.invokes : KbdCall → Option (Fin 8 × BtnAssign)
  | .emuQuickFuncInterrupt slot function => some (slot, function)
  | .uiTogglePending (some slot) => some (slot, .menu)
  | _ => none

def KbdCall.emulatorKey (key : Int64) : KbdCall → Option Bool
  | .emuxKeyInterruptMod other pressed _ => if other = key then some pressed else none
  | _ => none

def invocations (slot : Fin 8) (function : BtnAssign) (calls : List KbdCall) : Nat :=
  (calls.filterMap KbdCall.invokes).count (slot, function)

def emulatorTells (key : Int64) (calls : List KbdCall) : List Bool := calls.filterMap (KbdCall.emulatorKey key)

/-- The emulator was told of a press, and of nothing since. -/
def emulatorHolds (key : Int64) (calls : List KbdCall) : Bool := (emulatorTells key calls).getLast? = some true

theorem invocations_append (slot : Fin 8) (function : BtnAssign) (calls later : List KbdCall) :
    invocations slot function (calls ++ later) =
      invocations slot function calls + invocations slot function later := by
  unfold invocations
  rw [filterMap_append, count_append]

theorem emulatorTells_append (key : Int64) (calls later : List KbdCall) :
    emulatorTells key (calls ++ later) = emulatorTells key calls ++ emulatorTells key later := filterMap_append

variable {key : Int64} {calls later : List KbdCall} {joy : JoyConfig} {changes : JoyInput → List LatchChange}
  {uiEnabled : Bool} {device : Fin 2}

theorem emulatorHolds_quiet (hquiet : emulatorTells key later = []) :
    emulatorHolds key (calls ++ later) = emulatorHolds key calls := by
  unfold emulatorHolds
  rw [emulatorTells_append, hquiet, append_nil]

theorem emulatorHolds_told {pressed : Bool}
    (htold : emulatorTells key later = [pressed]) : emulatorHolds key (calls ++ later) = pressed := by
  unfold emulatorHolds
  rw [emulatorTells_append, htold, getLast?_append]
  cases pressed <;> simp

/-- Calls that are about the joysticks and the menu only. -/
structure Quiet (calls : List KbdCall) : Prop where
  invokes : calls.filterMap KbdCall.invokes = []
  tells : ∀ key, emulatorTells key calls = []

theorem quiet_nil : Quiet [] := ⟨rfl, fun _ => rfl⟩

theorem Quiet.append {calls later : List KbdCall} (h : Quiet calls) (hlater : Quiet later) :
    Quiet (calls ++ later) := by
  constructor
  · rw [filterMap_append, h.invokes, hlater.invokes, append_nil]
  · intro key
    rw [emulatorTells_append, h.tells, hlater.tells, append_nil]

theorem Quiet.invocations (h : Quiet calls) (slot : Fin 8) (function : BtnAssign) :
    Bmx.Input.invocations slot function calls = 0 := by
  unfold Bmx.Input.invocations
  rw [h.invokes]
  rfl

/-! ### The joystick devices -/

theorem joyKey_quiet {pressed : Bool} {key : Int32}
    (h : joy.joyKey changes pressed uiEnabled device key = some calls) : Quiet calls := by
  unfold JoyConfig.joyKey at h
  by_cases henabled : uiEnabled = true
  · rw [if_pos henabled] at h
    split at h
    · cases hinput : joy.inputOf (joy.joydevs device).device key with
      | none => simp [hinput] at h
      | some input =>
        cases hnavigation : input.navigation with
        | none => simp [hinput, hnavigation] at h
        | some navigation =>
          obtain rfl : [KbdCall.emuUiKeyInterrupt navigation pressed] = calls := by
            simpa [hinput, hnavigation] using h
          exact ⟨rfl, fun _ => rfl⟩
    · cases h
  · rw [if_neg henabled] at h
    cases hinput : joy.inputOf (joy.joydevs device).device key with
    | none => simp [hinput] at h
    | some input =>
      simp only [hinput, Option.bind_eq_bind, Option.bind_some, Option.pure_def, Option.some.injEq] at h
      subst h
      constructor
      · rw [filterMap_map]
        exact filterMap_eq_nil_iff.2 fun _ _ => rfl
      · intro other
        unfold emulatorTells
        rw [filterMap_map]
        exact filterMap_eq_nil_iff.2 fun _ _ => rfl

theorem joyKey_none {others : JoyInput → List LatchChange} {pressed released : Bool}
     {key : Int32} :
    joy.joyKey changes pressed uiEnabled device key = none ↔ joy.joyKey others released uiEnabled device key = none := by
  unfold JoyConfig.joyKey
  cases uiEnabled <;> cases joy.inputOf (joy.joydevs device).device key <;>
    simp [Option.bind_eq_none_iff]

namespace Kbd

variable {s : Kbd}

variable {joyKey : Fin 2 → Int32 → Option (List KbdCall)} {key : Int64} {calls : List KbdCall} {slot : Fin 8}
  {t : Kbd}

theorem deviceTakes_some {device : Fin 2} (h : deviceTakes c joyKey device key = some calls) :
    joyKey device key.toInt32 = some calls := by
  unfold deviceTakes at h
  split at h
  · exact h
  · cases h

theorem joyTakes_quiet (hquiet : ∀ {device code calls}, joyKey device code = some calls → Quiet calls)
    (h : joyTakes c joyKey key = some calls) : Quiet calls := by
  obtain ⟨device, -, hdevice⟩ := exists_of_findSome?_eq_some h
  exact hquiet (deviceTakes_some hdevice)

theorem deviceTakes_none (device : Fin 2) (key : Int64) (uiEnabled : Bool) :
    deviceTakes c (c.joy.joyKeyUp uiEnabled) device key = none ↔
      deviceTakes c (c.joy.joyKeyDown uiEnabled) device key = none := by
  unfold deviceTakes
  split
  · exact joyKey_none
  · rfl

theorem joyTakes_none (key : Int64) (uiEnabled : Bool) :
    joyTakes c (c.joy.joyKeyUp uiEnabled) key = none ↔ joyTakes c (c.joy.joyKeyDown uiEnabled) key = none := by
  unfold joyTakes
  simp only [findSome?_eq_none_iff, deviceTakes_none]

/-! ### The slots -/

theorem setInvoked_at (slot : Fin 8) (invoked : Bool) :
    (s.setInvoked slot invoked).keyComboStates slot = { s.keyComboStates slot with invoked := invoked } := by
  simp [setInvoked]

theorem setInvoked_ne {other : Fin 8} (hne : other ≠ slot) (invoked : Bool) :
    (s.setInvoked slot invoked).keyComboStates other = s.keyComboStates other := by
  simp [setInvoked, hne]

/-- A slot is assigned what it was assigned before. -/
def SameSlots (s t : Kbd) : Prop :=
  ∀ slot, (t.keyComboStates slot).secondKey = (s.keyComboStates slot).secondKey ∧
    (t.keyComboStates slot).function = (s.keyComboStates slot).function

theorem SameSlots.refl (s : Kbd) : SameSlots s s := fun _ => ⟨rfl, rfl⟩

theorem SameSlots.of_eq (h : t.keyComboStates = s.keyComboStates) : SameSlots s t := by
  intro slot
  rw [h]
  exact ⟨rfl, rfl⟩

theorem sameSlots_setInvoked (slot : Fin 8) (invoked : Bool) : SameSlots s (s.setInvoked slot invoked) := by
  intro other
  by_cases hother : other = slot
  · subst hother
    rw [setInvoked_at]
    exact ⟨rfl, rfl⟩
  · rw [setInvoked_ne hother]
    exact ⟨rfl, rfl⟩

@[simp] theorem notePress_slots (key : Int64) (ticks : UInt64) :
    (s.notePress c key ticks).keyComboStates = s.keyComboStates := by
  unfold notePress
  split_ifs <;> rfl

@[simp] theorem notePress_ui (key : Int64) (ticks : UInt64) : (s.notePress c key ticks).uiEnabled = s.uiEnabled := by
  unfold notePress
  split_ifs <;> rfl

@[simp] theorem noteRelease_slots (key : Int64) (ticks : UInt64) :
    (s.noteRelease c key ticks).2.keyComboStates = s.keyComboStates := by
  unfold noteRelease
  split_ifs <;> rfl

@[simp] theorem noteRelease_ui (key : Int64) (ticks : UInt64) :
    (s.noteRelease c key ticks).2.uiEnabled = s.uiEnabled := by
  unfold noteRelease
  split_ifs <;> rfl

theorem noteRelease_quiet (key : Int64) (ticks : UInt64) : Quiet (s.noteRelease c key ticks).1 := by
  unfold noteRelease
  split_ifs <;> exact ⟨rfl, fun _ => rfl⟩

def flagOf (slot : Fin 8) (s : Kbd) : Bool := if slot.val < 4 then s.commodoreDown else s.controlDown

theorem mem_commodoreSlots : slot ∈ commodoreSlots ↔ slot.val < 4 := by
  revert slot
  decide

theorem mem_controlSlots : slot ∈ controlSlots ↔ ¬ slot.val < 4 := by
  revert slot
  decide

theorem mem_comboSlots (slot : Fin 8) : slot ∈ comboSlots := by
  revert slot
  decide

theorem comboOf_eq_some (h : s.comboOf key = some slot) :
    (s.keyComboStates slot).secondKey = key ∧ s.flagOf slot = true := by
  unfold comboOf at h
  have hkey := find?_some h
  have hmem := mem_of_find?_eq_some h
  refine ⟨of_decide_eq_true hkey, ?_⟩
  unfold flagOf
  rcases mem_append.1 hmem with hleft | hright
  · split at hleft
    · rw [if_pos (mem_commodoreSlots.1 hleft)]
      assumption
    · cases hleft
  · split at hright
    · rw [if_neg (mem_controlSlots.1 hright)]
      assumption
    · cases hright

theorem comboOf_eq_none (h : s.comboOf key = none)
    (hkey : (s.keyComboStates slot).secondKey = key) : s.flagOf slot = false := by
  unfold comboOf at h
  rw [find?_eq_none] at h
  unfold flagOf
  by_contra hflag
  refine h slot ?_ (decide_eq_true hkey)
  by_cases hslot : slot.val < 4
  · rw [if_pos hslot, Bool.not_eq_false] at hflag
    rw [if_pos hflag]
    exact mem_append_left _ (mem_commodoreSlots.2 hslot)
  · rw [if_neg hslot, Bool.not_eq_false] at hflag
    rw [if_pos hflag]
    exact mem_append_right _ (mem_controlSlots.2 hslot)

theorem invokedOf_eq_some (h : s.invokedOf key = some slot) :
    (s.keyComboStates slot).secondKey = key ∧ (s.keyComboStates slot).invoked = true := by
  unfold invokedOf at h
  have hfound := find?_some h
  exact of_decide_eq_true hfound

theorem invokedOf_eq_none (h : s.invokedOf key = none)
    (hkey : (s.keyComboStates slot).secondKey = key) : (s.keyComboStates slot).invoked = false := by
  unfold invokedOf at h
  rw [find?_eq_none] at h
  by_contra hinvoked
  rw [Bool.not_eq_false] at hinvoked
  exact h slot (mem_comboSlots slot) (decide_eq_true ⟨hkey, hinvoked⟩)

/-- A function that is invoked when a modifier is released. -/
def waits (function : BtnAssign) : Bool := function = .menu ∨ function.atModifierRelease

theorem count_comboCalls (slot : Fin 8) (s : Kbd) :
    ((s.comboCalls slot).filterMap KbdCall.invokes) =
      if (s.keyComboStates slot).invoked ∧ waits (s.keyComboStates slot).function then
        [(slot, (s.keyComboStates slot).function)] else [] := by
  unfold comboCalls waits
  by_cases hinvoked : (s.keyComboStates slot).invoked = true
  · by_cases hmenu : (s.keyComboStates slot).function = .menu
    · simp [hinvoked, hmenu, KbdCall.invokes]
    · by_cases hmodifier : (s.keyComboStates slot).function.atModifierRelease = true
      · simp [hinvoked, hmenu, hmodifier, KbdCall.invokes]
      · simp [hinvoked, hmenu, hmodifier]
  · simp [hinvoked]

theorem count_comboFunction (slots : List (Fin 8)) (hnodup : slots.Nodup) (hslot : slot ∈ slots) :
    ((slots.flatMap fun slot => s.comboCalls slot).filterMap KbdCall.invokes).count
      (slot, (s.keyComboStates slot).function) =
        if (s.keyComboStates slot).invoked ∧ waits (s.keyComboStates slot).function then 1 else 0 := by
  have hother : ∀ rest : List (Fin 8), slot ∉ rest →
      ((rest.flatMap fun slot => s.comboCalls slot).filterMap KbdCall.invokes).count
        (slot, (s.keyComboStates slot).function) = 0 := by
    intro rest hrest
    rw [count_eq_zero, filterMap_flatMap, mem_flatMap]
    rintro ⟨other, hmem, hcall⟩
    rw [count_comboCalls] at hcall
    split at hcall
    · rw [mem_singleton, Prod.mk.injEq] at hcall
      rw [hcall.1] at hrest
      exact hrest hmem
    · cases hcall
  induction slots with
  | nil => cases hslot
  | cons first rest ih =>
    rw [flatMap_cons, filterMap_append, count_append, count_comboCalls]
    rcases mem_cons.1 hslot with rfl | hmem
    · rw [hother rest (nodup_cons.1 hnodup).1]
      split <;> simp
    · have hne : first ≠ slot := by
        rintro rfl
        exact (nodup_cons.1 hnodup).1 hmem
      rw [ih (nodup_cons.1 hnodup).2 hmem]
      split <;> simp [hne]

theorem tells_comboFunction (key : Int64) (s : Kbd) :
    emulatorTells key (comboSlots.flatMap fun slot => s.comboCalls slot) = [] := by
  unfold emulatorTells
  rw [filterMap_flatMap, flatMap_eq_nil_iff]
  intro slot _
  unfold comboCalls
  split_ifs <;> rfl

/-! ### One key event -/

theorem passOn_congr (h : t.uiEnabled = s.uiEnabled) (key : Int64) (pressed : Bool) (mod : Int32) :
    t.passOn key pressed mod = s.passOn key pressed mod := by
  unfold passOn
  rw [h]

/-- A press is swallowed, taken by a joystick, consumed by a slot, or passed on. -/
inductive Pressed (c : KbdConfig) (key : Int64) (mod : Int32) (ticks : UInt64) (s : Kbd) : List KbdCall × Kbd → Prop
  | swallowed (hraw : s.rawKeycodeFunc = true) : Pressed c key mod ticks s ([], s)
  | taken {calls : List KbdCall} (hraw : s.rawKeycodeFunc = false)
      (htakes : joyTakes c (c.joy.joyKeyDown s.uiEnabled) key = some calls) :
      Pressed c key mod ticks s (calls, s.notePress c key ticks)
  | consumed {slot : Fin 8} (hraw : s.rawKeycodeFunc = false)
      (htakes : joyTakes c (c.joy.joyKeyDown s.uiEnabled) key = none)
      (hslot : (s.notePress c key ticks).comboOf key = some slot) :
      Pressed c key mod ticks s ([], (s.notePress c key ticks).setInvoked slot true)
  | passed (hraw : s.rawKeycodeFunc = false) (htakes : joyTakes c (c.joy.joyKeyDown s.uiEnabled) key = none)
      (hslot : (s.notePress c key ticks).comboOf key = none) :
      Pressed c key mod ticks s (s.passOn key true mod, s.notePress c key ticks)

theorem pressed (c : KbdConfig) (key : Int64) (mod : Int32) (ticks : UInt64) (s : Kbd) :
    Pressed c key mod ticks s (s.emuKeyPressedMod c key mod ticks) := by
  unfold emuKeyPressedMod
  by_cases hraw : s.rawKeycodeFunc = true
  · rw [if_pos hraw]
    exact .swallowed hraw
  · rw [if_neg hraw]
    replace hraw : s.rawKeycodeFunc = false := Bool.eq_false_of_not_eq_true hraw
    simp only [notePress_ui]
    cases htakes : joyTakes c (c.joy.joyKeyDown s.uiEnabled) key with
    | some calls => exact .taken hraw htakes
    | none =>
      unfold handleKeyComboPress
      cases hslot : (s.notePress c key ticks).comboOf key with
      | some slot => exact .consumed hraw htakes hslot
      | none =>
        have hsame : (s.notePress c key ticks).passOn key true mod = s.passOn key true mod :=
          passOn_congr (notePress_ui key ticks) key true mod
        simp only [hsame]
        exact .passed hraw htakes hslot

/-- A release gets as far as the hotkeys. -/
def Reaches (c : KbdConfig) (key : Int64) (s : Kbd) : Prop :=
  s.rawKeycodeFunc = false ∧ key ≠ keycodeF12 ∧ joyTakes c (c.joy.joyKeyUp s.uiEnabled) key = none

instance (c : KbdConfig) (key : Int64) (s : Kbd) : Decidable (Reaches c key s) :=
  inferInstanceAs (Decidable (_ ∧ _ ∧ _))

/-- What becomes of a release: the slots, and the calls behind some that are quiet. -/
inductive Released (c : KbdConfig) (key : Int64) (mod : Int32) (s : Kbd) : List KbdCall × Kbd → Prop
  | swallowed (hraw : s.rawKeycodeFunc = true) {calls : List KbdCall} {t : Kbd} (hquiet : Quiet calls)
      (hslots : t.keyComboStates = s.keyComboStates) : Released c key mod s (calls, t)
  | menu (hraw : s.rawKeycodeFunc = false) (hkey : key = keycodeF12) {quiet later : List KbdCall} {t : Kbd}
      (hquiet : Quiet quiet) (hlater : Quiet later) (hslots : t.keyComboStates = s.keyComboStates) :
      Released c key mod s (quiet ++ (s.passOn key false 0 ++ later), t)
  | taken {calls taken : List KbdCall} {t : Kbd} (htakes : joyTakes c (c.joy.joyKeyUp s.uiEnabled) key = some taken)
      (hquiet : Quiet calls) (hslots : t.keyComboStates = s.keyComboStates) : Released c key mod s (calls, t)
  | consumed (hreaches : Reaches c key s) {quiet : List KbdCall} {t : Kbd} {slot : Fin 8}
      (hslot : s.invokedOf key = some slot) (hfunction : (s.keyComboStates slot).function.atKeyRelease = true)
      (hquiet : Quiet quiet) (hslots : t.keyComboStates = (s.setInvoked slot false).keyComboStates) :
      Released c key mod s (quiet ++ [.emuQuickFuncInterrupt slot (s.keyComboStates slot).function], t)
  | modifier (hreaches : Reaches c key s) (hkey : key = c.commodoreKeySym ∨ key = c.ctrlKeySym)
      {quiet : List KbdCall} {t : Kbd} (hquiet : Quiet quiet)
      (hslots : ∀ slot, t.keyComboStates slot = { s.keyComboStates slot with invoked := false }) :
      Released c key mod s
        (quiet ++ (s.passOn key false mod ++ comboSlots.flatMap fun slot => s.comboCalls slot), t)
  | passed (hreaches : Reaches c key s) (hkey : ¬ (key = c.commodoreKeySym ∨ key = c.ctrlKeySym))
      (hslot : ∀ slot, s.invokedOf key = some slot → (s.keyComboStates slot).function.atKeyRelease = false)
      {quiet : List KbdCall} {t : Kbd} (hquiet : Quiet quiet) (hslots : t.keyComboStates = s.keyComboStates) :
      Released c key mod s (quiet ++ s.passOn key false mod, t)

theorem invokedOf_congr (h : t.keyComboStates = s.keyComboStates) (key : Int64) :
    t.invokedOf key = s.invokedOf key := by
  unfold invokedOf
  rw [h]

theorem comboCalls_congr (h : t.keyComboStates = s.keyComboStates) (slot : Fin 8) :
    t.comboCalls slot = s.comboCalls slot := by
  unfold comboCalls
  rw [h]

/-- The last steps of a release, in a state whose slots and whose menu are those of the first. -/
theorem finishRelease_released {quiet : List KbdCall} (hreaches : Reaches c key s)
    (hslots : t.keyComboStates = s.keyComboStates) (hui : t.uiEnabled = s.uiEnabled) (hquiet : Quiet quiet)
    (mod : Int32) :
    Released c key mod s (quiet ++ (t.finishRelease c key mod).1, (t.finishRelease c key mod).2) := by
  have hpassed : t.passOn key false mod = s.passOn key false mod := passOn_congr hui key false mod
  have hcombo : (fun slot => t.comboCalls slot) = fun slot => s.comboCalls slot :=
    funext fun slot => comboCalls_congr hslots slot
  unfold finishRelease handleKeyComboRelease
  rw [invokedOf_congr hslots, hslots]
  cases hslot : s.invokedOf key with
  | none =>
    by_cases hkey : key = c.commodoreKeySym ∨ key = c.ctrlKeySym
    · simp only [if_pos hkey, nil_append, handleKeyComboFunction, hpassed, hcombo, hslots]
      exact .modifier hreaches hkey hquiet fun _ => rfl
    · simp only [if_neg hkey, nil_append, hpassed]
      refine .passed hreaches hkey ?_ hquiet hslots
      intro slot hsome
      rw [hslot] at hsome
      cases hsome
  | some slot =>
    by_cases hfunction : (s.keyComboStates slot).function.atKeyRelease = true
    · simp only [if_pos hfunction]
      refine .consumed hreaches hslot hfunction hquiet ?_
      simp [setInvoked, hslots]
    · by_cases hkey : key = c.commodoreKeySym ∨ key = c.ctrlKeySym
      · simp only [if_neg hfunction, if_pos hkey, nil_append, handleKeyComboFunction, hpassed, hcombo, hslots]
        exact .modifier hreaches hkey hquiet fun _ => rfl
      · simp only [if_neg hfunction, if_neg hkey, nil_append, hpassed]
        refine .passed hreaches hkey ?_ hquiet hslots
        intro other hsome
        obtain rfl := Option.some.inj (hslot.symm.trans hsome)
        exact Bool.eq_false_of_not_eq_true hfunction

theorem released (c : KbdConfig) (key : Int64) (mod : Int32) (ticks : UInt64) (s : Kbd) :
    Released c key mod s (s.emuKeyReleasedMod c key mod ticks) := by
  have hquiet := noteRelease_quiet (c := c) (s := s) key ticks
  have hslots := noteRelease_slots (c := c) (s := s) key ticks
  have hui := noteRelease_ui (c := c) (s := s) key ticks
  unfold emuKeyReleasedMod
  by_cases hraw : s.rawKeycodeFunc = true
  · rw [if_pos hraw]
    exact .swallowed hraw ⟨rfl, fun _ => rfl⟩ rfl
  · rw [if_neg hraw]
    replace hraw : s.rawKeycodeFunc = false := Bool.eq_false_of_not_eq_true hraw
    simp only [hui]
    by_cases hkey : key = keycodeF12
    · rw [if_pos hkey]
      by_cases henabled : s.uiEnabled = true
      · rw [if_pos henabled]
        have hmenu : Released c key mod s ((s.noteRelease c key ticks).1 ++ (s.passOn key false 0 ++ []),
            (s.noteRelease c key ticks).2) := .menu hraw hkey hquiet quiet_nil hslots
        simpa [passOn, henabled] using hmenu
      · rw [if_neg henabled]
        have hmenu : Released c key mod s ((s.noteRelease c key ticks).1 ++
            (s.passOn key false 0 ++ [.uiTogglePending none]), (s.noteRelease c key ticks).2) :=
          .menu hraw hkey hquiet ⟨rfl, fun _ => rfl⟩ hslots
        simpa [passOn, henabled] using hmenu
    · rw [if_neg hkey]
      cases htakes : joyTakes c (c.joy.joyKeyUp s.uiEnabled) key with
      | some calls => exact .taken htakes (hquiet.append (joyTakes_quiet joyKey_quiet htakes)) hslots
      | none => exact finishRelease_released ⟨hraw, hkey, htakes⟩ hslots hui hquiet mod

end Kbd

/-! ### Runs -/

/-- The keyboard, the keys that are held, all calls, and how often each slot's second key was pressed while its
modifier was held. -/
structure KbdRun where
  kbd : Kbd
  held : Int64 → Bool := fun _ => false
  calls : List KbdCall := []
  comboPresses : Fin 8 → Nat := fun _ => 0

namespace KbdRun

def start (slots : Fin 8 → Int64 × BtnAssign) : KbdRun where
  kbd := comboSlots.foldl (fun s (slot : Fin 8) => s.kbdSetHotkeyFunction slot (slots slot).1 (slots slot).2) {}

/-- A second key is pressed while its modifier is held. -/
def pressesCombo (c : KbdConfig) (action : KbdAction) (r : KbdRun) (slot : Fin 8) : Bool :=
  match action with
  | .press key _ _ =>
    (r.kbd.keyComboStates slot).secondKey = key ∧ action.heldAfter r.held (modifierOf c slot) = true
  | _ => false

def step (c : KbdConfig) (action : KbdAction) (r : KbdRun) : KbdRun :=
  let (calls, kbd) := r.kbd.act c action
  { kbd := kbd
    held := action.heldAfter r.held
    calls := r.calls ++ calls
    comboPresses := fun slot => r.comboPresses slot + if r.pressesCombo c action slot then 1 else 0 }

def run (c : KbdConfig) (actions : List KbdAction) (r : KbdRun) : KbdRun :=
  actions.foldl (fun r action => r.step c action) r

/-- Each key alternates press and release. -/
def AlternatingRun (held : Int64 → Bool) : List KbdAction → Prop
  | [] => True
  | action :: rest => action.Alternates held ∧ AlternatingRun (action.heldAfter held) rest

def secondKey (slot : Fin 8) (r : KbdRun) : Int64 := (r.kbd.keyComboStates slot).secondKey
def function (slot : Fin 8) (r : KbdRun) : BtnAssign := (r.kbd.keyComboStates slot).function
def invoked (slot : Fin 8) (r : KbdRun) : Bool := (r.kbd.keyComboStates slot).invoked

/-- Every press that the emulator was told of is followed by a release. -/
def EveryPressReleased (key : Int64) (calls : List KbdCall) : Prop :=
  ∀ before mod later, calls = before ++ .emuxKeyInterruptMod key true mod :: later →
    ∃ mod, KbdCall.emuxKeyInterruptMod key false mod ∈ later

/-- Hotkeys are invoked exactly once, and the emulator holds no key that is not held. -/
structure HotkeysExact (c : KbdConfig) (r : KbdRun) : Prop where
  atMost : ∀ slot, invocations slot (r.function slot) r.calls ≤ r.comboPresses slot
  /-- With the second key and the modifier released, in whatever order, nothing is left to invoke. -/
  settled : ∀ slot, r.held (r.secondKey slot) = false → r.held (modifierOf c slot) = false →
    invocations slot (r.function slot) r.calls = r.comboPresses slot
  released : ∀ key, r.held key = false → EveryPressReleased key r.calls

/-- The functions that a hotkey can invoke. -/
def handled (function : BtnAssign) : Bool := function.atKeyRelease ∨ waits function

/-- The flags tell which modifiers are held, one slot is meant, and nobody else takes its second key. -/
def CleanPress (c : KbdConfig) (key : Int64) (ticks : UInt64) (held : Int64 → Bool) (r : KbdRun) : Prop :=
  ∀ slot, r.secondKey slot = key →
    (r.kbd.notePress c key ticks).flagOf slot = held (modifierOf c slot) ∧
      (held (modifierOf c slot) = true →
        (∀ other, r.secondKey other = key → held (modifierOf c other) = true → other = slot) ∧
          r.kbd.rawKeycodeFunc = false ∧ joyTakes c (c.joy.joyKeyDown r.kbd.uiEnabled) key = none ∧
            handled (r.function slot) = true ∧ r.invoked slot = false)

/-- The second key of a function that waits for it reaches its slot. A modifier is held until all such keys are
released, and reaches the slots that wait for it. A key that the emulator holds is released while the menu is down. -/
def CleanRelease (c : KbdConfig) (key : Int64) (r : KbdRun) : Prop :=
  (∀ slot, r.secondKey slot = key → r.invoked slot = true → (r.function slot).atKeyRelease = true →
    Kbd.Reaches c key r.kbd ∧ ∀ other, r.secondKey other = key → r.invoked other = true → other = slot) ∧
  (key = c.commodoreKeySym ∨ key = c.ctrlKeySym → ∀ slot, r.invoked slot = true →
    (r.function slot).atKeyRelease = false ∧ Kbd.Reaches c key r.kbd) ∧
  (emulatorHolds key r.calls = true → r.kbd.rawKeycodeFunc = false ∧ r.kbd.uiEnabled = false)

def Clean (c : KbdConfig) (action : KbdAction) (r : KbdRun) : Prop :=
  match action with
  | .press key _ ticks => CleanPress c key ticks (action.heldAfter r.held) r
  | .release key _ _ => CleanRelease c key r
  | _ => True

def CleanRun (c : KbdConfig) (r : KbdRun) : List KbdAction → Prop
  | [] => True
  | action :: rest => Clean c action r ∧ CleanRun c (r.step c action) rest

instance (c : KbdConfig) (key : Int64) (ticks : UInt64) (held : Int64 → Bool) (r : KbdRun) :
    Decidable (CleanPress c key ticks held r) :=
  Nat.decidableForallFin _

instance (c : KbdConfig) (key : Int64) (r : KbdRun) : Decidable (CleanRelease c key r) :=
  have : Decidable (∀ slot : Fin 8, r.secondKey slot = key → r.invoked slot = true →
      (r.function slot).atKeyRelease = true →
        Kbd.Reaches c key r.kbd ∧ ∀ other, r.secondKey other = key → r.invoked other = true → other = slot) :=
    Nat.decidableForallFin _
  have : Decidable (∀ slot : Fin 8, r.invoked slot = true →
      (r.function slot).atKeyRelease = false ∧ Kbd.Reaches c key r.kbd) := Nat.decidableForallFin _
  inferInstanceAs (Decidable (_ ∧ (_ → _) ∧ (_ → _ ∧ _)))

instance (c : KbdConfig) (action : KbdAction) (r : KbdRun) : Decidable (Clean c action r) :=
  match action with
  | .press key _ ticks => inferInstanceAs (Decidable (CleanPress c key ticks _ r))
  | .release key _ _ => inferInstanceAs (Decidable (CleanRelease c key r))
  | .setUiEnabled _ | .setRawKeycodeFunc => inferInstanceAs (Decidable True)

def decideCleanRun (c : KbdConfig) (r : KbdRun) : (actions : List KbdAction) → Decidable (CleanRun c r actions)
  | [] => inferInstanceAs (Decidable True)
  | action :: rest =>
    have := decideCleanRun c (r.step c action) rest
    inferInstanceAs (Decidable (Clean c action r ∧ CleanRun c (r.step c action) rest))

instance (c : KbdConfig) (r : KbdRun) (actions : List KbdAction) : Decidable (CleanRun c r actions) :=
  decideCleanRun c r actions

def decideAlternatingRun (held : Int64 → Bool) : (actions : List KbdAction) → Decidable (AlternatingRun held actions)
  | [] => inferInstanceAs (Decidable True)
  | action :: rest =>
    have := decideAlternatingRun (action.heldAfter held) rest
    inferInstanceAs (Decidable (action.Alternates held ∧ AlternatingRun (action.heldAfter held) rest))

instance (held : Int64 → Bool) (actions : List KbdAction) : Decidable (AlternatingRun held actions) :=
  decideAlternatingRun held actions

/-! ### The slots and their counts -/

/-- What holds of the slots after every clean step. -/
structure Counted (c : KbdConfig) (r : KbdRun) : Prop where
  handled : ∀ slot, r.invoked slot = true → handled (r.function slot) = true
  modifier : ∀ slot, r.invoked slot = true → r.held (modifierOf c slot) = true
  secondKey : ∀ slot, r.invoked slot = true → (r.function slot).atKeyRelease = true →
    r.held (r.secondKey slot) = true
  counted : ∀ slot, invocations slot (r.function slot) r.calls + (if r.invoked slot then 1 else 0) =
    r.comboPresses slot

/-- What holds of the emulator's keys after every clean step. -/
structure Told (c : KbdConfig) (r : KbdRun) : Prop where
  held : ∀ key, emulatorHolds key r.calls = true → r.held key = true
  free : ∀ key, emulatorHolds key r.calls = true → joyTakes c (c.joy.joyKeyUp false) key = none
  notInvoked : ∀ key, emulatorHolds key r.calls = true → ∀ slot, r.secondKey slot = key →
    (r.function slot).atKeyRelease = true → r.invoked slot = false

variable {r t : KbdRun}

theorem modifierOf_cases (c : KbdConfig) (slot : Fin 8) :
    modifierOf c slot = c.commodoreKeySym ∨ modifierOf c slot = c.ctrlKeySym := by
  unfold modifierOf
  split
  · exact .inl rfl
  · exact .inr rfl

theorem Counted.kept (h : Counted c r) (hslots : t.kbd.keyComboStates = r.kbd.keyComboStates)
    (hcalls : ∀ slot function, invocations slot function t.calls = invocations slot function r.calls)
    (hpresses : ∀ slot, t.comboPresses slot = r.comboPresses slot)
    (hmodifier : ∀ slot, r.invoked slot = true → t.held (modifierOf c slot) = true)
    (hsecondKey : ∀ slot, r.invoked slot = true → (r.function slot).atKeyRelease = true →
      t.held (r.secondKey slot) = true) : Counted c t := by
  have hinvoked : ∀ slot, t.invoked slot = r.invoked slot := fun slot => by simp only [invoked, hslots]
  have hfunction : ∀ slot, t.function slot = r.function slot := fun slot => by simp only [function, hslots]
  have hkey : ∀ slot, t.secondKey slot = r.secondKey slot := fun slot => by simp only [KbdRun.secondKey, hslots]
  constructor
  · intro slot hslot
    rw [hfunction]
    exact h.handled slot (hinvoked slot ▸ hslot)
  · intro slot hslot
    exact hmodifier slot (hinvoked slot ▸ hslot)
  · intro slot hslot hatKey
    rw [hkey]
    exact hsecondKey slot (hinvoked slot ▸ hslot) (hfunction slot ▸ hatKey)
  · intro slot
    rw [hfunction, hcalls, hinvoked, hpresses]
    exact h.counted slot

theorem Told.kept (h : Told c r)
    (hholds : ∀ key, emulatorHolds key t.calls = true → emulatorHolds key r.calls = true ∧ t.held key = true)
    (hslots : Kbd.SameSlots r.kbd t.kbd) (hinvoked : ∀ slot, t.invoked slot = true → r.invoked slot = true) :
    Told c t := by
  constructor
  · intro key htold
    exact (hholds key htold).2
  · intro key htold
    exact h.free key (hholds key htold).1
  · intro key htold slot hkey hatKey
    have hkey' : r.secondKey slot = key := (hslots slot).1.symm.trans hkey
    have hatKey' : (r.function slot).atKeyRelease = true := by
      unfold function at hatKey ⊢
      rw [← (hslots slot).2]
      exact hatKey
    have hnot := h.notInvoked key (hholds key htold).1 slot hkey' hatKey'
    by_contra hslot
    rw [hinvoked slot (Bool.eq_true_of_not_eq_false hslot)] at hnot
    cases hnot

theorem emulatorTells_passOn (s : Kbd) (key other : Int64) (pressed : Bool) (mod : Int32) :
    emulatorTells other (s.passOn key pressed mod) =
      if s.uiEnabled = false ∧ key = other then [pressed] else [] := by
  unfold passOn
  by_cases henabled : s.uiEnabled = true
  · simp [henabled, emulatorTells, KbdCall.emulatorKey]
  · by_cases hkey : key = other
    all_goals simp [henabled, hkey, emulatorTells, KbdCall.emulatorKey]

theorem invokes_passOn (s : Kbd) (key : Int64) (pressed : Bool) (mod : Int32) :
    (s.passOn key pressed mod).filterMap KbdCall.invokes = [] := by
  unfold passOn
  split <;> rfl

/-! ### A press -/

section Press

variable {key : Int64} {mod : Int32} {ticks : UInt64}

theorem step_press_held (other : Int64) (hother : r.held other = true) :
    (r.step c (.press key mod ticks)).held other = true := by
  change Function.update r.held key true other = true
  by_cases hkey : other = key
  · rw [hkey, Function.update_self]
  · rw [Function.update_of_ne hkey]
    exact hother

theorem step_press_key : (r.step c (.press key mod ticks)).held key = true := by
  change Function.update r.held key true key = true
  rw [Function.update_self]

variable {slot : Fin 8}

theorem pressesCombo_iff : r.pressesCombo c (.press key mod ticks) slot = true ↔
    r.secondKey slot = key ∧ (r.step c (.press key mod ticks)).held (modifierOf c slot) = true :=
  decide_eq_true_iff

theorem Counted.press_kept (h : Counted c r) {calls : List KbdCall}
    (hcalls : calls.filterMap KbdCall.invokes = []) {s : Kbd} (hslots : s.keyComboStates = r.kbd.keyComboStates)
    (hnone : ∀ slot, r.pressesCombo c (.press key mod ticks) slot = false)
    (hact : r.kbd.emuKeyPressedMod c key mod ticks = (calls, s)) : Counted c (r.step c (.press key mod ticks)) := by
  have hkbd : (r.step c (.press key mod ticks)).kbd = s := congrArg Prod.snd hact
  have hlater : (r.step c (.press key mod ticks)).calls = r.calls ++ calls :=
    congrArg (r.calls ++ ·) (congrArg Prod.fst hact)
  apply h.kept
  · rw [hkbd, hslots]
  · intro slot function
    rw [hlater, invocations_append]
    unfold invocations
    rw [hcalls]
    rfl
  · intro slot
    change r.comboPresses slot + (if r.pressesCombo c (.press key mod ticks) slot then 1 else 0) = _
    rw [hnone]
    rfl
  · intro slot hinvoked
    exact step_press_held _ (h.modifier slot hinvoked)
  · intro slot hinvoked hatKey
    exact step_press_held _ (h.secondKey slot hinvoked hatKey)

theorem Counted.press_consumed (h : Counted c r) (hclean : Clean c (.press key mod ticks) r)
    (hcombo : (r.kbd.notePress c key ticks).comboOf key = some slot)
    (hact : r.kbd.emuKeyPressedMod c key mod ticks = ([], (r.kbd.notePress c key ticks).setInvoked slot true)) :
    Counted c (r.step c (.press key mod ticks)) := by
  have hkbd : (r.step c (.press key mod ticks)).kbd = (r.kbd.notePress c key ticks).setInvoked slot true :=
    congrArg Prod.snd hact
  have hcalls : (r.step c (.press key mod ticks)).calls = r.calls := by
    change r.calls ++ (r.kbd.emuKeyPressedMod c key mod ticks).1 = r.calls
    rw [hact, append_nil]
  obtain ⟨hkey, hflag⟩ := comboOf_eq_some hcombo
  rw [notePress_slots] at hkey
  obtain ⟨hflags, hfound⟩ := hclean slot hkey
  have hmodifier : (r.step c (.press key mod ticks)).held (modifierOf c slot) = true := hflags.symm.trans hflag
  obtain ⟨hone, -, -, hhandled, hnot⟩ := hfound hmodifier
  have hfirst : r.pressesCombo c (.press key mod ticks) slot = true := pressesCombo_iff.2 ⟨hkey, hmodifier⟩
  have hothers : ∀ other, other ≠ slot → r.pressesCombo c (.press key mod ticks) other = false := by
    intro other hne
    by_contra hpresses
    obtain ⟨hotherKey, hotherHeld⟩ := pressesCombo_iff.1 (Bool.eq_true_of_not_eq_false hpresses)
    exact hne (hone other hotherKey hotherHeld)
  have hsame : ∀ other, (r.step c (.press key mod ticks)).function other = r.function other ∧
      (r.step c (.press key mod ticks)).secondKey other = r.secondKey other := by
    intro other
    obtain ⟨hsecond, hfunction⟩ := sameSlots_setInvoked (s := r.kbd.notePress c key ticks) slot true other
    unfold KbdRun.function KbdRun.secondKey
    rw [hkbd, hsecond, hfunction, notePress_slots]
    exact ⟨rfl, rfl⟩
  have hself : (r.step c (.press key mod ticks)).invoked slot = true := by
    unfold invoked
    rw [hkbd, setInvoked_at]
  have hother : ∀ other, other ≠ slot → (r.step c (.press key mod ticks)).invoked other = r.invoked other := by
    intro other hne
    unfold invoked
    rw [hkbd, setInvoked_ne hne, notePress_slots]
  constructor
  · intro other hinvoked
    rw [(hsame other).1]
    by_cases hne : other = slot
    · rw [hne]
      exact hhandled
    · exact h.handled other (hother other hne ▸ hinvoked)
  · intro other hinvoked
    by_cases hne : other = slot
    · rw [hne]
      exact hmodifier
    · exact step_press_held _ (h.modifier other (hother other hne ▸ hinvoked))
  · intro other hinvoked hatKey
    rw [(hsame other).2]
    by_cases hne : other = slot
    · rw [hne, show r.secondKey slot = key from hkey]
      exact step_press_key
    · exact step_press_held _ (h.secondKey other (hother other hne ▸ hinvoked) ((hsame other).1 ▸ hatKey))
  · intro other
    have hcounted := h.counted other
    change _ = r.comboPresses other + (if r.pressesCombo c (.press key mod ticks) other then 1 else 0)
    rw [(hsame other).1, hcalls]
    by_cases hne : other = slot
    · subst hne
      rw [show r.invoked other = false from hnot] at hcounted
      rw [hself, hfirst, ← hcounted]
      simp
    · rw [hother other hne, hothers other hne, hcounted]
      simp

theorem Counted.press (h : Counted c r) (hclean : Clean c (.press key mod ticks) r) :
    Counted c (r.step c (.press key mod ticks)) := by
  generalize hact : r.kbd.emuKeyPressedMod c key mod ticks = result
  have hpressed := pressed c key mod ticks r.kbd
  rw [hact] at hpressed
  -- Where no slot is marked, no second key was pressed while its modifier was held.
  have hmeant : ∀ slot, r.pressesCombo c (.press key mod ticks) slot = true →
      r.kbd.rawKeycodeFunc = false ∧ joyTakes c (c.joy.joyKeyDown r.kbd.uiEnabled) key = none ∧
        (r.kbd.notePress c key ticks).flagOf slot = true ∧ r.secondKey slot = key := by
    intro slot hpresses
    obtain ⟨hkey, hheld⟩ := pressesCombo_iff.1 hpresses
    obtain ⟨hflags, hfound⟩ := hclean slot hkey
    obtain ⟨-, hraw, htakes, -⟩ := hfound hheld
    exact ⟨hraw, htakes, hflags.trans hheld, hkey⟩
  cases hpressed with
  | swallowed hraw =>
    refine h.press_kept rfl rfl ?_ hact
    intro slot
    by_contra hpresses
    have hnot := (hmeant slot (Bool.eq_true_of_not_eq_false hpresses)).1
    rw [hraw] at hnot
    cases hnot
  | taken hraw htakes =>
    refine h.press_kept (joyTakes_quiet joyKey_quiet htakes).invokes (notePress_slots key ticks) ?_ hact
    intro slot
    by_contra hpresses
    have hnot := (hmeant slot (Bool.eq_true_of_not_eq_false hpresses)).2.1
    rw [htakes] at hnot
    cases hnot
  | consumed hraw htakes hslot => exact h.press_consumed hclean hslot hact
  | passed hraw htakes hslot =>
    refine h.press_kept (invokes_passOn r.kbd key true mod) (notePress_slots key ticks) ?_ hact
    intro slot
    by_contra hpresses
    obtain ⟨-, -, hflag, hkey⟩ := hmeant slot (Bool.eq_true_of_not_eq_false hpresses)
    have hsecond : ((r.kbd.notePress c key ticks).keyComboStates slot).secondKey = key := by
      rw [notePress_slots]
      exact hkey
    have hnot := comboOf_eq_none hslot hsecond
    rw [hflag] at hnot
    cases hnot

theorem Told.press (h : Told c r) (hcounted : Counted c r) (hup : r.held key = false) :
    Told c (r.step c (.press key mod ticks)) := by
  generalize hact : r.kbd.emuKeyPressedMod c key mod ticks = result
  have hpressed := pressed c key mod ticks r.kbd
  rw [hact] at hpressed
  obtain ⟨calls, s⟩ := result
  have hkbd : (r.step c (.press key mod ticks)).kbd = s := congrArg Prod.snd hact
  have hcalls : (r.step c (.press key mod ticks)).calls = r.calls ++ calls :=
    congrArg (r.calls ++ ·) (congrArg Prod.fst hact)
  have hsilent : ∀ other, emulatorTells other calls = [] →
      emulatorHolds other (r.step c (.press key mod ticks)).calls = true →
        emulatorHolds other r.calls = true ∧ (r.step c (.press key mod ticks)).held other = true := by
    intro other hquiet hholds
    rw [hcalls, emulatorHolds_quiet hquiet] at hholds
    exact ⟨hholds, step_press_held other (h.held other hholds)⟩
  have hslots : ∀ slot, s.keyComboStates = r.kbd.keyComboStates →
      (r.step c (.press key mod ticks)).invoked slot = true → r.invoked slot = true := by
    intro slot hsame hinvoked
    unfold invoked at hinvoked ⊢
    rw [hkbd, hsame] at hinvoked
    exact hinvoked
  cases hpressed with
  | swallowed hraw =>
    refine h.kept (fun other => hsilent other rfl) ?_ fun slot => hslots slot rfl
    rw [hkbd]
    exact Kbd.SameSlots.refl _
  | taken hraw htakes =>
    have hquiet := joyTakes_quiet joyKey_quiet htakes
    refine h.kept (fun other => hsilent other (hquiet.tells other)) ?_ fun slot => hslots slot (notePress_slots key ticks)
    rw [hkbd]
    exact .of_eq (notePress_slots key ticks)
  | @consumed slot hraw htakes hslot =>
    obtain ⟨hkey, -⟩ := comboOf_eq_some hslot
    rw [notePress_slots] at hkey
    constructor
    · intro other hholds
      exact (hsilent other rfl hholds).2
    · intro other hholds
      exact h.free other (hsilent other rfl hholds).1
    · intro other hholds some hsome hatKey
      have hbefore := (hsilent other rfl hholds).1
      -- The emulator does not hold the key, which was up.
      have hne : some ≠ slot := by
        rintro rfl
        have hheld := h.held other hbefore
        unfold secondKey at hsome
        rw [hkbd, (sameSlots_setInvoked some true some).1, notePress_slots, hkey] at hsome
        rw [← hsome, hup] at hheld
        cases hheld
      unfold secondKey at hsome
      unfold function at hatKey
      unfold invoked
      rw [hkbd, setInvoked_ne hne, notePress_slots] at hsome hatKey ⊢
      exact h.notInvoked other hbefore some hsome hatKey
  | passed hraw htakes hslot =>
    have hcases : ∀ other, emulatorHolds other (r.step c (.press key mod ticks)).calls = true →
        emulatorHolds other r.calls = true ∨ (r.kbd.uiEnabled = false ∧ other = key) := by
      intro other hholds
      by_cases htold : r.kbd.uiEnabled = false ∧ key = other
      · exact .inr ⟨htold.1, htold.2.symm⟩
      · have hquiet : emulatorTells other (r.kbd.passOn key true mod) = [] := by
          rw [emulatorTells_passOn, if_neg htold]
        exact .inl (hsilent other hquiet hholds).1
    constructor
    · intro other hholds
      rcases hcases other hholds with hbefore | ⟨-, rfl⟩
      · exact step_press_held other (h.held other hbefore)
      · exact step_press_key
    · intro other hholds
      rcases hcases other hholds with hbefore | ⟨hui, rfl⟩
      · exact h.free other hbefore
      · rw [hui] at htakes
        exact (joyTakes_none other false).2 htakes
    · intro other hholds slot hsome hatKey
      unfold secondKey at hsome
      unfold function at hatKey
      unfold invoked
      rw [hkbd, notePress_slots] at hsome hatKey ⊢
      rcases hcases other hholds with hbefore | ⟨-, rfl⟩
      · exact h.notInvoked other hbefore slot hsome hatKey
      · by_contra hinvoked
        have hheld := hcounted.secondKey slot (Bool.eq_true_of_not_eq_false hinvoked) hatKey
        rw [show r.secondKey slot = other from hsome, hup] at hheld
        cases hheld

end Press

/-! ### A release -/

section Release

variable {key : Int64} {mod : Int32} {ticks : UInt64}

variable {other : Int64} {s : Kbd} {quiet later : List KbdCall}

theorem step_release_held (hne : other ≠ key) : (r.step c (.release key mod ticks)).held other = r.held other := by
  change Function.update r.held key false other = r.held other
  rw [Function.update_of_ne hne]

/-- No slot waits for the key, as its second key or as its modifier. -/
structure Unawaited (c : KbdConfig) (key : Int64) (r : KbdRun) : Prop where
  modifier : ∀ slot, r.invoked slot = true → modifierOf c slot ≠ key
  secondKey : ∀ slot, r.invoked slot = true → (r.function slot).atKeyRelease = true → r.secondKey slot ≠ key

theorem unawaited_of_unreached (hclean : CleanRelease c key r) (hreaches : ¬ Kbd.Reaches c key r.kbd) :
    Unawaited c key r := by
  constructor
  · intro slot hinvoked hkey
    refine hreaches (hclean.2.1 ?_ slot hinvoked).2
    rw [← hkey]
    exact modifierOf_cases c slot
  · intro slot hinvoked hatKey hkey
    exact hreaches (hclean.1 slot hkey hinvoked hatKey).1

theorem release_kept (hcounted : Counted c r) (htold : Told c r) (hunawaited : Unawaited c key r)
    {calls : List KbdCall} (hslots : s.keyComboStates = r.kbd.keyComboStates)
    (hinvokes : calls.filterMap KbdCall.invokes = []) (htells : ∀ other, other ≠ key → emulatorTells other calls = [])
    (hkey : emulatorHolds key (r.calls ++ calls) = false)
    (hact : r.kbd.emuKeyReleasedMod c key mod ticks = (calls, s)) :
    Counted c (r.step c (.release key mod ticks)) ∧ Told c (r.step c (.release key mod ticks)) := by
  have hkbd : (r.step c (.release key mod ticks)).kbd = s := congrArg Prod.snd hact
  have hcalls : (r.step c (.release key mod ticks)).calls = r.calls ++ calls :=
    congrArg (r.calls ++ ·) (congrArg Prod.fst hact)
  constructor
  · apply hcounted.kept
    · rw [hkbd, hslots]
    · intro slot function
      rw [hcalls, invocations_append]
      unfold invocations
      rw [hinvokes]
      rfl
    · intro slot
      rfl
    · intro slot hinvoked
      rw [step_release_held (hunawaited.modifier slot hinvoked)]
      exact hcounted.modifier slot hinvoked
    · intro slot hinvoked hatKey
      rw [step_release_held (hunawaited.secondKey slot hinvoked hatKey)]
      exact hcounted.secondKey slot hinvoked hatKey
  · apply htold.kept
    · intro other hholds
      rw [hcalls] at hholds
      have hne : other ≠ key := by
        rintro rfl
        rw [hkey] at hholds
        cases hholds
      rw [emulatorHolds_quiet (htells other hne)] at hholds
      rw [step_release_held hne]
      exact ⟨hholds, htold.held other hholds⟩
    · rw [hkbd]
      exact .of_eq hslots
    · intro slot hinvoked
      unfold invoked at hinvoked ⊢
      rw [hkbd, hslots] at hinvoked
      exact hinvoked

theorem holds_passed (hclean : CleanRelease c key r) (hquiet : Quiet quiet) (hlater : emulatorTells key later = []) :
    emulatorHolds key (r.calls ++ (quiet ++ (r.kbd.passOn key false mod ++ later))) = false := by
  have htells : emulatorTells key (quiet ++ (r.kbd.passOn key false mod ++ later)) =
      if r.kbd.uiEnabled = false then [false] else [] := by
    rw [emulatorTells_append, emulatorTells_append, hquiet.tells, hlater, emulatorTells_passOn, nil_append, append_nil]
    simp
  by_cases henabled : r.kbd.uiEnabled = false
  · rw [if_pos henabled] at htells
    exact emulatorHolds_told htells
  · rw [if_neg henabled] at htells
    rw [emulatorHolds_quiet htells]
    by_contra hholds
    exact henabled (hclean.2.2 (Bool.eq_true_of_not_eq_false hholds)).2

theorem tells_other (hne : other ≠ key) (hquiet : Quiet quiet) (hlater : emulatorTells other later = []) (s : Kbd) :
    emulatorTells other (quiet ++ (s.passOn key false mod ++ later)) = [] := by
  rw [emulatorTells_append, emulatorTells_append, hquiet.tells, hlater, emulatorTells_passOn,
    if_neg fun h => hne h.2.symm]
  rfl

theorem release_consumed (hcounted : Counted c r) (htold : Told c r) (hclean : CleanRelease c key r)
     {slot : Fin 8} (hslot : r.kbd.invokedOf key = some slot)
    (hfunction : (r.function slot).atKeyRelease = true) (hquiet : Quiet quiet)
    (hslots : s.keyComboStates = (r.kbd.setInvoked slot false).keyComboStates)
    (hact : r.kbd.emuKeyReleasedMod c key mod ticks =
      (quiet ++ [.emuQuickFuncInterrupt slot (r.function slot)], s)) :
    Counted c (r.step c (.release key mod ticks)) ∧ Told c (r.step c (.release key mod ticks)) := by
  have hkbd : (r.step c (.release key mod ticks)).kbd = s := congrArg Prod.snd hact
  have hcalls : (r.step c (.release key mod ticks)).calls =
      r.calls ++ (quiet ++ [.emuQuickFuncInterrupt slot (r.function slot)]) :=
    congrArg (r.calls ++ ·) (congrArg Prod.fst hact)
  obtain ⟨hkey, hinvoked⟩ := invokedOf_eq_some hslot
  have hone := (hclean.1 slot hkey hinvoked hfunction).2
  have hnot : ¬ (key = c.commodoreKeySym ∨ key = c.ctrlKeySym) := by
    intro hmodifier
    have hatKey := (hclean.2.1 hmodifier slot hinvoked).1
    rw [hfunction] at hatKey
    cases hatKey
  have hsame : Kbd.SameSlots r.kbd (r.step c (.release key mod ticks)).kbd := by
    intro other
    rw [hkbd, hslots]
    exact sameSlots_setInvoked slot false other
  have hfunctionOf : ∀ other, (r.step c (.release key mod ticks)).function other = r.function other :=
    fun other => (hsame other).2
  have hself : (r.step c (.release key mod ticks)).invoked slot = false := by
    unfold invoked
    rw [hkbd, hslots, setInvoked_at]
  have hother : ∀ other, other ≠ slot → (r.step c (.release key mod ticks)).invoked other = r.invoked other := by
    intro other hne
    unfold invoked
    rw [hkbd, hslots, setInvoked_ne hne]
  have hbefore : ∀ other, (r.step c (.release key mod ticks)).invoked other = true →
      other ≠ slot ∧ r.invoked other = true := by
    intro other hlater
    have hne : other ≠ slot := by
      rintro rfl
      rw [hself] at hlater
      cases hlater
    exact ⟨hne, hother other hne ▸ hlater⟩
  constructor
  · constructor
    · intro other hlater
      rw [hfunctionOf]
      exact hcounted.handled other (hbefore other hlater).2
    · intro other hlater
      have hne : modifierOf c other ≠ key := by
        intro hmodifier
        exact hnot (hmodifier ▸ modifierOf_cases c other)
      rw [step_release_held hne]
      exact hcounted.modifier other (hbefore other hlater).2
    · intro other hlater hatKey
      obtain ⟨hne, hwas⟩ := hbefore other hlater
      rw [show (r.step c (.release key mod ticks)).secondKey other = r.secondKey other from (hsame other).1,
        step_release_held fun hsecond => hne (hone other hsecond hwas)]
      exact hcounted.secondKey other hwas (hfunctionOf other ▸ hatKey)
    · intro other
      have hcount := hcounted.counted other
      change _ = r.comboPresses other + 0
      rw [hfunctionOf, hcalls, invocations_append, invocations_append, hquiet.invocations]
      by_cases hne : other = slot
      · subst hne
        rw [show r.invoked other = true from hinvoked] at hcount
        rw [hself, ← hcount]
        simp [invocations, KbdCall.invokes]
      · rw [hother other hne, ← hcount]
        have hnone : invocations other (r.function other) [.emuQuickFuncInterrupt slot (r.function slot)] = 0 := by
          unfold invocations
          rw [count_eq_zero]
          intro hmem
          simp only [filterMap_cons, KbdCall.invokes, filterMap_nil, mem_singleton, Prod.mk.injEq] at hmem
          exact hne hmem.1
        omega
  · apply htold.kept
    · intro other hholds
      have htells : emulatorTells other (quiet ++ [.emuQuickFuncInterrupt slot (r.function slot)]) = [] := by
        rw [emulatorTells_append, hquiet.tells]
        rfl
      rw [hcalls, emulatorHolds_quiet htells] at hholds
      have hne : other ≠ key := by
        rintro rfl
        have hfree := htold.notInvoked other hholds slot hkey hfunction
        rw [show r.invoked slot = true from hinvoked] at hfree
        cases hfree
      rw [step_release_held hne]
      exact ⟨hholds, htold.held other hholds⟩
    · exact hsame
    · intro other hlater
      exact (hbefore other hlater).2

theorem release_modifier (hcounted : Counted c r) (htold : Told c r) (hclean : CleanRelease c key r)
    (hkey : key = c.commodoreKeySym ∨ key = c.ctrlKeySym) (hquiet : Quiet quiet)
    (hslots : ∀ slot, s.keyComboStates slot = { r.kbd.keyComboStates slot with invoked := false })
    (hact : r.kbd.emuKeyReleasedMod c key mod ticks =
      (quiet ++ (r.kbd.passOn key false mod ++ comboSlots.flatMap fun slot => r.kbd.comboCalls slot), s)) :
    Counted c (r.step c (.release key mod ticks)) ∧ Told c (r.step c (.release key mod ticks)) := by
  have hkbd : (r.step c (.release key mod ticks)).kbd = s := congrArg Prod.snd hact
  have hcalls : (r.step c (.release key mod ticks)).calls = r.calls ++
      (quiet ++ (r.kbd.passOn key false mod ++ comboSlots.flatMap fun slot => r.kbd.comboCalls slot)) :=
    congrArg (r.calls ++ ·) (congrArg Prod.fst hact)
  have hnone : ∀ slot, (r.step c (.release key mod ticks)).invoked slot = false := by
    intro slot
    unfold invoked
    rw [hkbd, hslots]
  have hfunctionOf : ∀ slot, (r.step c (.release key mod ticks)).function slot = r.function slot := by
    intro slot
    unfold function
    rw [hkbd, hslots]
  have hcombo := tells_comboFunction (s := r.kbd)
  constructor
  · constructor
    · intro slot hlater
      rw [hnone] at hlater
      cases hlater
    · intro slot hlater
      rw [hnone] at hlater
      cases hlater
    · intro slot hlater
      rw [hnone] at hlater
      cases hlater
    · intro slot
      have hcount := hcounted.counted slot
      have hpassed : invocations slot (r.function slot) (r.kbd.passOn key false mod) = 0 := by
        unfold invocations
        rw [invokes_passOn]
        rfl
      have hall : invocations slot (r.function slot) (comboSlots.flatMap fun slot => r.kbd.comboCalls slot) =
          if r.invoked slot = true ∧ waits (r.function slot) = true then 1 else 0 :=
        count_comboFunction comboSlots (by decide) (mem_comboSlots slot)
      change _ = r.comboPresses slot + 0
      rw [hfunctionOf, hcalls, hnone, invocations_append, invocations_append, invocations_append,
        hquiet.invocations, hpassed, hall, ← hcount]
      by_cases hinvoked : r.invoked slot = true
      · have hhandled := hcounted.handled slot hinvoked
        have hatKey := (hclean.2.1 hkey slot hinvoked).1
        have hwaits : waits (r.function slot) = true := by
          simpa [KbdRun.handled, hatKey] using hhandled
        simp [hinvoked, hwaits]
      · simp [hinvoked]
  · apply htold.kept
    · intro other hholds
      rw [hcalls] at hholds
      have hne : other ≠ key := by
        rintro rfl
        rw [holds_passed hclean hquiet (hcombo other)] at hholds
        cases hholds
      rw [emulatorHolds_quiet (tells_other hne hquiet (hcombo other) r.kbd)] at hholds
      rw [step_release_held hne]
      exact ⟨hholds, htold.held other hholds⟩
    · intro slot
      rw [hkbd, hslots]
      exact ⟨rfl, rfl⟩
    · intro slot hlater
      rw [hnone] at hlater
      cases hlater

theorem release_clean (hcounted : Counted c r) (htold : Told c r) (hclean : CleanRelease c key r) :
    Counted c (r.step c (.release key mod ticks)) ∧ Told c (r.step c (.release key mod ticks)) := by
  generalize hact : r.kbd.emuKeyReleasedMod c key mod ticks = result
  have hreleased := released c key mod ticks r.kbd
  rw [hact] at hreleased
  -- A key that the emulator holds is no joystick key.
  have hquiet_holds : (r.kbd.rawKeycodeFunc = true ∨
      ∃ calls, joyTakes c (c.joy.joyKeyUp r.kbd.uiEnabled) key = some calls) →
        emulatorHolds key r.calls = false := by
    intro hdiverted
    by_contra hholds
    replace hholds := Bool.eq_true_of_not_eq_false hholds
    obtain ⟨hraw, hui⟩ := hclean.2.2 hholds
    rcases hdiverted with hset | ⟨calls, htakes⟩
    · rw [hraw] at hset
      cases hset
    · rw [hui, htold.free key hholds] at htakes
      cases htakes
  cases hreleased with
  | swallowed hraw hquiet hslots =>
    have hunreached : ¬ Kbd.Reaches c key r.kbd := by
      rintro ⟨hnot, -⟩
      rw [hraw] at hnot
      cases hnot
    refine release_kept hcounted htold (unawaited_of_unreached hclean hunreached) hslots hquiet.invokes
      (fun other _ => hquiet.tells other) ?_ hact
    rw [emulatorHolds_quiet (hquiet.tells key)]
    exact hquiet_holds (.inl hraw)
  | menu hraw hkey hquiet hlater hslots =>
    have hunreached : ¬ Kbd.Reaches c key r.kbd := fun hreaches => hreaches.2.1 hkey
    refine release_kept hcounted htold (unawaited_of_unreached hclean hunreached) hslots ?_
      (fun other hne => tells_other hne hquiet (hlater.tells other) r.kbd)
      (holds_passed hclean hquiet (hlater.tells key)) hact
    rw [filterMap_append, filterMap_append, hquiet.invokes, hlater.invokes, invokes_passOn]
    rfl
  | taken htakes hquiet hslots =>
    have hunreached : ¬ Kbd.Reaches c key r.kbd := by
      rintro ⟨-, -, hnot⟩
      rw [htakes] at hnot
      cases hnot
    refine release_kept hcounted htold (unawaited_of_unreached hclean hunreached) hslots hquiet.invokes
      (fun other _ => hquiet.tells other) ?_ hact
    rw [emulatorHolds_quiet (hquiet.tells key)]
    exact hquiet_holds (.inr ⟨_, htakes⟩)
  | consumed hreaches hslot hfunction hquiet hslots =>
    exact release_consumed hcounted htold hclean hslot hfunction hquiet hslots hact
  | modifier hreaches hkey hquiet hslots => exact release_modifier hcounted htold hclean hkey hquiet hslots hact
  | @passed hreaches hkey hslot quiet t hquiet hslots =>
    have hunawaited : Unawaited c key r := by
      constructor
      · intro slot _ hmodifier
        exact hkey (hmodifier ▸ modifierOf_cases c slot)
      · intro slot hinvoked hatKey hsecond
        obtain ⟨-, hone⟩ := hclean.1 slot hsecond hinvoked hatKey
        cases hfound : r.kbd.invokedOf key with
        | none =>
          have hnot := invokedOf_eq_none hfound hsecond
          rw [show (r.kbd.keyComboStates slot).invoked = true from hinvoked] at hnot
          cases hnot
        | some first =>
          obtain ⟨hfirstKey, hfirstInvoked⟩ := invokedOf_eq_some hfound
          obtain rfl := hone first hfirstKey hfirstInvoked
          have hnot := hslot first hfound
          rw [show (r.kbd.keyComboStates first).function.atKeyRelease = true from hatKey] at hnot
          cases hnot
    have hpassed : emulatorHolds key (r.calls ++ (quiet ++ (r.kbd.passOn key false mod ++ []))) = false :=
      holds_passed hclean hquiet rfl
    rw [append_nil] at hpassed
    refine release_kept hcounted htold hunawaited hslots ?_ ?_ hpassed hact
    · rw [filterMap_append, hquiet.invokes, invokes_passOn]
      rfl
    · intro other hne
      have htells : emulatorTells other (quiet ++ (r.kbd.passOn key false mod ++ [])) = [] :=
        tells_other hne hquiet rfl r.kbd
      rwa [append_nil] at htells

end Release

/-! ### Every run -/

theorem step_clean {action : KbdAction} (hcounted : Counted c r) (htold : Told c r)
    (halternates : action.Alternates r.held) (hclean : Clean c action r) :
    Counted c (r.step c action) ∧ Told c (r.step c action) := by
  have hsame : ∀ slot, r.invoked slot = true → r.held (modifierOf c slot) = true ∧
      ((r.function slot).atKeyRelease = true → r.held (r.secondKey slot) = true) :=
    fun slot hinvoked => ⟨hcounted.modifier slot hinvoked, hcounted.secondKey slot hinvoked⟩
  cases action with
  | press key mod ticks => exact ⟨hcounted.press hclean, htold.press hcounted halternates⟩
  | release key mod ticks => exact release_clean hcounted htold hclean
  | setUiEnabled enabled =>
    constructor
    · refine hcounted.kept rfl ?_ (fun _ => rfl) (fun slot h => (hsame slot h).1) fun slot h => (hsame slot h).2
      intro slot function
      rw [show (r.step c (.setUiEnabled enabled)).calls = r.calls from append_nil r.calls]
    · refine htold.kept ?_ (Kbd.SameSlots.refl r.kbd) fun slot h => h
      intro key hholds
      rw [show (r.step c (.setUiEnabled enabled)).calls = r.calls from append_nil r.calls] at hholds
      exact ⟨hholds, htold.held key hholds⟩
  | setRawKeycodeFunc =>
    constructor
    · refine hcounted.kept rfl ?_ (fun _ => rfl) (fun slot h => (hsame slot h).1) fun slot h => (hsame slot h).2
      intro slot function
      rw [show (r.step c .setRawKeycodeFunc).calls = r.calls from append_nil r.calls]
    · refine htold.kept ?_ (Kbd.SameSlots.refl r.kbd) fun slot h => h
      intro key hholds
      rw [show (r.step c .setRawKeycodeFunc).calls = r.calls from append_nil r.calls] at hholds
      exact ⟨hholds, htold.held key hholds⟩

theorem run_clean {actions : List KbdAction} (hcounted : Counted c r) (htold : Told c r)
    (halternates : AlternatingRun r.held actions) (hclean : CleanRun c r actions) :
    Counted c (r.run c actions) ∧ Told c (r.run c actions) := by
  induction actions generalizing r with
  | nil => exact ⟨hcounted, htold⟩
  | cons action rest ih =>
    obtain ⟨hnext, hnextTold⟩ := step_clean hcounted htold halternates.1 hclean.1
    exact ih hnext hnextTold halternates.2 hclean.2

theorem start_invoked (slots : Fin 8 → Int64 × BtnAssign) (slot : Fin 8) : (start slots).invoked slot = false := by
  have hset : ∀ (s : Kbd) (other : Fin 8), (s.keyComboStates slot).invoked = false →
      ((s.kbdSetHotkeyFunction other (slots other).1 (slots other).2).keyComboStates slot).invoked = false := by
    intro s other hs
    unfold kbdSetHotkeyFunction
    by_cases hother : slot = other
    · simp [hother]
    · simpa [hother] using hs
  have hall : ∀ (list : List (Fin 8)) (s : Kbd), (s.keyComboStates slot).invoked = false →
      ((list.foldl (fun s (slot : Fin 8) => s.kbdSetHotkeyFunction slot (slots slot).1 (slots slot).2) s).keyComboStates
        slot).invoked = false := by
    intro list
    induction list with
    | nil => exact fun s hs => hs
    | cons other rest ih => exact fun s hs => ih _ (hset s other hs)
  exact hall comboSlots {} rfl

theorem start_clean (slots : Fin 8 → Int64 × BtnAssign) : Counted c (start slots) ∧ Told c (start slots) := by
  have hnone := start_invoked slots
  constructor
  · constructor
    · intro slot hinvoked
      rw [hnone] at hinvoked
      cases hinvoked
    · intro slot hinvoked
      rw [hnone] at hinvoked
      cases hinvoked
    · intro slot hinvoked
      rw [hnone] at hinvoked
      cases hinvoked
    · intro slot
      rw [hnone]
      rfl
  · constructor <;> intro key hholds <;> cases hholds

theorem everyPressReleased_of_holds {key : Int64} {calls : List KbdCall} (h : emulatorHolds key calls = false) :
    EveryPressReleased key calls := by
  rintro before mod later rfl
  have htells : emulatorTells key (before ++ .emuxKeyInterruptMod key true mod :: later) =
      emulatorTells key before ++ true :: emulatorTells key later := by
    simp [emulatorTells, KbdCall.emulatorKey]
  have hreleased : false ∈ emulatorTells key later := by
    by_contra hnone
    have hlast : (emulatorTells key before ++ true :: emulatorTells key later).getLast? = some true := by
      rw [getLast?_append, getLast?_cons]
      cases hend : (emulatorTells key later).getLast? with
      | none => rfl
      | some pressed =>
        cases pressed with
        | true => rfl
        | false => exact absurd (mem_of_getLast? hend) hnone
    unfold emulatorHolds at h
    rw [htells, hlast] at h
    cases h
  obtain ⟨call, hmem, hcall⟩ := mem_filterMap.1 hreleased
  cases call with
  | emuxKeyInterruptMod other pressed mod =>
    by_cases hother : other = key
    · obtain rfl : pressed = false := by simpa [KbdCall.emulatorKey, hother] using hcall
      subst hother
      exact ⟨mod, hmem⟩
    · simp [KbdCall.emulatorKey, hother] at hcall
  | _ => simp [KbdCall.emulatorKey] at hcall

theorem Counted.exact (hcounted : Counted c r) (htold : Told c r) : HotkeysExact c r := by
  constructor
  · intro slot
    have hcount := hcounted.counted slot
    omega
  · intro slot _ hmodifier
    have hcount := hcounted.counted slot
    have hnot : r.invoked slot = false := by
      by_contra hinvoked
      have hheld := hcounted.modifier slot (Bool.eq_true_of_not_eq_false hinvoked)
      rw [hmodifier] at hheld
      cases hheld
    rw [hnot] at hcount
    simpa using hcount
  · intro key hup
    apply everyPressReleased_of_holds
    by_contra hholds
    have hheld := htold.held key (Bool.eq_true_of_not_eq_false hholds)
    rw [hup] at hheld
    cases hheld

/-- In every run of clean steps the hotkeys are invoked exactly once. -/
theorem run_hotkeys (c : KbdConfig) (slots : Fin 8 → Int64 × BtnAssign) (actions : List KbdAction)
    (halternates : AlternatingRun (fun _ => false) actions) (hclean : CleanRun c (start slots) actions) :
    HotkeysExact c ((start slots).run c actions) := by
  obtain ⟨hcounted, htold⟩ := start_clean (c := c) slots
  obtain ⟨hlast, hlastTold⟩ := run_clean hcounted htold halternates hclean
  exact hlast.exact hlastTold

section Example

/-- `F1` warps with the Commodore key, and `F3` opens the menu with the Control key. -/
def exampleConfig : KbdConfig where
  joy :=
    { joydevs := fun _ => ⟨0, .other 0⟩, keysetCodes := fun _ _ => 0, potXHighValue := 0, potXLowValue := 0,
      potYHighValue := 0, potYLowValue := 0 }
  commodoreKeySym := keycodeLeftControl
  ctrlKeySym := 0x2B

def exampleSlots : Fin 8 → Int64 × BtnAssign := ![(0x3A, .warp), (0, .other 0), (0, .other 0), (0, .other 0),
  (0x3C, .menu), (0, .other 0), (0, .other 0), (0, .other 0)]

/-- Each second key is released before its modifier, or after it where a function waits for the modifier. -/
def exampleClean : List KbdAction := [.press keycodeLeftControl 0 0, .press 0x3A 0 0, .release 0x3A 0 0,
  .release keycodeLeftControl 0 0, .press 0x2B 0 0, .press 0x3C 0 0, .release 0x2B 0 0, .release 0x3C 0 0]

/-- The modifier is released first. -/
def exampleEarly : List KbdAction := [.press keycodeLeftControl 0 0, .press 0x3A 0 0,
  .release keycodeLeftControl 0 0, .release 0x3A 0 0]

theorem run_hotkeys_example : HotkeysExact exampleConfig ((start exampleSlots).run exampleConfig exampleClean) :=
  run_hotkeys exampleConfig exampleSlots exampleClean (by decide) (by decide)

/-- The press of `F1` with its modifier held is followed by no invocation. -/
theorem early_modifier_lost : AlternatingRun (fun _ => false) exampleEarly ∧
    ((start exampleSlots).run exampleConfig exampleEarly).comboPresses 0 = 1 ∧
      ¬ HotkeysExact exampleConfig ((start exampleSlots).run exampleConfig exampleEarly) := by
  have hpresses : ((start exampleSlots).run exampleConfig exampleEarly).comboPresses 0 = 1 := by decide
  refine ⟨by decide, hpresses, fun hexact => ?_⟩
  have hcount := hexact.settled 0 (by decide) (by decide)
  have hnone : invocations 0 (((start exampleSlots).run exampleConfig exampleEarly).function 0)
      ((start exampleSlots).run exampleConfig exampleEarly).calls = 0 := by decide
  rw [hnone, hpresses] at hcount
  cases hcount

end Example

end KbdRun

end Bmx.Input
