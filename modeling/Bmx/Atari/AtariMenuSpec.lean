import Bmx.Atari.AtariMenu
import Mathlib.Data.List.Induction

/-!
# When the Atari rows agree with the core

A row agrees where the choice it selects stands for the core's setting. The settings file and each
change refresh some of the rows, so agreement is kept exactly where the settings behind the other rows
stay as they were.
-/

namespace Bmx.Atari

open ChoiceRow Emulator Submodel List

/-! ### Agreement -/

/-- The machine row selects a model of the core's type and game flag, and of its memory where a model
has it. -/
def MachineRowAgrees (row : ChoiceRow) (core : Core) : Prop :=
  ∃ model, row.choice.bind submodelAt = some model ∧ model.family core = true ∧
    ((∃ other ∈ kSubmodels, other.exact core = true) → model.ram = core.ramSize)

/-- The memory fits the machine, and every row selects a choice that stands for the core's setting. -/
structure Agrees (s : Session) : Prop where
  ramValid : ramValidForMachine s.core.machineType s.core.ramSize = true
  machine : MachineRowAgrees s.menu.machineItem s.core
  ram : s.menu.ramItem.choice = some s.core.ramSize
  osChoices : s.menu.osItem.choiceInts
    = sysromAuto :: (osChoicesForMachineType s.core.machineType).map RomChoice.id
  os : s.menu.osItem.choice = some (s.core.osVersions s.core.machineType)
  basic : s.menu.basicItem.choice = some s.core.basicVersion
  artifact : s.menu.artifactItem.choice = some s.core.artifMode
  monitor : s.menu.monitorItem.choice = some s.core.monitor
  flags : s.menu.flagItem = s.core.flag
  latency : s.menu.latencyItem = s.core.latency
  fkeys : s.menu.fkeyItems = s.core.fkeyAction
  driveStatus : s.menu.driveStatus = fun d => driveText (s.core.drives d)
  driveRo : s.menu.driveRo = fun d => (s.core.drives d).status == .readOnly

/-- The settings the rows stand for. -/
structure Shown where
  machineType : Machine
  ramSize : Int
  builtinGame : Bool
  os : Int
  basicVersion : Int
  artifMode : Int
  monitor : Int
  latency : Int
  flag : Flag → Bool
  fkeyAction : Fin 6 → Int
  driveText : Fin 8 → String
  driveRo : Fin 8 → Bool

def Core.shown (core : Core) : Shown where
  machineType := core.machineType
  ramSize := core.ramSize
  builtinGame := core.builtinGame
  os := core.osVersions core.machineType
  basicVersion := core.basicVersion
  artifMode := core.artifMode
  monitor := core.monitor
  latency := core.latency
  flag := core.flag
  fkeyAction := core.fkeyAction
  driveText := fun d => Atari.driveText (core.drives d)
  driveRo := fun d => (core.drives d).status == .readOnly

/-- The last line of the file with this name and a number that is taken. -/
def lastAccepted (file : SettingsFile) (name : String) (accepted : Int → Bool) : Option Int :=
  (file.filter fun line => line.1 == name && accepted line.2).getLast?.map Prod.snd

/-- The file leaves the machine the rows were built for, with revisions its rows have. -/
structure FileFits (file : SettingsFile) : Prop where
  machine : (lastAccepted file "atari_machine" fun value => 0 ≤ value && value ≤ 2).getD 1 = 1
  os : (lastAccepted file "atari_osxlxe" fun value => 0 ≤ value && value ≤ sysromSize).getD sysromAuto
    ∈ sysromAuto :: kOsXl.map RomChoice.id
  basic : (lastAccepted file "atari_basicver" fun value => 0 ≤ value && value ≤ sysromSize).getD sysromAuto
    ∈ sysromAuto :: kBasic.map RomChoice.id

section Conditions

variable (emulator : Emulator)

/-- The event leaves the settings as they are behind the rows it does not refresh. -/
def KeepsAgreement (s : Session) : Event → Prop
  -- no row is refreshed when the emulator starts
  | .start => (emulator.start s.core).shown = s.core.shown
  -- the OS row is not rebuilt
  | .change (.machine value) => ∀ model, kSubmodels[value]? = some model → model.type = s.core.machineType
  -- the machine row is not refreshed
  | .change (.ram value) =>
    let core := { s.core with ramSize := ramFor s.core.machineType (ramOptions[value]?.getD 0) }
    emulator.losesGame core = false ∧
      ((∃ other ∈ kSubmodels, other.exact core = true) →
        ∀ model, s.menu.machineItem.choice.bind submodelAt = some model → model.ram = core.ramSize)
  | .change (.flag .basic value) => emulator.losesGame (s.core.setFlag .basic value) = false
  | .change (.flag .hifi value) => emulator.losesGame (s.core.setFlag .hifi value) = false
  -- setting up the mixer switches the sound on or off
  | .change (.flag .stereo value) =>
    let core := s.core.setFlag .stereo value
    emulator.soundSetup core = core.flag .sound ∧ emulator.losesGame core = false
  | .change (.osVersion value) =>
    let pref := s.core.clampOsPref (s.menu.osItem.choiceInts[value]?.getD 0)
    emulator.losesGame (s.core.setOsVersion s.core.machineType pref) = false
  | .change (.basicVersion value) =>
    let pref := s.core.clampBasicPref (s.menu.basicItem.choiceInts[value]?.getD 0)
    emulator.losesGame { s.core with basicVersion := pref } = false
  | .change .romRescan =>
    ∀ find, emulator.findInDir = some find →
      emulator.choiceChanged s.core { s.core with roms := find s.core.roms } = true →
        s.core.builtinGame = true → emulator.keepsGame { s.core with roms := find s.core.roms } = true
  | _ => True

def RunKeepsAgreement (s : Session) : List Event → Prop
  | [] => True
  | event :: events =>
    KeepsAgreement emulator s event ∧ RunKeepsAgreement (step emulator s event) events

end Conditions

/-! ### Selecting a choice -/

namespace ChoiceRow

variable {row : ChoiceRow} {id : Int}

@[simp] theorem syncTo_choiceInts (row : ChoiceRow) (id : Int) : (row.syncTo id).choiceInts = row.choiceInts := by
  unfold syncTo
  split <;> rfl

/-- The first choice that passes a test is one of the row, and it passes. -/
theorem choice_of_findIdx? {test : Int → Bool} {i : Nat} (h : row.choiceInts.findIdx? test = some i) :
    ∃ id, row.choiceInts[i]? = some id ∧ test id = true := by
  obtain ⟨hi, htest, _⟩ := findIdx?_eq_some_iff_getElem.1 h
  exact ⟨row.choiceInts[i], getElem?_eq_getElem hi, htest⟩

theorem choice_mem (h : row.choice = some id) : id ∈ row.choiceInts :=
  mem_of_getElem? h

/-- After a refresh the row stands for the setting exactly where it has a choice for it. -/
theorem syncTo_choice (row : ChoiceRow) (id : Int) : (row.syncTo id).choice = some id ↔ id ∈ row.choiceInts := by
  constructor
  · intro h
    simpa using choice_mem h
  · intro h
    unfold syncTo choice
    split
    next i hi =>
      obtain ⟨found, hfound, htest⟩ := choice_of_findIdx? hi
      have heq : found = id := by simpa using htest
      rw [← heq]
      exact hfound
    next hnone =>
      have habsent := findIdx?_eq_none_iff.1 hnone id h
      simp at habsent

theorem findIdx_getD_choice (row : ChoiceRow) (h : id ∈ row.choiceInts) :
    ({ row with value := (row.choiceInts.findIdx? (· == id)).getD 0 } : ChoiceRow).choice = some id := by
  cases hfind : row.choiceInts.findIdx? (· == id) with
  | none =>
    have habsent := findIdx?_eq_none_iff.1 hfind id h
    simp at habsent
  | some i =>
    obtain ⟨found, hfound, htest⟩ := choice_of_findIdx? hfind
    have heq : found = id := by simpa using htest
    rw [← heq]
    exact hfound

end ChoiceRow

/-! ### The rows as they are built -/

/-- The choices of the rows, which nothing changes after they are built on the machine of the start. -/
structure Built (menu : Menu) : Prop where
  machine : menu.machineItem.choiceInts = (List.range kSubmodels.length).map Int.ofNat
  ram : menu.ramItem.choiceInts = ramOptions
  os : menu.osItem.choiceInts = sysromAuto :: kOsXl.map RomChoice.id
  basic : menu.basicItem.choiceInts = sysromAuto :: kBasic.map RomChoice.id
  artifact : menu.artifactItem.choiceInts = [0, 1, 2, 3, 4]
  monitor : menu.monitorItem.choiceInts = [0, 1, 2, 3]

def Menu.SameChoices (menu menu' : Menu) : Prop :=
  menu'.machineItem.choiceInts = menu.machineItem.choiceInts ∧
    menu'.ramItem.choiceInts = menu.ramItem.choiceInts ∧
    menu'.osItem.choiceInts = menu.osItem.choiceInts ∧
    menu'.basicItem.choiceInts = menu.basicItem.choiceInts ∧
    menu'.artifactItem.choiceInts = menu.artifactItem.choiceInts ∧
    menu'.monitorItem.choiceInts = menu.monitorItem.choiceInts

variable {menu : Menu} {s : Session} {row : ChoiceRow} {test : Submodel → Bool} {core core' : Core}

theorem Built.of_sameChoices {menu' : Menu} (h : Built menu) (hsame : menu.SameChoices menu') : Built menu' := by
  obtain ⟨hmachine, hram, hos, hbasic, hartifact, hmonitor⟩ := hsame
  exact ⟨hmachine.trans h.machine, hram.trans h.ram, hos.trans h.os, hbasic.trans h.basic,
    hartifact.trans h.artifact, hmonitor.trans h.monitor⟩

theorem choose_sameChoices (menu : Menu) (change : Change) : menu.SameChoices (menu.choose change) := by
  cases change <;> exact ⟨rfl, rfl, rfl, rfl, rfl, rfl⟩

theorem syncRomItems_sameChoices (s : Session) : s.menu.SameChoices (syncRomItems s).menu := by
  simp [Menu.SameChoices, syncRomItems]

theorem handleMenuChange_sameChoices (emulator : Emulator) (s : Session) (change : Change) :
    s.menu.SameChoices (handleMenuChange emulator s change).menu := by
  cases change with
  | osVersion value | basicVersion value | romRescan => exact syncRomItems_sameChoices _
  | _ => exact ⟨rfl, rfl, rfl, rfl, rfl, rfl⟩

theorem Built.step {emulator : Emulator} (h : Built s.menu) (event : Event) :
    Built (step emulator s event).menu := by
  cases event with
  | start => exact h
  | change chosen =>
    exact (h.of_sameChoices (choose_sameChoices _ chosen)).of_sameChoices
      (handleMenuChange_sameChoices emulator _ chosen)

/-! ### The machine row -/

theorem submodelAt_built :
    ∀ model ∈ kSubmodels, ∃ sub ∈ (List.range kSubmodels.length).map Int.ofNat, submodelAt sub = some model := by
  decide

theorem findSubmodel_some {i : Nat} (h : findSubmodel row test = some i) :
    ∃ model, row.choiceInts[i]?.bind submodelAt = some model ∧ test model = true := by
  obtain ⟨sub, hsub, htest⟩ := choice_of_findIdx? h
  cases hmodel : submodelAt sub with
  | none => simp [hmodel] at htest
  | some model =>
    have hpass : test model = true := by simpa [hmodel] using htest
    exact ⟨model, by simp [hsub, hmodel], hpass⟩

theorem findSubmodel_none (hrow : row.choiceInts = (List.range kSubmodels.length).map Int.ofNat)
    (h : findSubmodel row test = none) {model : Submodel} (hmem : model ∈ kSubmodels) : test model = false := by
  obtain ⟨sub, hsub, hmodel⟩ := submodelAt_built model hmem
  rw [← hrow] at hsub
  have habsent := findIdx?_eq_none_iff.1 h sub hsub
  simpa [hmodel] using habsent

/-- A refreshed machine row agrees wherever some model has the core's type and game flag. -/
theorem syncMachineItem_agrees
    (hrow : s.menu.machineItem.choiceInts = (List.range kSubmodels.length).map Int.ofNat)
    (hfamily : ∃ model ∈ kSubmodels, model.family s.core = true) :
    MachineRowAgrees (syncMachineItem s).menu.machineItem s.core := by
  cases hexact : findSubmodel s.menu.machineItem (·.exact s.core) with
  | some i =>
    obtain ⟨model, hmodel, hpass⟩ := findSubmodel_some hexact
    have hboth : model.family s.core = true ∧ model.ram = s.core.ramSize := by
      simpa [exact] using hpass
    refine ⟨model, ?_, hboth.1, fun _ => hboth.2⟩
    simpa only [syncMachineItem, choice, hexact] using hmodel
  | none =>
    have hno : ¬ ∃ other ∈ kSubmodels, other.exact s.core = true := by
      rintro ⟨other, hother, hpass⟩
      rw [findSubmodel_none hrow hexact hother] at hpass
      exact absurd hpass (by simp)
    cases hfind : findSubmodel s.menu.machineItem (·.family s.core) with
    | some i =>
      obtain ⟨model, hmodel, hpass⟩ := findSubmodel_some hfind
      refine ⟨model, ?_, hpass, fun hsome => absurd hsome hno⟩
      simpa only [syncMachineItem, choice, hexact, hfind, Option.getD_some] using hmodel
    | none =>
      obtain ⟨model, hmem, hpass⟩ := hfamily
      rw [findSubmodel_none hrow hfind hmem] at hpass
      exact absurd hpass (by simp)

theorem family_of_xlxe (h : core.machineType = .xlxe) : ∃ model ∈ kSubmodels, model.family core = true := by
  have hmodels : ∀ game : Bool, ∃ model ∈ kSubmodels, model.type = .xlxe ∧ model.game = game := by
    decide
  obtain ⟨model, hmem, htype, hgame⟩ := hmodels core.builtinGame
  exact ⟨model, hmem, by simp [family, htype, hgame, h]⟩

/-! ### What agreement depends on -/

theorem family_congr (htype : core'.machineType = core.machineType)
    (hgame : core'.builtinGame = core.builtinGame) (model : Submodel) : model.family core' = model.family core := by
  simp [family, htype, hgame]

theorem MachineRowAgrees.congr (h : MachineRowAgrees row core)
    (htype : core'.machineType = core.machineType) (hgame : core'.builtinGame = core.builtinGame)
    (hram : core'.ramSize = core.ramSize) : MachineRowAgrees row core' := by
  obtain ⟨model, hmodel, hfamily, hexact⟩ := h
  have hfamilies := family_congr htype hgame
  refine ⟨model, hmodel, by rw [hfamilies]; exact hfamily, ?_⟩
  rintro ⟨other, hother, hpass⟩
  rw [hram]
  apply hexact
  exact ⟨other, hother, by simpa [exact, hfamilies, hram] using hpass⟩

/-- The rows that agree with one core agree with every core that has the same settings behind them. -/
theorem Agrees.of_shown (h : Agrees ⟨core, menu⟩) (hshown : core'.shown = core.shown) : Agrees ⟨core', menu⟩ := by
  simp only [Core.shown, Shown.mk.injEq] at hshown
  obtain ⟨htype, hram, hgame, hos, hbasic, hartif, hmonitor, hlatency, hflag, hfkey, htext, hro⟩ := hshown
  exact {
    ramValid := by simpa only [htype, hram] using h.ramValid
    machine := h.machine.congr htype hgame hram
    ram := by simpa only [hram] using h.ram
    osChoices := by simpa only [htype] using h.osChoices
    os := by simpa only [hos] using h.os
    basic := by simpa only [hbasic] using h.basic
    artifact := by simpa only [hartif] using h.artifact
    monitor := by simpa only [hmonitor] using h.monitor
    flags := by simpa only [hflag] using h.flags
    latency := by simpa only [hlatency] using h.latency
    fkeys := by simpa only [hfkey] using h.fkeys
    driveStatus := by simpa only [htext] using h.driveStatus
    driveRo := by simpa only [hro] using h.driveRo }

theorem MachineRowAgrees.family_eq (h : MachineRowAgrees row core) (h' : MachineRowAgrees row core') :
    core'.machineType = core.machineType ∧ core'.builtinGame = core.builtinGame := by
  obtain ⟨model, hmodel, hfamily, _⟩ := h
  obtain ⟨model', hmodel', hfamily', _⟩ := h'
  obtain rfl : model = model' := by simpa [hmodel] using hmodel'
  simp only [family, Bool.and_eq_true, beq_iff_eq] at hfamily hfamily'
  exact ⟨hfamily'.1.symm.trans hfamily.1, hfamily'.2.symm.trans hfamily.2⟩

/-- Two cores that the same rows agree with have the same settings behind the rows. -/
theorem Agrees.shown_eq (h : Agrees ⟨core, menu⟩) (h' : Agrees ⟨core', menu⟩) : core'.shown = core.shown := by
  obtain ⟨htype, hgame⟩ := h.machine.family_eq h'.machine
  simp only [Core.shown, Shown.mk.injEq]
  exact ⟨htype, Option.some.inj (h'.ram.symm.trans h.ram), hgame,
    Option.some.inj (h'.os.symm.trans h.os), Option.some.inj (h'.basic.symm.trans h.basic),
    Option.some.inj (h'.artifact.symm.trans h.artifact),
    Option.some.inj (h'.monitor.symm.trans h.monitor), h'.latency.symm.trans h.latency,
    h'.flags.symm.trans h.flags, h'.fkeys.symm.trans h.fkeys,
    h'.driveStatus.symm.trans h.driveStatus, h'.driveRo.symm.trans h.driveRo⟩

theorem Agrees.iff_shown (h : Agrees ⟨core, menu⟩) (core' : Core) :
    Agrees ⟨core', menu⟩ ↔ core'.shown = core.shown :=
  ⟨h.shown_eq, h.of_shown⟩

/-! ### Setting the machine up again -/

section Events

variable {emulator : Emulator}

/-- Setting the machine up again changes the game flag, and that where the game is lost. -/
theorem reinitialiseMachine_eq (core : Core) :
    emulator.reinitialiseMachine core
      = { core with builtinGame := core.builtinGame && !emulator.losesGame core } := by
  unfold reinitialiseMachine initialiseMachine losesGame
  by_cases hready : core.ready = true
  · have hflag : (core.builtinGame && !(core.ready && core.builtinGame && !emulator.keepsGame core))
        = (core.builtinGame && emulator.keepsGame core) := by
      cases core.builtinGame <;> simp [hready]
    rw [if_pos hready, hflag]
  · have hflag : (core.ready && core.builtinGame && !emulator.keepsGame core) = false := by
      simp [hready]
    rw [if_neg hready, hflag, Bool.not_false, Bool.and_true]

theorem keptGame_iff (emulator : Emulator) (core : Core) :
    (core.builtinGame && !emulator.losesGame core) = core.builtinGame ↔ emulator.losesGame core = false := by
  unfold losesGame
  cases core.builtinGame <;> cases core.ready <;> simp

variable {core : Core} {s : Session} {value : Nat}

/-- Rows that agree still do after the machine is set up again, exactly where the game is not lost. -/
theorem Agrees.reinitialise_iff {menu : Menu} (h : Agrees ⟨core, menu⟩) :
    Agrees ⟨emulator.reinitialiseMachine core, menu⟩ ↔ emulator.losesGame core = false := by
  rw [h.iff_shown, reinitialiseMachine_eq, ← keptGame_iff emulator core]
  simp [Core.shown]

theorem applySoundSetup_eq (h : emulator.soundSetup core = core.flag .sound) :
    emulator.applySoundSetup core = core := by
  simp [applySoundSetup, Core.setFlag, h]

/-- An event that leaves the machine row alone and keeps agreement keeps the game flag. -/
theorem Agrees.game_eq {s' : Session} (h : Agrees s) (h' : Agrees s')
    (hrow : s'.menu.machineItem = s.menu.machineItem) : s'.core.builtinGame = s.core.builtinGame := by
  have hmachine := h'.machine
  rw [hrow] at hmachine
  exact (h.machine.family_eq hmachine).2

/-! ### Toggles -/

theorem Agrees.setFlag (h : Agrees s) (flag : Flag) (value : Bool) :
    Agrees ⟨s.core.setFlag flag value,
      { s.menu with flagItem := Function.update s.menu.flagItem flag value }⟩ := { h with
  machine := h.machine.congr rfl rfl rfl
  flags := by
    change Function.update s.menu.flagItem flag value = Function.update s.core.flag flag value
    rw [h.flags] }

theorem flag_agrees_iff (h : Agrees s) (flag : Flag) (value : Bool) :
    Agrees (step emulator s (.change (.flag flag value)))
      ↔ KeepsAgreement emulator s (.change (.flag flag value)) := by
  have hset := h.setFlag flag value
  have hstep : step emulator s (.change (.flag flag value))
      = ⟨handleFlag emulator s.core flag value,
          { s.menu with flagItem := Function.update s.menu.flagItem flag value }⟩ := by
    simp [Menu.choose]
  rw [hstep]
  cases flag with
  | basic | hifi => exact hset.reinitialise_iff
  | stereo =>
    change Agrees ⟨emulator.reinitialiseMachine (emulator.applySoundSetup _), _⟩ ↔ _
    constructor
    · intro hafter
      -- the sound row was not refreshed, so the mixer has left the sound as it was
      have hsound : emulator.soundSetup (s.core.setFlag .stereo value)
          = (s.core.setFlag .stereo value).flag .sound := by
        have hflags := hafter.flags.symm.trans hset.flags
        rw [reinitialiseMachine_eq] at hflags
        simpa [applySoundSetup, Core.setFlag] using congrFun hflags .sound
      rw [applySoundSetup_eq hsound] at hafter
      exact ⟨hsound, hset.reinitialise_iff.1 hafter⟩
    · rintro ⟨hsound, hkept⟩
      rw [applySoundSetup_eq hsound]
      exact hset.reinitialise_iff.2 hkept
  | _ => exact ⟨fun _ => trivial, fun _ => hset⟩

/-! ### Machine and memory -/

theorem ramFor_valid (machine : Machine) (ram : Int) : ramValidForMachine machine (ramFor machine ram) = true := by
  unfold ramFor
  split
  next h => exact h
  next => cases machine <;> rfl

theorem ramFor_mem (machine : Machine) (ram : Int) : ramFor machine ram ∈ ramOptions := by
  have hvalid := ramFor_valid machine ram
  cases machine <;> simp only [ramValidForMachine, Bool.or_eq_true, beq_iff_eq] at hvalid
  all_goals simp only [ramOptions, mem_cons, not_mem_nil]; omega

theorem submodel_ram {model : Submodel} (h : model ∈ kSubmodels) :
    ramValidForMachine model.type model.ram = true ∧ model.ram ∈ ramOptions := by
  have hall : ∀ model ∈ kSubmodels,
      ramValidForMachine model.type model.ram = true ∧ model.ram ∈ ramOptions := by
    decide
  exact hall model h

theorem osChoices_injective {machine machine' : Machine}
    (h : (osChoicesForMachineType machine).map RomChoice.id
      = (osChoicesForMachineType machine').map RomChoice.id) : machine = machine' := by
  cases machine <;> cases machine' <;> first | rfl | exact absurd h (by decide)

theorem Agrees.xlxe (h : Agrees s) (hbuilt : Built s.menu) : s.core.machineType = .xlxe := by
  have hlists := h.osChoices.symm.trans hbuilt.os
  exact @osChoices_injective _ .xlxe (cons.inj hlists).2

theorem machine_agrees_iff (h : Agrees s) (hbuilt : Built s.menu)
    (hvalue : value < s.menu.machineItem.choiceInts.length) :
    Agrees (step emulator s (.change (.machine value)))
      ↔ KeepsAgreement emulator s (.change (.machine value)) := by
  have hlength : value < kSubmodels.length := by simpa [hbuilt.machine] using hvalue
  obtain ⟨model, hmodel⟩ : ∃ model, kSubmodels[value]? = some model :=
    ⟨_, getElem?_eq_getElem hlength⟩
  have hchoice : s.menu.machineItem.choiceInts[value]?.getD 0 = (value : Int) := by
    simp [hbuilt.machine, getElem?_range hlength]
  have hstep : step emulator s (.change (.machine value))
      = syncMachineItem (syncRamItem ⟨emulator.reinitialiseMachine
          { s.core with machineType := model.type, ramSize := model.ram, builtinGame := model.game },
          s.menu.choose (.machine value)⟩) := by
    simp [Menu.choose, choice, hchoice, applySubmodel, submodelAt, hmodel]
  rw [hstep, reinitialiseMachine_eq]
  constructor
  · intro hafter other hother
    obtain rfl : model = other := Option.some.inj (hmodel.symm.trans hother)
    have hlists := hafter.osChoices.symm.trans h.osChoices
    exact osChoices_injective (cons.inj hlists).2
  · intro hkeeps
    have htype : model.type = s.core.machineType := hkeeps model hmodel
    have hxlxe : model.type = .xlxe := htype.trans (h.xlxe hbuilt)
    obtain ⟨hvalid, hoption⟩ := submodel_ram (mem_of_getElem? hmodel)
    refine { h with
      ramValid := hvalid
      machine := syncMachineItem_agrees hbuilt.machine (family_of_xlxe hxlxe)
      ram := findIdx_getD_choice s.menu.ramItem ?_
      osChoices := ?_
      os := ?_ }
    · rw [hbuilt.ram]
      exact hoption
    · change s.menu.osItem.choiceInts = sysromAuto :: (osChoicesForMachineType model.type).map RomChoice.id
      rw [htype]
      exact h.osChoices
    · change s.menu.osItem.choice = some (s.core.osVersions model.type)
      rw [htype]
      exact h.os

theorem ram_agrees_iff (h : Agrees s) (hbuilt : Built s.menu) (value : Nat) :
    Agrees (step emulator s (.change (.ram value)))
      ↔ KeepsAgreement emulator s (.change (.ram value)) := by
  have hstep : step emulator s (.change (.ram value))
      = syncRamItem ⟨emulator.reinitialiseMachine
          { s.core with ramSize := ramFor s.core.machineType (ramOptions[value]?.getD 0) },
          s.menu.choose (.ram value)⟩ := by
    simp [Menu.choose, choice, hbuilt.ram]
  rw [hstep]
  constructor
  · intro hafter
    have hgame := h.game_eq hafter rfl
    obtain ⟨model, hmodel, _, hexact⟩ := hafter.machine
    have hlost : emulator.losesGame
        { s.core with ramSize := ramFor s.core.machineType (ramOptions[value]?.getD 0) } = false := by
      rw [reinitialiseMachine_eq] at hgame
      exact (keptGame_iff emulator _).1 hgame
    refine ⟨hlost, ?_⟩
    intro hother other hrow
    obtain rfl : model = other := Option.some.inj (hmodel.symm.trans hrow)
    rw [reinitialiseMachine_eq] at hexact
    apply hexact
    simpa [syncRamItem, hlost] using hother
  · rintro ⟨hlost, hrow⟩
    rw [reinitialiseMachine_eq, hlost]
    obtain ⟨model, hmodel, hfamily, _⟩ := h.machine
    exact { h with
      ramValid := ramFor_valid _ _
      machine := ⟨model, hmodel, by simpa [family, syncRamItem] using hfamily,
        fun hother => hrow (by simpa [syncRamItem] using hother) model hmodel⟩
      ram := findIdx_getD_choice s.menu.ramItem (by
        rw [hbuilt.ram]
        exact ramFor_mem _ _) }

/-! ### Revisions -/

theorem choice_of_any {choices : List RomChoice} {pref : Int} {extra : RomChoice → Bool}
    (h : (choices.any fun choice => choice.id == pref && extra choice) = true) :
    pref ∈ sysromAuto :: choices.map RomChoice.id := by
  obtain ⟨choice, hmem, htest⟩ := any_eq_true.1 h
  simp only [Bool.and_eq_true, beq_iff_eq] at htest
  exact mem_cons_of_mem _ (mem_map.2 ⟨choice, hmem, htest.1⟩)

theorem clampOsPref_mem (core : Core) (pref : Int) :
    core.clampOsPref pref
      ∈ sysromAuto :: (osChoicesForMachineType core.machineType).map RomChoice.id := by
  unfold Core.clampOsPref Core.clampOsPrefFor
  split
  next hauto => simp [hauto]
  next =>
    split
    next hany => exact choice_of_any hany
    next => simp

theorem clampBasicPref_mem (core : Core) (pref : Int) :
    core.clampBasicPref pref ∈ sysromAuto :: kBasic.map RomChoice.id := by
  unfold Core.clampBasicPref
  split
  next hauto => simp [hauto]
  next =>
    split
    next hany => exact choice_of_any hany
    next =>
      split
      next haltirra => simp [haltirra, kBasic]
      next => simp

/-- With new revisions the rows have, and all other settings as they were, refreshing the two rows is
all it takes. -/
theorem Agrees.syncRomItems (h : Agrees s) {osRow basicRow : ChoiceRow}
    (hshown : core.shown = { s.core.shown with
      os := core.osVersions core.machineType, basicVersion := core.basicVersion })
    (hosRow : osRow.choiceInts = s.menu.osItem.choiceInts)
    (hos : core.osVersions core.machineType ∈ osRow.choiceInts)
    (hbasic : core.basicVersion ∈ basicRow.choiceInts) :
    Agrees (syncRomItems ⟨core, { s.menu with osItem := osRow, basicItem := basicRow }⟩) := by
  simp only [Core.shown, Shown.mk.injEq] at hshown
  obtain ⟨htype, hram, hgame, _, _, hartif, hmonitor, hlatency, hflag, hfkey, htext, hro⟩ := hshown
  exact {
    ramValid := by simpa only [Atari.syncRomItems, htype, hram] using h.ramValid
    machine := h.machine.congr htype hgame hram
    ram := by simpa only [Atari.syncRomItems, hram] using h.ram
    osChoices := by simpa only [Atari.syncRomItems, syncTo_choiceInts, hosRow, htype] using h.osChoices
    os := (syncTo_choice _ _).2 hos
    basic := (syncTo_choice _ _).2 hbasic
    artifact := by simpa only [Atari.syncRomItems, hartif] using h.artifact
    monitor := by simpa only [Atari.syncRomItems, hmonitor] using h.monitor
    flags := by simpa only [Atari.syncRomItems, hflag] using h.flags
    latency := by simpa only [Atari.syncRomItems, hlatency] using h.latency
    fkeys := by simpa only [Atari.syncRomItems, hfkey] using h.fkeys
    driveStatus := by simpa only [Atari.syncRomItems, htext] using h.driveStatus
    driveRo := by simpa only [Atari.syncRomItems, hro] using h.driveRo }

theorem osVersion_agrees_iff (h : Agrees s) (value : Nat) :
    Agrees (step emulator s (.change (.osVersion value)))
      ↔ KeepsAgreement emulator s (.change (.osVersion value)) := by
  let pref := s.core.clampOsPref (s.menu.osItem.choiceInts[value]?.getD 0)
  let core := s.core.setOsVersion s.core.machineType pref
  have hstep : step emulator s (.change (.osVersion value))
      = syncRomItems ⟨emulator.reinitialiseMachine core,
          { s.menu with osItem := { s.menu.osItem with value := value } }⟩ := rfl
  change _ ↔ emulator.losesGame core = false
  rw [hstep, reinitialiseMachine_eq]
  constructor
  · intro hafter
    exact (keptGame_iff emulator core).1 (h.game_eq hafter rfl)
  · intro hkept
    rw [hkept]
    apply h.syncRomItems
    · simp [Core.shown, core, Core.setOsVersion]
    · rfl
    · have hpref : core.osVersions core.machineType = pref := by
        simp [core, Core.setOsVersion]
      change core.osVersions core.machineType ∈ s.menu.osItem.choiceInts
      rw [hpref, h.osChoices]
      exact clampOsPref_mem _ _
    · exact choice_mem h.basic

theorem basicVersion_agrees_iff (h : Agrees s) (hbuilt : Built s.menu) (value : Nat) :
    Agrees (step emulator s (.change (.basicVersion value)))
      ↔ KeepsAgreement emulator s (.change (.basicVersion value)) := by
  let pref := s.core.clampBasicPref (s.menu.basicItem.choiceInts[value]?.getD 0)
  let core := { s.core with basicVersion := pref }
  have hstep : step emulator s (.change (.basicVersion value))
      = syncRomItems ⟨emulator.reinitialiseMachine core,
          { s.menu with basicItem := { s.menu.basicItem with value := value } }⟩ := rfl
  change _ ↔ emulator.losesGame core = false
  rw [hstep, reinitialiseMachine_eq]
  constructor
  · intro hafter
    exact (keptGame_iff emulator core).1 (h.game_eq hafter rfl)
  · intro hkept
    rw [hkept]
    apply h.syncRomItems
    · simp [Core.shown, core]
    · rfl
    · exact choice_mem h.os
    · change pref ∈ s.menu.basicItem.choiceInts
      rw [hbuilt.basic]
      exact clampBasicPref_mem _ _

theorem romRescan_agrees_iff (h : Agrees s) :
    Agrees (step emulator s (.change .romRescan)) ↔ KeepsAgreement emulator s (.change .romRescan) := by
  have hrefreshed : ∀ core : Core, core.shown = s.core.shown → Agrees (syncRomItems ⟨core, s.menu⟩) := by
    intro core hshown
    have hos : core.osVersions core.machineType = s.core.osVersions s.core.machineType :=
      congrArg Shown.os hshown
    have hbasic : core.basicVersion = s.core.basicVersion := congrArg Shown.basicVersion hshown
    refine h.syncRomItems ?_ rfl ?_ ?_
    · rw [hshown, hos, hbasic]
      rfl
    · rw [hos]
      exact choice_mem h.os
    · rw [hbasic]
      exact choice_mem h.basic
  change Agrees (syncRomItems ⟨emulator.rescanRomPool s.core, s.menu⟩) ↔ ∀ find, _
  cases hfind : emulator.findInDir with
  | none =>
    have hrescan : emulator.rescanRomPool s.core = s.core := by simp [rescanRomPool, hfind]
    rw [hrescan]
    exact ⟨fun _ _ hsome => by simp at hsome, fun _ => hrefreshed _ rfl⟩
  | some find =>
    have hrescan : emulator.rescanRomPool s.core
        = if emulator.choiceChanged s.core { s.core with roms := find s.core.roms } then
            emulator.initialiseMachine { s.core with roms := find s.core.roms }
          else { s.core with roms := find s.core.roms } := by
      simp [rescanRomPool, hfind]
    rw [hrescan]
    split
    next hchanged =>
      constructor
      · intro hafter found hfound _ hgame
        obtain rfl : find = found := Option.some.inj hfound
        have hkept := h.game_eq hafter rfl
        simpa [syncRomItems, initialiseMachine, hgame] using hkept
      · intro hkept
        apply hrefreshed
        have hgame : (s.core.builtinGame && emulator.keepsGame { s.core with roms := find s.core.roms })
            = s.core.builtinGame := by
          have hif := hkept find rfl hchanged
          cases hon : s.core.builtinGame with
          | false => rfl
          | true => rw [hif hon, Bool.and_true]
        simp [Core.shown, initialiseMachine, hgame]
    next hsame =>
      refine ⟨fun _ found hfound hchanged => ?_, fun _ => hrefreshed _ rfl⟩
      obtain rfl : find = found := Option.some.inj hfound
      exact absurd hchanged hsame

/-! ### Drives and single rows -/

theorem Agrees.syncDriveItems (h : Agrees s) (drives : Fin 8 → Drive) (ro : Fin 8 → Bool) :
    Agrees (syncDriveItems ⟨{ s.core with drives := drives }, { s.menu with driveRo := ro }⟩) := { h with
  machine := h.machine.congr rfl rfl rfl
  driveStatus := rfl
  driveRo := rfl }

theorem handleReadOnly_eq (emulator : Emulator) (core : Core) (drive : Fin 8) :
    ∃ drives, handleReadOnly emulator core drive = { core with drives := drives } := by
  unfold handleReadOnly
  split
  · exact ⟨_, rfl⟩
  · exact ⟨_, rfl⟩
  · exact ⟨core.drives, rfl⟩

theorem Agrees.artifactStep (h : Agrees s) (hvalue : value < s.menu.artifactItem.choiceInts.length) :
    Agrees (step emulator s (.change (.artifact value))) := { h with
  machine := h.machine.congr rfl rfl rfl
  artifact := by
    simp [Menu.choose, choice, getElem?_eq_getElem hvalue] }

theorem Agrees.monitorStep (h : Agrees s) (hbuilt : Built s.menu)
    (hvalue : value < s.menu.monitorItem.choiceInts.length) :
    Agrees (step emulator s (.change (.monitor value))) := by
  obtain ⟨mode, hmode⟩ : ∃ mode, s.menu.monitorItem.choiceInts[value]? = some mode :=
    ⟨_, getElem?_eq_getElem hvalue⟩
  have hrange : ¬ (mode < 0 ∨ mode > 3) := by
    have hmem := mem_of_getElem? hmode
    rw [hbuilt.monitor] at hmem
    simp only [mem_cons, not_mem_nil, or_false] at hmem
    omega
  have hstep : step emulator s (.change (.monitor value))
      = ⟨{ s.core with monitor := mode },
          { s.menu with monitorItem := { s.menu.monitorItem with value := value } }⟩ := by
    simp [Menu.choose, choice, hmode, Core.setMonitor, hrange]
  rw [hstep]
  exact { h with
    monitor := hmode }

theorem Agrees.latencyStep (h : Agrees s) {value : Int} (hvalue : 0 ≤ value ∧ value ≤ 100) :
    Agrees (step emulator s (.change (.latency value))) := { h with
  machine := h.machine.congr rfl rfl rfl
  latency := by
    have hlow : ¬ value < 0 := by omega
    have hhigh : ¬ value > 100 := by omega
    simp [Menu.choose, clampTo, hlow, hhigh] }

theorem Agrees.fkeyStep (h : Agrees s) (slot : Fin 6) (value : Int) :
    Agrees (step emulator s (.change (.fkey slot value))) := { h with
  machine := h.machine.congr rfl rfl rfl
  fkeys := by
    simp [Menu.choose, Core.setFkeyAction, h.fkeys] }

/-! ### Runs -/

/-- From rows that agree, an event leads to rows that agree exactly where its condition is met. -/
theorem step_agrees_iff (h : Agrees s) (hbuilt : Built s.menu) {event : Event}
    (hdomain : event.InDomain s) : Agrees (step emulator s event) ↔ KeepsAgreement emulator s event := by
  cases event with
  | start => exact h.iff_shown _
  | change chosen =>
    cases chosen with
    | machine value => exact machine_agrees_iff h hbuilt hdomain
    | ram value => exact ram_agrees_iff h hbuilt value
    | osVersion value => exact osVersion_agrees_iff h value
    | basicVersion value => exact basicVersion_agrees_iff h hbuilt value
    | artifact value => exact ⟨fun _ => trivial, fun _ => h.artifactStep hdomain⟩
    | monitor value => exact ⟨fun _ => trivial, fun _ => h.monitorStep hbuilt hdomain⟩
    | flag flag value => exact flag_agrees_iff h flag value
    | latency value => exact ⟨fun _ => trivial, fun _ => h.latencyStep hdomain⟩
    | fkey slot value => exact ⟨fun _ => trivial, fun _ => h.fkeyStep slot value⟩
    | romRescan => exact romRescan_agrees_iff h
    | rotate | eject drive => exact ⟨fun _ => trivial, fun _ => h.syncDriveItems _ _⟩
    | readOnly drive value =>
      refine ⟨fun _ => trivial, fun _ => ?_⟩
      obtain ⟨drives, hdrives⟩ := handleReadOnly_eq emulator s.core drive
      change Agrees (Atari.syncDriveItems ⟨handleReadOnly emulator s.core drive, _⟩)
      rw [hdrives]
      exact h.syncDriveItems drives _
    | cpuState | screenshot => exact ⟨fun _ => trivial, fun _ => h⟩

/-- Along a run the rows agree throughout exactly where they agree at its start and every event meets its
condition. -/
theorem sessions_agree_iff (hbuilt : Built s.menu) {events : List Event}
    (hdomain : EventsInDomain emulator s events) :
    (∀ t ∈ sessions emulator s events, Agrees t) ↔ Agrees s ∧ RunKeepsAgreement emulator s events := by
  induction events generalizing s with
  | nil => simp [sessions, RunKeepsAgreement]
  | cons event events ih =>
    obtain ⟨hevent, hrest⟩ := hdomain
    simp only [sessions, forall_mem_cons, RunKeepsAgreement]
    rw [ih (hbuilt.step event) hrest]
    constructor
    · rintro ⟨hagrees, hnext, hkeeps⟩
      exact ⟨hagrees, (step_agrees_iff hagrees hbuilt hevent).1 hnext, hkeeps⟩
    · rintro ⟨hagrees, hkeep, hkeeps⟩
      exact ⟨hagrees, (step_agrees_iff hagrees hbuilt hevent).2 hkeep, hkeeps⟩

end Events

/-! ### The settings file -/

/-- The number of a machine in the file. -/
def Machine.value : Machine → Int
  | .atari800 => 0
  | .xlxe => 1
  | .atari5200 => 2

/-- A setting that one name alone stages, where its number is taken, is that name's last such number. -/
theorem stageSettings_field (field : Core → Int) {name : String} {accepted : Int → Bool}
    (hline : ∀ core key value, field ((handleLoadedSetting core key value).getD core)
      = if key = name ∧ accepted value = true then value else field core)
    (core : Core) (file : SettingsFile) :
    field (stageSettings core file) = (lastAccepted file name accepted).getD (field core) := by
  induction file using List.reverseRecOn with
  | nil => rfl
  | append_singleton file line ih =>
    have hstage : stageSettings core (file ++ [line])
        = (handleLoadedSetting (stageSettings core file) line.1 line.2).getD (stageSettings core file) := by
      simp [stageSettings]
    rw [hstage, hline, ih]
    unfold lastAccepted
    by_cases htaken : line.1 = name ∧ accepted line.2 = true
    · rw [if_pos htaken]
      simp [htaken.1, htaken.2]
    · rw [if_neg htaken]
      have hskip : (line.1 == name && accepted line.2) = false := by
        simpa using htaken
      simp [hskip]

/-- The settings that a line of the file can only leave in their range, before the core is started. -/
structure Staged (core : Core) : Prop where
  artif : 0 ≤ core.artifMode ∧ core.artifMode ≤ 4
  monitor : 0 ≤ core.monitor ∧ core.monitor ≤ 3
  fkeys : ∀ slot, 0 ≤ core.fkeyAction slot ∧ core.fkeyAction slot ≤ 6
  ready : core.ready = false

theorem fkeyRow_range (action : Int) : 0 ≤ fkeyRow action ∧ fkeyRow action ≤ 6 := by
  unfold fkeyRow
  split <;> omega

theorem Staged.setFkeyAction (h : Staged core) (slot : Fin 6) (action : Int) :
    Staged (core.setFkeyAction slot (fkeyRow action)) := { h with
  fkeys := by
    intro other
    unfold Core.setFkeyAction
    by_cases heq : other = slot
    · simp [heq, fkeyRow_range]
    · simpa [heq] using h.fkeys other }

theorem Staged.setMonitor (h : Staged core) (mode : Int) : Staged (core.setMonitor mode) := by
  unfold Core.setMonitor
  split
  next => exact h
  next hrange => exact { h with monitor := by change 0 ≤ mode ∧ mode ≤ 3; omega }

/-- What a line of the file leaves: a machine, a revision of its OS or of BASIC under its own name, the rest as it was. -/
structure AfterLine (core : Core) (key : String) (value : Int) (core' : Core) : Prop where
  machine : core'.machineType.value
    = if key = "atari_machine" ∧ (0 ≤ value && value ≤ 2) = true then value else core.machineType.value
  os : core'.osVersions .xlxe
    = if key = "atari_osxlxe" ∧ (0 ≤ value && value ≤ sysromSize) = true then value else core.osVersions .xlxe
  basic : core'.basicVersion
    = if key = "atari_basicver" ∧ (0 ≤ value && value ≤ sysromSize) = true then value else core.basicVersion
  staged : Staged core → Staged core'

theorem AfterLine.of_same {core' : Core} {key : String} {value : Int}
    (hkey : key ≠ "atari_machine" ∧ key ≠ "atari_osxlxe" ∧ key ≠ "atari_basicver")
    (hmachine : core'.machineType = core.machineType) (hos : core'.osVersions .xlxe = core.osVersions .xlxe)
    (hbasic : core'.basicVersion = core.basicVersion) (hstaged : Staged core → Staged core') :
    AfterLine core key value core' where
  machine := by rw [hmachine, if_neg fun h => hkey.1 h.1]
  os := by rw [hos, if_neg fun h => hkey.2.1 h.1]
  basic := by rw [hbasic, if_neg fun h => hkey.2.2 h.1]
  staged := hstaged

theorem afterLine (core : Core) (key : String) (value : Int) :
    AfterLine core key value ((handleLoadedSetting core key value).getD core) := by
  unfold handleLoadedSetting
  split
  case h_1 =>
    refine ⟨?_, by simp [Machine.ofValue]; split <;> rfl, by simp; split <;> rfl, ?_⟩
    · by_cases h0 : value = 0
      · simp [Machine.ofValue, Machine.value, h0]
      by_cases h1 : value = 1
      · simp [Machine.ofValue, Machine.value, h1]
      by_cases h2 : value = 2
      · simp [Machine.ofValue, Machine.value, h2]
      have hout : ¬ (0 ≤ value ∧ value ≤ 2) := by omega
      simp [Machine.ofValue, h0, h1, h2, hout]
    · intro h
      dsimp only [Option.getD_some]
      split <;> exact { h with }
  case h_5 =>
    refine .of_same (by simp) ?_ ?_ ?_ ?_
    all_goals dsimp only [Option.getD_some]
    all_goals split
    all_goals first | rfl | exact id | skip
    next hrange => exact fun h => { h with artif := hrange }
  case h_9 =>
    by_cases hrange : 0 ≤ value ∧ value ≤ sysromSize
    · simp only [if_pos hrange, Option.getD_some]
      exact ⟨by simp [Core.setOsVersion], by simp [Core.setOsVersion, hrange], by simp [Core.setOsVersion], fun h => { h with }⟩
    · simp only [if_neg hrange, Option.getD_some]
      exact ⟨by simp, by simp [hrange], by simp, id⟩
  case h_11 =>
    by_cases hrange : 0 ≤ value ∧ value ≤ sysromSize
    · simp only [if_pos hrange, Option.getD_some]
      exact ⟨by simp, by simp, by simp [hrange], fun h => { h with }⟩
    · simp only [if_neg hrange, Option.getD_some]
      exact ⟨by simp, by simp, by simp [hrange], id⟩
  case h_12 =>
    refine .of_same (by simp) ?_ ?_ ?_ fun h : Staged core => h.setMonitor value
    all_goals dsimp only [Option.getD_some]
    all_goals unfold Core.setMonitor
    all_goals split <;> rfl
  case h_36 => exact .of_same ⟨by assumption, by assumption, by assumption⟩ rfl rfl rfl id
  -- the revisions of the OS of the other machines
  case h_8 | h_10 =>
    dsimp only [Option.getD_some]
    split <;> exact .of_same (by simp) rfl rfl rfl fun h : Staged core => { h with }
  all_goals first
    | exact .of_same (by simp) rfl rfl rfl fun h : Staged core => { h with }
    | exact .of_same (by simp) rfl rfl rfl fun h : Staged core => h.setFkeyAction _ _

theorem stageSettings_staged (file : SettingsFile) : Staged (stageSettings .powerOn file) := by
  induction file using List.reverseRecOn with
  | nil => exact ⟨by decide, by decide, by decide, rfl⟩
  | append_singleton file line ih =>
    have hstage : stageSettings .powerOn (file ++ [line])
        = (handleLoadedSetting (stageSettings .powerOn file) line.1 line.2).getD
            (stageSettings .powerOn file) := by
      simp [stageSettings]
    rw [hstage]
    exact (afterLine ..).staged ih

theorem fkeyRow_eq {action : Int} (h : 0 ≤ action ∧ action ≤ 6) : fkeyRow action = action := by
  have hout : ¬ (action < 0 ∨ action > 6) := by omega
  simp [fkeyRow, hout]

section Loading

variable {emulator : Emulator}

/-- The globals after the file: what it staged, with memory that fits the machine. -/
def loadedCore (file : SettingsFile) : Core :=
  let staged := stageSettings .powerOn file
  { staged with ramSize := ramFor staged.machineType staged.ramSize }

theorem loaded_eq (file : SettingsFile) :
    loaded emulator file = syncAllMenuItems ⟨loadedCore file, (buildMenu .powerOn).menu⟩ := by
  have hready : (loadedCore file).ready = false := (stageSettings_staged file).ready
  have hmachine : applyLoadedMachine emulator (stageSettings (buildMenu .powerOn).core file)
      = loadedCore file := by
    change emulator.reinitialiseMachine (loadedCore file) = loadedCore file
    simp [reinitialiseMachine, hready]
  unfold loaded loadSettings loadSettingsDone
  simp only [hmachine, hready]
  rfl

theorem loaded_built (emulator : Emulator) (file : SettingsFile) : Built (loaded emulator file).menu := by
  constructor <;> simp [loaded, loadSettings, loadSettingsDone, syncAllMenuItems, syncDriveItems,
    syncRomItems, syncRamItem, syncMachineItem, buildMenu, romRow, Core.powerOn, osChoicesForMachineType]

/-- After the file is read every row agrees, exactly where the file keeps to the machine the rows were
built for and to the revisions they have. -/
theorem loaded_agrees_iff (file : SettingsFile) : Agrees (loaded emulator file) ↔ FileFits file := by
  have hbuilt := loaded_built emulator file
  have hstaged := stageSettings_staged file
  have hmachine := stageSettings_field (fun core => core.machineType.value) (fun _ _ _ => (afterLine ..).machine) .powerOn file
  have hos := stageSettings_field (fun core => core.osVersions .xlxe) (fun _ _ _ => (afterLine ..).os) .powerOn file
  have hbasic := stageSettings_field (fun core => core.basicVersion) (fun _ _ _ => (afterLine ..).basic) .powerOn file
  have hcore : (loaded emulator file).core = loadedCore file := by rw [loaded_eq]; rfl
  constructor
  · intro h
    have hxlxe : (stageSettings .powerOn file).machineType = .xlxe := by
      have htype := h.xlxe hbuilt
      rwa [hcore] at htype
    constructor
    · rw [hxlxe] at hmachine
      exact hmachine.symm
    · have hmem := choice_mem h.os
      rw [hbuilt.os, hcore] at hmem
      change (stageSettings .powerOn file).osVersions (stageSettings .powerOn file).machineType ∈ _ at hmem
      rw [hxlxe, hos] at hmem
      exact hmem
    · have hmem := choice_mem h.basic
      rw [hbuilt.basic, hcore] at hmem
      change (stageSettings .powerOn file).basicVersion ∈ _ at hmem
      rw [hbasic] at hmem
      exact hmem
  · intro h
    have hxlxe : (loadedCore file).machineType = .xlxe := by
      have hvalue : (loadedCore file).machineType.value = 1 := hmachine.trans h.machine
      cases htype : (loadedCore file).machineType <;> simp [htype, Machine.value] at hvalue ⊢
    have hrows : Built (buildMenu .powerOn).menu := by
      constructor <;> simp [syncDriveItems, syncRomItems, syncRamItem, syncMachineItem, buildMenu, romRow,
        Core.powerOn, osChoicesForMachineType]
    have hartif : (loadedCore file).artifMode ∈ (buildMenu .powerOn).menu.artifactItem.choiceInts := by
      have hrange : 0 ≤ (loadedCore file).artifMode ∧ (loadedCore file).artifMode ≤ 4 := hstaged.artif
      rw [hrows.artifact]
      simp only [mem_cons, not_mem_nil, or_false]
      omega
    have hmonitor : (loadedCore file).monitor ∈ (buildMenu .powerOn).menu.monitorItem.choiceInts := by
      have hrange : 0 ≤ (loadedCore file).monitor ∧ (loadedCore file).monitor ≤ 3 := hstaged.monitor
      rw [hrows.monitor]
      simp only [mem_cons, not_mem_nil, or_false]
      omega
    have hram : (loadedCore file).ramSize ∈ (buildMenu .powerOn).menu.ramItem.choiceInts := by
      exact ramFor_mem _ _
    have hosMem : (loadedCore file).osVersions (loadedCore file).machineType
        ∈ (buildMenu .powerOn).menu.osItem.choiceInts := by
      rw [hxlxe, hrows.os]
      change (stageSettings .powerOn file).osVersions .xlxe ∈ _
      rw [hos]
      exact h.os
    have hbasicMem : (loadedCore file).basicVersion
        ∈ (buildMenu .powerOn).menu.basicItem.choiceInts := by
      change (stageSettings .powerOn file).basicVersion ∈ _
      rw [hbasic]
      exact h.basic
    rw [loaded_eq]
    exact {
      ramValid := ramFor_valid _ _
      machine := syncMachineItem_agrees hrows.machine (family_of_xlxe hxlxe)
      ram := findIdx_getD_choice (buildMenu .powerOn).menu.ramItem hram
      osChoices := by
        change ((buildMenu .powerOn).menu.osItem.syncTo _).choiceInts
          = sysromAuto :: (osChoicesForMachineType (loadedCore file).machineType).map RomChoice.id
        rw [syncTo_choiceInts, hrows.os, hxlxe]
        rfl
      os := (syncTo_choice (buildMenu .powerOn).menu.osItem _).2 hosMem
      basic := (syncTo_choice (buildMenu .powerOn).menu.basicItem _).2 hbasicMem
      artifact := (syncTo_choice (buildMenu .powerOn).menu.artifactItem _).2 hartif
      monitor := (syncTo_choice (buildMenu .powerOn).menu.monitorItem _).2 hmonitor
      flags := rfl
      latency := rfl
      fkeys := funext fun slot => fkeyRow_eq (hstaged.fkeys slot)
      driveStatus := rfl
      driveRo := rfl }

end Loading

/-! ### The whole run -/

/-- For every settings file and every run after it: the menu agrees with the core after each step,
exactly where the file fits the rows and every step leaves the settings as they are behind the rows it
does not refresh. -/
theorem menu_agrees_iff (emulator : Emulator) (file : SettingsFile) (events : List Event)
    (hdomain : EventsInDomain emulator (loaded emulator file) events) :
    (∀ s ∈ sessions emulator (loaded emulator file) events, Agrees s)
      ↔ FileFits file ∧ RunKeepsAgreement emulator (loaded emulator file) events := by
  rw [sessions_agree_iff (loaded_built emulator file) hdomain, loaded_agrees_iff]

/-- An emulator that finds no pool and no built-in game, and can always open its sound. -/
def plainEmulator : Emulator where
  init basic core := if basic then core.setFlag .basic true else core
  findInDir := none
  choiceChanged _ _ := false
  keepsGame _ := false
  soundSetup _ := true
  rotateDisks drives := drives
  dismount _ drives := drives
  mount _ _ drives := drives

/-- A file with BASIC on, the start, and two changes that leave the rows right. -/
theorem menu_agrees_plain :
    (sessions plainEmulator (loaded plainEmulator [("atari_basic", 1)])
      [.start, .change (.machine 5), .change (.flag .ledDisk false)]).length = 4 ∧
    ∀ s ∈ sessions plainEmulator (loaded plainEmulator [("atari_basic", 1)])
      [.start, .change (.machine 5), .change (.flag .ledDisk false)], Agrees s := by
  refine ⟨rfl, (menu_agrees_iff plainEmulator [("atari_basic", 1)] _ ?_).2 ⟨?_, ?_⟩⟩
  · have hchoice : 5 < (loaded plainEmulator [("atari_basic", 1)]).menu.machineItem.choiceInts.length := by
      decide
    exact ⟨trivial, hchoice, trivial, trivial⟩
  · exact ⟨by decide, by decide, by decide⟩
  · have hstart : (plainEmulator.start (loaded plainEmulator [("atari_basic", 1)]).core).shown
        = (loaded plainEmulator [("atari_basic", 1)]).core.shown := by
      have hflag : (plainEmulator.start (loaded plainEmulator [("atari_basic", 1)]).core).flag
          = (loaded plainEmulator [("atari_basic", 1)]).core.flag := by
        funext flag
        cases flag <;> rfl
      simp only [Core.shown, Shown.mk.injEq, hflag]
      exact ⟨rfl, rfl, rfl, rfl, rfl, rfl, rfl, rfl, trivial, rfl, rfl, rfl⟩
    refine ⟨hstart, ?_, trivial, trivial⟩
    intro model hmodel
    cases hmodel
    rfl

/-- From an Atari 800XL the memory row is set to 128K. An Atari 130XE has that memory, and the machine
row still selects the Atari 800XL. -/
theorem memory_leaves_machine_row :
    EventsInDomain plainEmulator (loaded plainEmulator [("atari_basic", 1)]) [.start, .change (.ram 5)] ∧
      ∃ s ∈ sessions plainEmulator (loaded plainEmulator [("atari_basic", 1)])
        [.start, .change (.ram 5)], ¬ Agrees s := by
  let started := step plainEmulator (loaded plainEmulator [("atari_basic", 1)]) .start
  have hchoice : 5 < started.menu.ramItem.choiceInts.length := by decide
  refine ⟨⟨trivial, hchoice, trivial⟩, step plainEmulator started (.change (.ram 5)), by simp [sessions, started], ?_⟩
  intro h
  obtain ⟨model, hmodel, _, hexact⟩ := h.machine
  have hrow : (step plainEmulator started (.change (.ram 5))).menu.machineItem.choice.bind submodelAt
      = some ⟨"Atari 800XL", .xlxe, 64, false⟩ := by
    decide
  obtain rfl := Option.some.inj (hrow.symm.trans hmodel)
  have hother : ∃ other ∈ kSubmodels,
      other.exact (step plainEmulator started (.change (.ram 5))).core = true :=
    ⟨⟨"Atari 130XE", .xlxe, 128, false⟩, by decide, by decide⟩
  exact absurd (hexact hother) (by decide)

end Bmx.Atari
