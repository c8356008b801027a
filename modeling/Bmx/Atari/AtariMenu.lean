import Bmx.Atari.AtariCore

/-!
# The Atari rows of the menu

The rows are built once, before the settings file is read, from the globals as they are then. After
that each change of a row is handed to the bridge, which writes the globals and refreshes some of the
rows.
-/

namespace Bmx.Atari

/-- A multiple choice: the numbers its choices stand for and the selected one. -/
structure ChoiceRow where
  choiceInts : List Int
  value : Nat

namespace ChoiceRow

/-- `choice_ints[value]`. -/
def choice (row : ChoiceRow) : Option Int :=
  row.choiceInts[row.value]?

/-- The first choice with this number is selected, and nothing changes where there is none. -/
def syncTo (row : ChoiceRow) (id : Int) : ChoiceRow :=
  match row.choiceInts.findIdx? (· == id) with
  | some i => { row with value := i }
  | none => row

end ChoiceRow

/-- The rows the bridge holds handles of. A toggle is its value, and so is the range of the latency;
the choices of a function key are its numbers. -/
structure Menu where
  machineItem : ChoiceRow
  ramItem : ChoiceRow
  osItem : ChoiceRow
  basicItem : ChoiceRow
  artifactItem : ChoiceRow
  monitorItem : ChoiceRow
  flagItem : Flag → Bool
  latencyItem : Int
  fkeyItems : Fin 6 → Int
  driveStatus : Fin 8 → String
  driveRo : Fin 8 → Bool
  driveRoDisabled : Fin 8 → Bool

/-- The globals and the rows. -/
structure Session where
  core : Core
  menu : Menu

/-! ### Refreshing rows -/

def syncRamItem (s : Session) : Session :=
  let row := s.menu.ramItem
  let found := row.choiceInts.findIdx? (· == s.core.ramSize)
  { s with menu := { s.menu with ramItem := { row with value := found.getD 0 } } }

/-- The submodel has the machine type and the game flag of the core. -/
def Submodel.family (model : Submodel) (core : Core) : Bool :=
  model.type == core.machineType && model.game == core.builtinGame

/-- The submodel has the memory of the core as well. -/
def Submodel.exact (model : Submodel) (core : Core) : Bool :=
  model.family core && model.ram == core.ramSize

def findSubmodel (row : ChoiceRow) (test : Submodel → Bool) : Option Nat :=
  row.choiceInts.findIdx? fun sub => (submodelAt sub).any test

def syncMachineItem (s : Session) : Session :=
  let row := s.menu.machineItem
  let value :=
    match findSubmodel row (·.exact s.core) with
    | some i => i
    | none => (findSubmodel row (·.family s.core)).getD 0
  { s with menu := { s.menu with machineItem := { row with value := value } } }

def driveBasename (path : String) : String :=
  String.ofList (path.toList.reverse.takeWhile fun c => c != '/' && c != '\\' && c != ':').reverse

/-- The state row of a drive; the name in it is cut to 22 characters. -/
def driveText (drive : Drive) : String :=
  match drive.status with
  | .off => "State: Off"
  | .noDisk => "State: Empty"
  | .readOnly => "State: " ++ ((driveBasename drive.filename).take 22).toString ++ " (R/O)"
  | .readWrite => "State: " ++ ((driveBasename drive.filename).take 22).toString ++ " (R/W)"

def syncDriveItems (s : Session) : Session :=
  { s with menu := { s.menu with
    driveStatus := fun d => driveText (s.core.drives d)
    driveRo := fun d => (s.core.drives d).status == .readOnly
    driveRoDisabled := fun d =>
      !((s.core.drives d).status == .readOnly || (s.core.drives d).status == .readWrite) } }

def syncRomItems (s : Session) : Session :=
  { s with menu := { s.menu with
    osItem := s.menu.osItem.syncTo (s.core.osVersions s.core.machineType)
    basicItem := s.menu.basicItem.syncTo s.core.basicVersion } }

/-- An action the menu has no choice for is shown as none. -/
def fkeyRow (action : Int) : Int :=
  if action < 0 ∨ action > 6 then 0 else action

def syncAllMenuItems (s : Session) : Session :=
  let shown : Menu := { s.menu with
    flagItem := s.core.flag
    artifactItem := s.menu.artifactItem.syncTo s.core.artifMode
    monitorItem := s.menu.monitorItem.syncTo s.core.monitor
    latencyItem := s.core.latency
    fkeyItems := fun slot => fkeyRow (s.core.fkeyAction slot) }
  syncDriveItems (syncRomItems (syncRamItem (syncMachineItem { s with menu := shown })))

/-! ### Building the rows -/

def ramOptions : List Int :=
  [8, 16, 48, 52, 64, 128, 192, 320, 321, 576, 1088]

/-- "Auto" and the revisions of a table. -/
def romRow (choices : List RomChoice) : ChoiceRow :=
  ⟨sysromAuto :: choices.map RomChoice.id, 0⟩

/-- The rows as the bridge's `emux_add_…_options` build them from the globals. -/
def buildMenu (core : Core) : Session :=
  let rows : Menu := {
    machineItem := ⟨(List.range kSubmodels.length).map Int.ofNat, 0⟩
    ramItem := ⟨ramOptions, 0⟩
    osItem := romRow (osChoicesForMachineType core.machineType)
    basicItem := romRow kBasic
    artifactItem := (ChoiceRow.mk [0, 1, 2, 3, 4] 0).syncTo core.artifMode
    monitorItem := (ChoiceRow.mk [0, 1, 2, 3] 0).syncTo core.monitor
    flagItem := core.flag
    latencyItem := core.latency
    fkeyItems := core.fkeyAction
    driveStatus := fun _ => "State"
    driveRo := fun _ => false
    driveRoDisabled := fun _ => false }
  syncDriveItems (syncRomItems (syncRamItem (syncMachineItem { core := core, menu := rows })))

/-! ### The settings file -/

/-- A number kept between 0 and a bound. -/
def clampTo (bound value : Int) : Int :=
  if value < 0 then 0 else if value > bound then bound else value

/-- `emux_handle_loaded_setting`: what a line of the file stages, and nothing where the name is not the
bridge's. -/
def handleLoadedSetting (core : Core) (name : String) (value : Int) : Option Core :=
  match name with
  | "atari_machine" =>
    some (match Machine.ofValue value with
      | some machine => { core with machineType := machine }
      | none => core)
  | "atari_ram" => some { core with ramSize := value }
  | "atari_basic" => some { core.setFlag .basic (value != 0) with basicPrefLoaded := true }
  | "atari_sio" => some (core.setFlag .sioPatch (value != 0))
  | "atari_artif" => some (if 0 ≤ value ∧ value ≤ 4 then { core with artifMode := value } else core)
  | "atari_sound" => some (core.setFlag .sound (value != 0))
  | "atari_game" => some { core with builtinGame := value != 0 }
  | "atari_os800" =>
    some (if 0 ≤ value ∧ value ≤ sysromSize then core.setOsVersion .atari800 value else core)
  | "atari_osxlxe" =>
    some (if 0 ≤ value ∧ value ≤ sysromSize then core.setOsVersion .xlxe value else core)
  | "atari_os5200" =>
    some (if 0 ≤ value ∧ value ≤ sysromSize then core.setOsVersion .atari5200 value else core)
  | "atari_basicver" =>
    some (if 0 ≤ value ∧ value ≤ sysromSize then { core with basicVersion := value } else core)
  | "atari_monitor" => some (core.setMonitor value)
  | "atari_bri" => some (core.setColour .brightness (clampTo 2000 value))
  | "atari_con" => some (core.setColour .contrast (clampTo 2000 value))
  | "atari_sat" => some (core.setColour .saturation (clampTo 2000 value))
  | "atari_tin" => some (core.setColour .tint (clampTo 2000 value))
  | "atari_gam" => some (core.setColour .gamma (clampTo 4000 value))
  | "atari_leddisk" => some (core.setFlag .ledDisk (value != 0))
  | "atari_ledsector" => some (core.setFlag .ledSector (value != 0))
  | "atari_led1200" => some (core.setFlag .led1200 (value != 0))
  | "atari_speed" => some (core.setFlag .speed (value != 0))
  | "atari_stereo" => some (core.setFlag .stereo (value != 0))
  | "atari_hifi" => some (core.setFlag .hifi (value != 0))
  | "atari_click" => some (core.setFlag .keyClick (value != 0))
  | "atari_bienias" => some (core.setFlag .bienias (value != 0))
  | "atari_latency" => some { core with latency := clampTo 100 value }
  | "atari_rtime" => some (core.setFlag .rtime (value != 0))
  | "atari_slowboot" => some (core.setFlag .slowBoot (value != 0))
  | "atari_cartreboot" => some (core.setFlag .cartReboot (value != 0))
  | "atari_f6" => some (core.setFkeyAction 0 (fkeyRow value))
  | "atari_f7" => some (core.setFkeyAction 1 (fkeyRow value))
  | "atari_f8" => some (core.setFkeyAction 2 (fkeyRow value))
  | "atari_f9" => some (core.setFkeyAction 3 (fkeyRow value))
  | "atari_f10" => some (core.setFkeyAction 4 (fkeyRow value))
  | "atari_f11" => some (core.setFkeyAction 5 (fkeyRow value))
  | _ => none

/-- A file's lines as the menu splits them: a name and the number after it. -/
abbrev SettingsFile := List (String × Int)

def stageSettings (core : Core) (file : SettingsFile) : Core :=
  file.foldl (fun core line => (handleLoadedSetting core line.1 line.2).getD core) core

section Bridge

variable (emulator : Emulator)

def applyLoadedMachine (core : Core) : Core :=
  let ram :=
    if ramValidForMachine core.machineType core.ramSize then core.ramSize
    else defaultRamForMachine core.machineType
  emulator.reinitialiseMachine { core with ramSize := ram }

def loadSettingsDone (s : Session) : Session :=
  let machine := applyLoadedMachine emulator s.core
  let core := if machine.ready then emulator.applySoundSetup machine else machine
  syncAllMenuItems { s with core := core }

/-- `load_settings`, as far as the Atari rows go. -/
def loadSettings (s : Session) (file : SettingsFile) : Session :=
  loadSettingsDone emulator { s with core := stageSettings s.core file }

/-! ### Changes -/

/-- A change the user makes in the Atari rows: the row and the value chosen in it. -/
inductive Change where
  | machine (value : Nat)
  | ram (value : Nat)
  | osVersion (value : Nat)
  | basicVersion (value : Nat)
  | artifact (value : Nat)
  | monitor (value : Nat)
  | flag (flag : Flag) (value : Bool)
  | latency (value : Int)
  | fkey (slot : Fin 6) (value : Int)
  | romRescan
  | rotate
  | eject (drive : Fin 8)
  | readOnly (drive : Fin 8) (value : Bool)
  | cpuState
  | screenshot
  deriving DecidableEq, Repr

/-- The value lies in the row's domain. -/
def Change.InDomain (menu : Menu) : Change → Prop
  | .machine value => value < menu.machineItem.choiceInts.length
  | .ram value => value < menu.ramItem.choiceInts.length
  | .osVersion value => value < menu.osItem.choiceInts.length
  | .basicVersion value => value < menu.basicItem.choiceInts.length
  | .artifact value => value < menu.artifactItem.choiceInts.length
  | .monitor value => value < menu.monitorItem.choiceInts.length
  | .latency value => 0 ≤ value ∧ value ≤ 100
  | .fkey _ value => 0 ≤ value ∧ value ≤ 6
  | _ => True

/-- The row takes the chosen value before the bridge is called. -/
def Menu.choose (menu : Menu) : Change → Menu
  | .machine value => { menu with machineItem := { menu.machineItem with value := value } }
  | .ram value => { menu with ramItem := { menu.ramItem with value := value } }
  | .osVersion value => { menu with osItem := { menu.osItem with value := value } }
  | .basicVersion value => { menu with basicItem := { menu.basicItem with value := value } }
  | .artifact value => { menu with artifactItem := { menu.artifactItem with value := value } }
  | .monitor value => { menu with monitorItem := { menu.monitorItem with value := value } }
  | .flag flag value => { menu with flagItem := Function.update menu.flagItem flag value }
  | .latency value => { menu with latencyItem := value }
  | .fkey slot value => { menu with fkeyItems := Function.update menu.fkeyItems slot value }
  | .readOnly drive value => { menu with driveRo := Function.update menu.driveRo drive value }
  | _ => menu

/-- The memory a choice of the memory row leaves on the core's machine. -/
def ramFor (machine : Machine) (ram : Int) : Int :=
  if ramValidForMachine machine ram then ram else defaultRamForMachine machine

/-- A toggle is written, and three of them need more: BASIC and the sound engine set the machine up
again, and the second sound chip sets up the mixer before that. -/
def handleFlag (core : Core) (flag : Flag) (value : Bool) : Core :=
  match flag with
  | .basic | .hifi => emulator.reinitialiseMachine (core.setFlag flag value)
  | .stereo => emulator.reinitialiseMachine (emulator.applySoundSetup (core.setFlag flag value))
  | _ => core.setFlag flag value

/-- The read-only toggle of a drive mounts its disk the other way round, whatever its value is. -/
def handleReadOnly (core : Core) (drive : Fin 8) : Core :=
  match (core.drives drive).status with
  | .readWrite => { core with drives := emulator.mount drive true core.drives }
  | .readOnly => { core with drives := emulator.mount drive false core.drives }
  | _ => core

/-- `emux_handle_menu_change`, once the row has its value. -/
@[simp] def handleMenuChange (s : Session) (change : Change) : Session :=
  match change with
  | .machine _ =>
    let sub := s.menu.machineItem.choice.getD 0
    syncMachineItem (syncRamItem { s with core := emulator.applySubmodel s.core sub })
  | .ram _ =>
    let ram := ramFor s.core.machineType (s.menu.ramItem.choice.getD 0)
    syncRamItem { s with core := emulator.reinitialiseMachine { s.core with ramSize := ram } }
  | .osVersion _ =>
    let pref := s.core.clampOsPref (s.menu.osItem.choice.getD 0)
    syncRomItems
      { s with core := emulator.reinitialiseMachine (s.core.setOsVersion s.core.machineType pref) }
  | .basicVersion _ =>
    let pref := s.core.clampBasicPref (s.menu.basicItem.choice.getD 0)
    syncRomItems { s with core := emulator.reinitialiseMachine { s.core with basicVersion := pref } }
  | .artifact _ =>
    { s with core := { s.core with artifMode := s.menu.artifactItem.choice.getD 0 } }
  | .monitor _ => { s with core := s.core.setMonitor (s.menu.monitorItem.choice.getD 0) }
  | .flag flag _ => { s with core := handleFlag emulator s.core flag (s.menu.flagItem flag) }
  | .latency _ => { s with core := { s.core with latency := clampTo 100 s.menu.latencyItem } }
  | .fkey slot _ =>
    let action := fkeyRow (s.menu.fkeyItems slot)
    { core := s.core.setFkeyAction slot action
      menu := { s.menu with fkeyItems := Function.update s.menu.fkeyItems slot action } }
  | .romRescan => syncRomItems { s with core := emulator.rescanRomPool s.core }
  | .rotate => syncDriveItems { s with core := { s.core with drives := emulator.rotateDisks s.core.drives } }
  | .eject drive =>
    syncDriveItems { s with core := { s.core with drives := emulator.dismount drive s.core.drives } }
  | .readOnly drive _ => syncDriveItems { s with core := handleReadOnly emulator s.core drive }
  | .cpuState | .screenshot => s

/-! ### Runs -/

/-- What happens to a built and loaded menu: the emulator starts, or the user changes a row. -/
inductive Event where
  | start
  | change (change : Change)

@[simp] def step (s : Session) : Event → Session
  | .start => { s with core := emulator.start s.core }
  | .change chosen => handleMenuChange emulator { s with menu := s.menu.choose chosen } chosen

def Event.InDomain (s : Session) : Event → Prop
  | .start => True
  | .change chosen => chosen.InDomain s.menu

/-- Each event of a run has its value in the row's domain when it happens. -/
def EventsInDomain (s : Session) : List Event → Prop
  | [] => True
  | event :: events => event.InDomain s ∧ EventsInDomain (step emulator s event) events

/-- The sessions a run goes through, the first one included. -/
def sessions (s : Session) : List Event → List Session
  | [] => [s]
  | event :: events => s :: sessions (step emulator s event) events

/-- The menu after it was built and the settings file was read. -/
def loaded (file : SettingsFile) : Session :=
  loadSettings emulator (buildMenu .powerOn) file

end Bridge

end Bmx.Atari
