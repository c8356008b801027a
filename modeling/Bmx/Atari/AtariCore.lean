import Bmx.Base.Instances

/-!
# The settings of the Atari core

The bridge keeps no copy of a setting: it reads and writes the core's own globals, and they are the
fields of `Core` here. What the core does with them on its own (opening its files, loading a ROM image,
mounting a disk) is an `Emulator`: the bridge calls it and then reads the globals again.
-/

namespace Bmx.Atari

/-- `Atari800_machine_type`. -/
inductive Machine where
  | atari800
  | xlxe
  | atari5200
  deriving DecidableEq, Repr

def Machine.ofValue (value : Int) : Option Machine :=
  if value = 0 then some .atari800
  else if value = 1 then some .xlxe
  else if value = 2 then some .atari5200
  else none

def defaultRamForMachine : Machine → Int
  | .atari800 => 48
  | .atari5200 => 16
  | .xlxe => 64

def ramValidForMachine (machine : Machine) (ram : Int) : Bool :=
  match machine with
  | .atari800 => ram == 8 || ram == 16 || ram == 48 || ram == 52
  | .atari5200 => ram == 16
  | .xlxe =>
    ram == 16 || ram == 64 || ram == 128 || ram == 192 || ram == 320 || ram == 321 || ram == 576
      || ram == 1088

/-- A machine of the menu's first row: the type, the memory and the built-in game of one model. -/
structure Submodel where
  name : String
  type : Machine
  ram : Int
  game : Bool
  deriving DecidableEq

def kSubmodels : List Submodel :=
  [⟨"Atari 400", .atari800, 16, false⟩,
   ⟨"Atari 800", .atari800, 48, false⟩,
   ⟨"Atari 800XL", .xlxe, 64, false⟩,
   ⟨"Atari 1200XL", .xlxe, 64, false⟩,
   ⟨"Atari 600XL", .xlxe, 16, false⟩,
   ⟨"Atari 130XE", .xlxe, 128, false⟩,
   ⟨"Atari 320XE", .xlxe, 192, false⟩,
   ⟨"Atari XEGS", .xlxe, 64, true⟩,
   ⟨"Atari 5200", .atari5200, 16, false⟩]

/-- The submodel an index of the table stands for, with the bounds the source checks. -/
def submodelAt (sub : Int) : Option Submodel :=
  if 0 ≤ sub then kSubmodels[sub.toNat]? else none

/-! ### System ROMs

The revisions are named by their place in the core's table of images. The built-in replacements come
after the loadable ones, and the value one past the table asks for an automatic choice. -/

def sysromAltirra800 : Int := 25
def sysromAltirraXl : Int := 26
def sysromAltirra5200 : Int := 27
def sysromAltirraBasic : Int := 28
def sysromSize : Int := 29
def sysromAuto : Int := sysromSize

structure RomChoice where
  id : Int
  name : String

def kOs800 : List RomChoice :=
  [⟨0, "OS-A NTSC"⟩, ⟨1, "OS-A PAL"⟩, ⟨2, "OS-B NTSC"⟩, ⟨20, "Custom 800"⟩,
   ⟨sysromAltirra800, "Altirra OS"⟩]

def kOsXl : List RomChoice :=
  [⟨3, "1200XL AA00"⟩, ⟨4, "1200XL AA01"⟩, ⟨5, "600XL"⟩, ⟨6, "800XL rev2"⟩, ⟨7, "130XE rev3"⟩,
   ⟨8, "130XE rev3v4"⟩, ⟨9, "CC01 rev4"⟩, ⟨10, "XL rev3"⟩, ⟨11, "XEGS rev4"⟩, ⟨12, "Arabic 59"⟩,
   ⟨13, "Arabic 59a"⟩, ⟨21, "Custom XL"⟩, ⟨sysromAltirraXl, "Altirra OS"⟩]

def kOs5200 : List RomChoice :=
  [⟨14, "5200 BIOS"⟩, ⟨15, "5200 rev A"⟩, ⟨22, "Custom 5200"⟩, ⟨sysromAltirra5200, "Altirra OS"⟩]

def kBasic : List RomChoice :=
  [⟨16, "BASIC rev A"⟩, ⟨17, "BASIC rev B"⟩, ⟨18, "BASIC rev C"⟩, ⟨23, "Custom BASIC"⟩,
   ⟨sysromAltirraBasic, "Altirra BASIC"⟩]

def osChoicesForMachineType : Machine → List RomChoice
  | .atari800 => kOs800
  | .atari5200 => kOs5200
  | .xlxe => kOsXl

/-! ### The globals -/

/-- The settings that are on or off: `Atari800_disable_basic` (read the other way round),
`ESC_enable_sio_patch`, `RTIME_enabled`, `BINLOAD_slow_xex_loading`, `CARTRIDGE_autoreboot`,
`Sound_enabled`, `s_snd_stereo`, `POKEYSND_enable_new_pokey`, `POKEYSND_console_sound_enabled`,
`POKEYSND_bienias_fix` and the four indicators of the screen. -/
inductive Flag where
  | basic
  | sioPatch
  | rtime
  | slowBoot
  | cartReboot
  | sound
  | stereo
  | hifi
  | keyClick
  | bienias
  | ledDisk
  | ledSector
  | led1200
  | speed
  deriving DecidableEq, Repr

/-- The staged colour settings. -/
inductive Colour where
  | brightness
  | contrast
  | saturation
  | tint
  | gamma
  deriving DecidableEq

/-- `SIO_UnitStatus`. -/
inductive DriveStatus where
  | off
  | noDisk
  | readOnly
  | readWrite
  deriving DecidableEq, Repr

/-- One SIO drive: `SIO_drive_status` and `SIO_filename`. -/
structure Drive where
  status : DriveStatus
  filename : String

structure Core where
  machineType : Machine
  ramSize : Int
  builtinGame : Bool
  osVersions : Machine → Int
  basicVersion : Int
  artifMode : Int
  monitor : Int
  latency : Int
  flag : Flag → Bool
  colour : Colour → Int
  fkeyAction : Fin 6 → Int
  drives : Fin 8 → Drive
  /-- Which images have data or a file behind them. -/
  roms : Int → Bool
  basicPrefLoaded : Bool
  /-- `config_is_ready`: the core has been started. -/
  ready : Bool

/-- The globals as they are linked, before any file is read. -/
def Core.powerOn : Core where
  machineType := .xlxe
  ramSize := 64
  builtinGame := false
  osVersions := fun _ => sysromAuto
  basicVersion := sysromAuto
  artifMode := 0
  monitor := 0
  latency := 20
  flag
    | .basic | .slowBoot | .stereo | .ledSector | .speed => false
    | _ => true
  colour := fun _ => 1000
  fkeyAction := fun _ => 0
  drives := fun _ => ⟨.off, ""⟩
  roms id := decide (sysromAltirra800 ≤ id ∧ id ≤ sysromAltirraBasic)
  basicPrefLoaded := false
  ready := false

namespace Core

def setFlag (core : Core) (flag : Flag) (value : Bool) : Core :=
  { core with flag := Function.update core.flag flag value }

def setColour (core : Core) (colour : Colour) (value : Int) : Core :=
  { core with colour := Function.update core.colour colour value }

def setOsVersion (core : Core) (machine : Machine) (pref : Int) : Core :=
  { core with osVersions := Function.update core.osVersions machine pref }

def setFkeyAction (core : Core) (slot : Fin 6) (action : Int) : Core :=
  { core with fkeyAction := Function.update core.fkeyAction slot action }

def romAvailable (core : Core) (id : Int) : Bool :=
  if id < 0 ∨ id ≥ sysromSize then false else core.roms id

/-- An OS revision with nothing behind it, or of another machine, falls back to the automatic one. -/
def clampOsPrefFor (core : Core) (pref : Int) (machine : Machine) : Int :=
  if pref = sysromAuto then pref
  else if (osChoicesForMachineType machine).any fun choice => choice.id == pref && core.romAvailable pref
  then pref
  else sysromAuto

def clampOsPref (core : Core) (pref : Int) : Int :=
  core.clampOsPrefFor pref core.machineType

def clampBasicPref (core : Core) (pref : Int) : Int :=
  if pref = sysromAuto then pref
  else if kBasic.any fun choice => choice.id == pref && core.romAvailable pref then pref
  else if pref = sysromAltirraBasic then pref
  else sysromAuto

def clampAllRomPrefs (core : Core) : Core :=
  { core with
    osVersions := fun machine => core.clampOsPrefFor (core.osVersions machine) machine
    basicVersion := core.clampBasicPref core.basicVersion }

/-- `video_set_monitor`. -/
def setMonitor (core : Core) (mode : Int) : Core :=
  if mode < 0 ∨ mode > 3 then core else { core with monitor := mode }

end Core

/-! ### The emulator behind the globals -/

/-- What the core does when the bridge calls it. Nothing is assumed of these functions: they stand for
the files on the card, the ROM images and the sound sink. -/
structure Emulator where
  /-- `libatari800_init`, told whether `-basic` is among the arguments. -/
  init : Bool → Core → Core
  /-- The ROM slots that are filled after a scan of the pool, where there is a pool. -/
  findInDir : Option ((Int → Bool) → Int → Bool)
  /-- Whether the scan changed the OS or the BASIC that the machine would start with. -/
  choiceChanged : Core → Core → Bool
  /-- Whether `load_roms` leaves the flag of the built-in game alone. -/
  keepsGame : Core → Bool
  /-- `Sound_Setup`: the sound output could be opened. -/
  soundSetup : Core → Bool
  rotateDisks : (Fin 8 → Drive) → Fin 8 → Drive
  dismount : Fin 8 → (Fin 8 → Drive) → Fin 8 → Drive
  mount : Fin 8 → Bool → (Fin 8 → Drive) → Fin 8 → Drive

namespace Emulator

variable (emulator : Emulator)

/-- `Atari800_InitialiseMachine`: a built-in game without an image is switched off. -/
def initialiseMachine (core : Core) : Core :=
  { core with builtinGame := core.builtinGame && emulator.keepsGame core }

def reinitialiseMachine (core : Core) : Core :=
  if core.ready then emulator.initialiseMachine core else core

def applySubmodel (core : Core) (sub : Int) : Core :=
  match submodelAt sub with
  | none => core
  | some model =>
    emulator.reinitialiseMachine
      { core with machineType := model.type, ramSize := model.ram, builtinGame := model.game }

/-- The mixer is set up again, and `Sound_enabled` says whether its output opened. -/
def applySoundSetup (core : Core) : Core :=
  core.setFlag .sound (emulator.soundSetup core)

/-- The pool is scanned; the machine is set up again where the scan changed its choice. -/
def rescanRomPool (core : Core) : Core :=
  match emulator.findInDir with
  | none => core
  | some find =>
    let scanned := { core with roms := find core.roms }
    if emulator.choiceChanged core scanned then emulator.initialiseMachine scanned else scanned

/-- The start of the emulator: `config_init`, then `sound_init`. BASIC is switched on unless the
settings file named it. -/
def start (core : Core) : Core :=
  let initialised := emulator.init (!core.basicPrefLoaded) core
  emulator.applySoundSetup (emulator.rescanRomPool { initialised with ready := true }).clampAllRomPrefs

/-- A built-in game that setting the machine up again would switch off. -/
def losesGame (core : Core) : Bool :=
  core.ready && core.builtinGame && !emulator.keepsGame core

end Emulator

end Bmx.Atari
