import Bmx.Base.Words
import Bmx.Base.Bytes

/-!
# The boot plan

What a change of the machine or of the settings wants in the boot files: the lines of the managed block of
config.txt, and the options of cmdline.txt with the keys that are managed there.
-/

namespace Bmx.Switch

def configTxtLineLen : Nat := 1024
def keyLen : Nat := 32
def valueLen : Nat := 192
def maxManagedCmdlineKeys : Nat := 64
def configBlockLen : Nat := 2048

def equals : UInt8 := 61
def space : UInt8 := 32

/-- `isspace` of the C locale. -/
def isSpace (c : UInt8) : Bool := c = 32 ∨ (9 ≤ c ∧ c ≤ 13)

/-- `isalnum` of the C locale. -/
def isAlnum (c : UInt8) : Bool := (48 ≤ c ∧ c ≤ 57) ∨ (65 ≤ c ∧ c ≤ 90) ∨ (97 ≤ c ∧ c ≤ 122)

def isOptionEnd (c : UInt8) : Bool := c = 32 ∨ c = 9 ∨ c = 13 ∨ c = 10

/-- `append_format`: a text is added to the one in a buffer. -/
def appendFormat (size : Nat) (destination text : Bytes) : Option Bytes :=
  if destination.length + text.length < size then some (destination ++ text) else none

def validIdentifier (identifier : Bytes) : Bool :=
  identifier ≠ [] ∧ identifier.all fun c => isAlnum c || c = 45 || c = 95 || c = 46

structure BootPlan where
  configOptions : Bytes := []
  cmdlineOptions : Bytes := []
  managedCmdlineKeys : List Bytes := []

namespace BootPlan

/-- `bmx_boot_plan_manage_cmdline_key` -/
def manageCmdlineKey (key : Bytes) (plan : BootPlan) : Option BootPlan :=
  if ¬ validIdentifier key ∨ key.length ≥ keyLen then none
  else if key ∈ plan.managedCmdlineKeys then some plan
  else if plan.managedCmdlineKeys.length ≥ maxManagedCmdlineKeys then none
  else some { plan with managedCmdlineKeys := plan.managedCmdlineKeys ++ [key] }

/-- `bmx_boot_plan_set_cmdline_option` -/
def setCmdlineOption (key value : Bytes) (plan : BootPlan) : Option BootPlan := do
  if value = [] ∨ value.any isOptionEnd then none
  else
    let plan ← plan.manageCmdlineKey key
    let options ← appendFormat configTxtLineLen plan.cmdlineOptions
      ((if plan.cmdlineOptions = [] then [] else [space]) ++ key ++ equals :: value)
    return { plan with cmdlineOptions := options }

/-- `boot_plan_add_config_option` -/
def addConfigOption (key value : Bytes) (plan : BootPlan) : Option BootPlan := do
  if key = [] ∨ value = [] ∨ value.any (fun c => c = 13 || c = 10) then none
  else if ¬ key.all fun c => isAlnum c || c = 95 || c = 45 || c = 46 || c = 58 then none
  else
    let options ← appendFormat configBlockLen plan.configOptions (key ++ equals :: (value ++ [lf]))
    return { plan with configOptions := options }

def activeKernelSelector : Bytes := ascii "bmx-active-kernel.txt"

/-- The last step of `boot_plan_add_kernel_selection`. -/
def addInclude (plan : BootPlan) : Option BootPlan := do
  let options ← appendFormat configBlockLen plan.configOptions (ascii "include " ++ (activeKernelSelector ++ [lf]))
  return { plan with configOptions := options }

/-- The plans that are built: every step succeeds, the others end the change. What is passed is a C string, and the
keys and values of config.txt come from arrays of at most `valueLen` characters. -/
inductive Built : BootPlan → Prop
  | init : Built {}
  | manage {plan plan' : BootPlan} {key : Bytes} (hplan : Built plan) (hstep : plan.manageCmdlineKey key = some plan') :
      Built plan'
  | set {plan plan' : BootPlan} {key value : Bytes} (hplan : Built plan) (hvalue : 0 ∉ value)
      (hstep : plan.setCmdlineOption key value = some plan') : Built plan'
  | config {plan plan' : BootPlan} {key value : Bytes} (hplan : Built plan) (hkey : key.length < valueLen)
      (hvalue : 0 ∉ value ∧ value.length < valueLen) (hstep : plan.addConfigOption key value = some plan') : Built plan'
  | selector {plan plan' : BootPlan} (hplan : Built plan) (hstep : plan.addInclude = some plan') : Built plan'

end BootPlan

end Bmx.Switch
