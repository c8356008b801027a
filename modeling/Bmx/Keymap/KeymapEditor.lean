import Bmx.Base.Bytes

/-!
# The keymap editor

A model has the keys of the emulated machine as targets, and bindings of host keys to them. A binding refers to its target
by value.
-/

namespace Bmx.Keymap

def maxBindings : Nat := 192
def maxTargets : Nat := 128
def maxUndefKeys : Nat := 160

/-! ### Flags -/

def virtualShift : Int32 := 1
def leftShift : Int32 := 2
def rightShift : Int32 := 4
def allowShift : Int32 := 8
def deshift : Int32 := 16
def allowOther : Int32 := 32
def shiftLock : Int32 := 64
def mapModShift : Int32 := 128
def altMap : Int32 := 256
def mapModRightAlt : Int32 := 512
def mapModCtrl : Int32 := 1024
def virtualCbm : Int32 := 2048
def virtualCtrl : Int32 := 4096
def leftCbm : Int32 := 8192
def leftCtrl : Int32 := 16384
def noLock : Int32 := 32768

def hostFlagMask : Int32 := mapModShift ||| altMap ||| mapModRightAlt ||| mapModCtrl

/-- The flags that change the logical key. -/
def virtualFlags : Int32 := virtualShift ||| virtualCbm ||| virtualCtrl

def normalizedTargetFlags (flags : Int32) : Int32 := flags &&& virtualFlags

def targetMappingFlags (flags : Int32) : Int32 := flags &&& ~~~(allowOther ||| hostFlagMask)

def sourceFlags (flags : Int32) : Int32 := flags &&& hostFlagMask

/-! ### The model -/

/-- `keymap_editor_binding` -/
structure EditorBinding where
  keycode : Int
  row : Int32
  column : Int32
  flags : Int32
  deriving DecidableEq

/-- `keymap_editor_target` -/
structure EditorTarget where
  row : Int32
  column : Int32
  flags : Int32
  mappingFlags : Int32
  deriving DecidableEq

/-- `keymap_editor_model` -/
structure EditorModel where
  bindings : List EditorBinding := []
  targets : List EditorTarget := []
  undefKeys : List Int := []
  deriving DecidableEq

/-- `keymap_editor_target_equals` -/
def targetEquals (a b : EditorTarget) : Bool := a.row = b.row ∧ a.column = b.column ∧ a.flags = b.flags

def targetForBinding (binding : EditorBinding) : EditorTarget where
  row := binding.row
  column := binding.column
  flags := normalizedTargetFlags binding.flags
  mappingFlags := targetMappingFlags binding.flags

/-- `keymap_editor_binding_targets` -/
def bindingTargets (binding : EditorBinding) (target : EditorTarget) : Bool :=
  targetEquals (targetForBinding binding) target

def targetListContains (targets : List EditorTarget) (target : EditorTarget) : Bool :=
  targets.any fun other => targetEquals other target

/-- `keymap_editor_model_add_target` -/
def addTarget (model : EditorModel) (row column flags : Int32) : EditorModel × Bool :=
  let target : EditorTarget :=
    { row := row, column := column, flags := normalizedTargetFlags flags, mappingFlags := targetMappingFlags flags }
  if targetListContains model.targets target then (model, true)
  else if model.targets.length ≥ maxTargets then (model, false)
  else ({ model with targets := model.targets ++ [target] }, true)

def appendUndefKey (model : EditorModel) (keycode : Int) : EditorModel × Bool :=
  if keycode ∈ model.undefKeys then (model, true)
  else if model.undefKeys.length ≥ maxUndefKeys then (model, false)
  else ({ model with undefKeys := model.undefKeys ++ [keycode] }, true)

/-- The loop of `keymap_editor_model_init`. It returns where a binding is refused, with what the model has by then. -/
def initBindings (model : EditorModel) : List EditorBinding → EditorModel × Bool
  | [] => (model, true)
  | binding :: rest =>
    if binding.keycode ≤ 0 then (model, false)
    else
      match appendUndefKey model binding.keycode with
      | (model, false) => (model, false)
      | (model, true) =>
        match addTarget { model with bindings := model.bindings ++ [binding] } binding.row binding.column binding.flags with
        | (model, false) => (model, false)
        | (model, true) => initBindings model rest

/-- `keymap_editor_model_init`. A null pointer with a count is `none`. -/
def modelInit (model : EditorModel) (bindings : Option (List EditorBinding)) : EditorModel × Bool :=
  match bindings with
  | none => (model, false)
  | some bindings => if bindings.length > maxBindings then (model, false) else initBindings {} bindings

/-! ### The order of the targets -/

def targetSortBefore (a b : EditorTarget) : Bool :=
  if a.flags ≠ b.flags then a.flags < b.flags
  else if a.row ≠ b.row then a.row < b.row
  else if a.column ≠ b.column then a.column < b.column
  else a.mappingFlags < b.mappingFlags

def targetIntrinsicMappingFlags (flags : Int32) : Int32 :=
  flags &&& (leftShift ||| rightShift ||| shiftLock ||| leftCbm ||| leftCtrl ||| noLock)

/-- The target of a catalog entry: a real modifier keeps the behaviour that it has in the model. -/
def catalogTarget (original : List EditorTarget) (entry : EditorTarget) : EditorTarget :=
  let target : EditorTarget :=
    { entry with flags := normalizedTargetFlags entry.flags, mappingFlags := targetMappingFlags entry.mappingFlags }
  match original.find? fun existing => targetEquals existing target with
  | none => target
  | some existing =>
    if target.flags &&& virtualFlags = 0 ∧ targetIntrinsicMappingFlags existing.mappingFlags ≠ 0 then
      { target with mappingFlags := existing.mappingFlags &&& ~~~deshift }
    else target

/-- The loop over the catalog. -/
def orderCatalog (original ordered : List EditorTarget) : List EditorTarget → Option (List EditorTarget)
  | [] => some ordered
  | entry :: rest =>
    let target := catalogTarget original entry
    if targetListContains ordered target then orderCatalog original ordered rest
    else if ordered.length ≥ maxTargets then none
    else orderCatalog original (ordered ++ [target]) rest

def bestTarget (ordered : List EditorTarget) (best : Option EditorTarget) : List EditorTarget → Option EditorTarget
  | [] => best
  | target :: rest =>
    if targetListContains ordered target then bestTarget ordered best rest
    else if best.all fun other => targetSortBefore target other then bestTarget ordered (some target) rest
    else bestTarget ordered best rest

/-- The loop over the targets that the catalog does not have, with the room that is left for them. -/
def orderRest (original : List EditorTarget) : Nat → List EditorTarget → Option (List EditorTarget)
  | room, ordered =>
    match bestTarget ordered none original with
    | none => some ordered
    | some best =>
      match room with
      | 0 => none
      | room + 1 => orderRest original room (ordered ++ [best])

/-- `keymap_editor_model_order_targets`. A null pointer with a count is `none`. -/
def orderTargets (model : EditorModel) (catalog : Option (List EditorTarget)) : EditorModel × Bool :=
  match catalog with
  | none => (model, false)
  | some catalog =>
    if catalog.length > maxTargets then (model, false)
    else
      match orderCatalog model.targets [] catalog with
      | none => (model, false)
      | some ordered =>
        match orderRest model.targets (maxTargets - ordered.length) ordered with
        | none => (model, false)
        | some ordered => ({ model with targets := ordered }, true)

/-! ### Bindings -/

/-- The loop of `target_binding_model_index`, from a binding on. -/
def targetBindingFrom (target : EditorTarget) (bindingIndex : Nat) : Nat → Nat → List EditorBinding → Nat
  | _, i, [] => i
  | found, i, binding :: rest =>
    if bindingTargets binding target then
      if found = bindingIndex then i else targetBindingFrom target bindingIndex (found + 1) (i + 1) rest
    else targetBindingFrom target bindingIndex found (i + 1) rest

/-- `target_binding_model_index` of a target of the model. -/
def targetBindingModelIndex (model : EditorModel) (target : EditorTarget) (bindingIndex : Nat) : Nat :=
  targetBindingFrom target bindingIndex 0 0 model.bindings

def bindingSourceEquals (keycode : Int) (hostFlags : Int32) (binding : EditorBinding) : Bool :=
  binding.keycode = keycode ∧ sourceFlags binding.flags = hostFlags

def makeBinding (target : EditorTarget) (keycode : Int) (hostFlags : Int32) : EditorBinding where
  keycode := keycode
  row := target.row
  column := target.column
  flags :=
    let flags := target.mappingFlags
    if hostFlags &&& mapModShift ≠ 0 ∧ target.flags &&& virtualShift = 0 ∧
        flags &&& (leftShift ||| rightShift ||| shiftLock) = 0 then
      ((flags &&& ~~~allowShift) ||| deshift) ||| hostFlags
    else flags ||| hostFlags

/-- The loop that removes bindings: those before the index are kept. -/
def removeBindings (removed : EditorBinding → Bool) (kept : List EditorBinding) : List EditorBinding → List EditorBinding
  | [] => kept
  | binding :: rest =>
    if removed binding then removeBindings removed kept rest else removeBindings removed (kept ++ [binding]) rest

/-- The bindings that a call is going to remove are counted, and there has to be room for one after that. -/
def hasRoom (removed : EditorBinding → Bool) (bindings : List EditorBinding) : Bool :=
  bindings.length - bindings.countP removed < maxBindings

/-- The arguments that bind a key. -/
def bindable (keycode : Int) (hostFlags : Int32) : Bool := 0 < keycode ∧ hostFlags &&& ~~~hostFlagMask = 0

/-- What `keymap_editor_add_binding` and `keymap_editor_assign` do: remove bindings and add one. -/
def rebind (removed : EditorTarget → EditorBinding → Bool) (model : EditorModel) (targetIndex : Nat) (keycode : Int)
    (hostFlags : Int32) : EditorModel × Bool :=
  match model.targets[targetIndex]? with
  | none => (model, false)
  | some target =>
    if !bindable keycode hostFlags || !hasRoom (removed target) model.bindings then (model, false)
    else
      match appendUndefKey model keycode with
      | (model, false) => (model, false)
      | (model, true) =>
        let bindings := removeBindings (removed target) [] model.bindings
        ({ model with bindings := bindings ++ [makeBinding target keycode hostFlags] }, true)

/-- `keymap_editor_add_binding` -/
def addBinding (model : EditorModel) (targetIndex : Nat) (keycode : Int) (hostFlags : Int32) : EditorModel × Bool :=
  rebind (fun _ => bindingSourceEquals keycode hostFlags) model targetIndex keycode hostFlags

/-- `keymap_editor_assign` -/
def assign (model : EditorModel) (targetIndex : Nat) (keycode : Int) (hostFlags : Int32) : EditorModel × Bool :=
  rebind (fun target binding => bindingTargets binding target || bindingSourceEquals keycode hostFlags binding)
    model targetIndex keycode hostFlags

/-- The loop of `keymap_editor_replace_binding`: the index of the selected binding goes down with each one before it. -/
def replaceLoop (removed : EditorBinding → Bool) (selected : Nat) (kept : List EditorBinding) :
    List EditorBinding → List EditorBinding × Nat
  | [] => (kept, selected)
  | binding :: rest =>
    if kept.length ≠ selected ∧ removed binding then
      replaceLoop removed (if kept.length < selected then selected - 1 else selected) kept rest
    else replaceLoop removed selected (kept ++ [binding]) rest

/-- `keymap_editor_replace_binding` -/
def replaceBinding (model : EditorModel) (targetIndex bindingIndex : Nat) (keycode : Int) (hostFlags : Int32) :
    EditorModel × Bool :=
  match model.targets[targetIndex]? with
  | none => (model, false)
  | some target =>
    let selected := targetBindingModelIndex model target bindingIndex
    if !bindable keycode hostFlags || selected ≥ model.bindings.length then (model, false)
    else
      match appendUndefKey model keycode with
      | (model, false) => (model, false)
      | (model, true) =>
        let (bindings, selected) := replaceLoop (bindingSourceEquals keycode hostFlags) selected [] model.bindings
        ({ model with bindings := bindings.set selected (makeBinding target keycode hostFlags) }, true)

/-- `keymap_editor_remove_binding` -/
def removeBinding (model : EditorModel) (targetIndex bindingIndex : Nat) : EditorModel × Bool :=
  match model.targets[targetIndex]? with
  | none => (model, false)
  | some target =>
    let index := targetBindingModelIndex model target bindingIndex
    if index ≥ model.bindings.length then (model, false)
    else ({ model with bindings := model.bindings.eraseIdx index }, true)

/-- `keymap_editor_clear`. It fails if it has removed none. -/
def clearTarget (model : EditorModel) (targetIndex : Nat) : EditorModel × Bool :=
  match model.targets[targetIndex]? with
  | none => (model, false)
  | some target =>
    ({ model with bindings := removeBindings (fun binding => bindingTargets binding target) [] model.bindings },
      model.bindings.any fun binding => bindingTargets binding target)

/-! ### Calls -/

inductive EditorCall
  | init (bindings : Option (List EditorBinding))
  | addTarget (row column flags : Int32)
  | orderTargets (catalog : Option (List EditorTarget))
  | add (targetIndex : Nat) (keycode : Int) (hostFlags : Int32)
  | replace (targetIndex bindingIndex : Nat) (keycode : Int) (hostFlags : Int32)
  | assign (targetIndex : Nat) (keycode : Int) (hostFlags : Int32)
  | remove (targetIndex bindingIndex : Nat)
  | clear (targetIndex : Nat)

def EditorCall.run (model : EditorModel) : EditorCall → EditorModel × Bool
  | .init bindings => modelInit model bindings
  | .addTarget row column flags => Keymap.addTarget model row column flags
  | .orderTargets catalog => Keymap.orderTargets model catalog
  | .add targetIndex keycode hostFlags => addBinding model targetIndex keycode hostFlags
  | .replace targetIndex bindingIndex keycode hostFlags => replaceBinding model targetIndex bindingIndex keycode hostFlags
  | .assign targetIndex keycode hostFlags => Keymap.assign model targetIndex keycode hostFlags
  | .remove targetIndex bindingIndex => removeBinding model targetIndex bindingIndex
  | .clear targetIndex => clearTarget model targetIndex

def runCalls (model : EditorModel) (calls : List EditorCall) : EditorModel :=
  calls.foldl (fun model call => (call.run model).1) model

end Bmx.Keymap
