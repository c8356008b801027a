import Bmx.Base.Bytes
import Bmx.Menu.MenuItem

/-!
# Public control of the menu

An emulator registers a table of keys for items of its menu. The items are listed page by page, described and set through
their keys, whatever place they have in the menu.
-/

namespace Bmx.MenuControl

open Menu (MenuItem MenuItemType maxChoices)

/-! ### Items -/

def maxMenuStr : Nat := 36
def maxStrValLen : Nat := 256
def maxFnName : Nat := 20

def menuIdDoNothing : Int := -1
def menuText : Int := 104
def menuNetworkWifiPsk : Int := 488
def menuSystemDeveloperPassword : Int := 502
def menuSystemApiPassword : Int := 507

/-- An item, as far as it is described. -/
structure ControlItem extends MenuItem where
  id : Int
  subId : Int := 0
  name : Bytes := []
  divisor : Int32 := 0
  choices : Fin maxChoices → Bytes := fun _ => []
  maxTextLen : Int32 := 0

/-- The items that are reached through `first_child` and `next`. -/
inductive ControlTree
  | nil
  | node (item : ControlItem) (firstChild next : ControlTree)

def isFunctionalItem (item : ControlItem) : Bool :=
  item.id ≠ menuIdDoNothing ∧ item.id ≠ menuText ∧ item.type ≠ .folder ∧ item.type ≠ .divider

def isSecret (id : Int) : Bool :=
  id = menuNetworkWifiPsk ∨ id = menuSystemDeveloperPassword ∨ id = menuSystemApiPassword

/-- `MENU_CONTROL_SUB_ID_ANY` -/
def subIdAny : Int := -1

def isItem (id subId : Int) (item : ControlItem) : Bool :=
  item.id = id ∧ (subId = subIdAny ∨ item.subId = subId) ∧ isFunctionalItem item

def findItemIn (id subId : Int) : ControlTree → Option ControlItem
  | .nil => none
  | .node item firstChild next =>
    if isItem id subId item then some item
    else if item.type = .folder then (findItemIn id subId firstChild).or (findItemIn id subId next)
    else findItemIn id subId next

/-- The item that is found is written through its pointer. -/
def writeItemIn (id subId : Int) (new : ControlItem) : ControlTree → ControlTree
  | .nil => .nil
  | .node item firstChild next =>
    if isItem id subId item then .node new firstChild next
    else if item.type = .folder ∧ (findItemIn id subId firstChild).isSome then
      .node item (writeItemIn id subId new firstChild) next
    else .node item firstChild (writeItemIn id subId new next)

/-! ### Bindings -/

def keySize : Nat := 64
def pageMax : Nat := 16

/-- `menu_control_public_binding`. A null key is given as an empty one. -/
structure Binding where
  key : Bytes
  id : Int
  subId : Int
  kind : Int
  argument : Int

def publicControl : Int := 0
def publicAction : Int := 1
def actionNone : Int := 0
def actionMediaPath : Int := 1

def isPublicKey (key : Bytes) : Bool :=
  key ≠ [] ∧ key.length < keySize ∧ key.all fun c => (97 ≤ c ∧ c ≤ 122) ∨ (48 ≤ c ∧ c ≤ 57) ∨ c = 46

def bindingRefused (binding : Binding) : Bool :=
  !isPublicKey binding.key || (binding.subId < 0 ∧ binding.subId ≠ subIdAny) ||
    (binding.kind ≠ publicControl ∧ binding.kind ≠ publicAction) ||
    (binding.kind = publicControl ∧ binding.argument ≠ actionNone) ||
    (binding.argument ≠ actionNone ∧ binding.argument ≠ actionMediaPath)

/-- The loop of `menu_control_public_set_bindings`. -/
def bindingsAccepted (previous : List Binding) : List Binding → Bool
  | [] => true
  | binding :: rest =>
    !bindingRefused binding && !(previous.any fun other => other.key = binding.key) &&
      bindingsAccepted (previous ++ [binding]) rest

/-- `menu_control_public_set_bindings` -/
def publicSetBindings (bindings : List Binding) : Bool := bindingsAccepted [] bindings

def findPublicBinding (bindings : List Binding) (key : Bytes) (kind : Int) : Option Binding :=
  if key = [] then none else bindings.find? fun binding => binding.kind = kind ∧ binding.key = key

/-! ### Descriptions -/

inductive ControlStatus
  | ok | notFound | hidden | disabled | wrongType | invalidValue | unavailable
  deriving DecidableEq

/-- `menu_control_value` -/
inductive ControlValue
  | none
  | bool (integer : Int32)
  | integer (integer : Int32)
  | string (string : Bytes)

structure ControlChoice where
  label : Bytes
  value : Int32
  disabled : Bool

structure Description where
  key : Bytes := []
  name : Bytes
  id : Int
  subId : Int
  type : MenuItemType
  hidden : Bool
  disabled : Bool
  redacted : Bool
  min : Int32
  max : Int32
  step : Int32
  divisor : Int32
  choices : List ControlChoice
  value : ControlValue

/-- `copy_text` into a buffer of a size. -/
def copyText (size : Nat) (text : Bytes) : Bytes := text.take (size - 1)

def readValue (item : ControlItem) (redacted : Bool) : ControlValue :=
  if redacted then .string []
  else
    match item.type with
    | .toggle | .checkbox => .bool (if item.value ≠ 0 then 1 else 0)
    | .multipleChoice | .range => .integer item.value
    | .textField => .string (copyText maxStrValLen item.strValue)
    | _ => .none

/-- How many choices are described. -/
def choiceCount (item : ControlItem) : Nat :=
  if item.type = .multipleChoice then Nat.min item.numChoices.toInt.toNat maxChoices else 0

def describeItem (item : ControlItem) : Description where
  name := copyText maxMenuStr item.name
  id := item.id
  subId := item.subId
  type := item.type
  hidden := item.hidden
  disabled := item.disabled
  redacted := isSecret item.id
  min := item.min
  max := item.max
  step := item.step
  divisor := item.divisor
  choices := ((List.finRange maxChoices).take (choiceCount item)).map fun i =>
    { label := copyText maxMenuStr (item.choices i), value := item.choiceInts i, disabled := item.choiceDisabled i }
  value := readValue item (isSecret item.id)

/-- `public_describe_binding`. The only error it has left is that no item is found. -/
def publicDescribeBinding (tree : ControlTree) (binding : Binding) : Option Description :=
  (findItemIn binding.id binding.subId tree).map fun item =>
    { describeItem item with key := copyText keySize binding.key }

/-! ### Pages -/

structure Summary where
  key : Bytes
  name : Bytes
  type : MenuItemType
  hidden : Bool
  disabled : Bool
  redacted : Bool
  value : ControlValue

def Description.summary (description : Description) : Summary where
  key := copyText keySize description.key
  name := copyText maxMenuStr description.name
  type := description.type
  hidden := description.hidden
  disabled := description.disabled
  redacted := description.redacted
  value := description.value

structure Page where
  controls : List Summary := []
  hasMore : Bool := false

/-- The loop of `public_list_bindings`: whether the key was seen, and the page. -/
def listBindings (tree : ControlTree) (kind : Int) (after : Bytes) (limit : Nat) : Bool → Page → List Binding → Bool × Page
  | afterSeen, page, [] => (afterSeen, page)
  | afterSeen, page, binding :: rest =>
    if binding.kind ≠ kind then listBindings tree kind after limit afterSeen page rest
    else if !afterSeen then listBindings tree kind after limit (binding.key = after) page rest
    else
      match publicDescribeBinding tree binding with
      | none => listBindings tree kind after limit afterSeen page rest
      | some description =>
        if page.controls.length ≥ limit then (afterSeen, { page with hasMore := true })
        else
          listBindings tree kind after limit afterSeen
            { page with controls := page.controls ++ [description.summary] } rest

/-- `public_list_bindings`. A null key is given as an empty one, and a menu without a root as `none`. -/
def publicListBindings (tree : Option ControlTree) (bindings : List Binding) (kind : Int) (after : Bytes) (limit : Nat) :
    Except ControlStatus Page :=
  match tree with
  | none => .error .unavailable
  | some tree =>
    if limit = 0 ∨ limit > pageMax then .error .invalidValue
    else
      let (afterSeen, page) := listBindings tree kind after limit (after = []) {} bindings
      if !afterSeen then .error .notFound else .ok page

/-! ### Setting an item -/

/-- The menu and what else handlers change, with the items that were committed. -/
structure ControlWorld (σ : Type) where
  tree : ControlTree
  rest : σ
  committed : List ControlItem := []

/-- The handler of an item: its own or that of all items. It leaves the menu and the item as it likes. -/
abbrev Handlers (σ : Type) := ControlItem → Option (ControlTree × σ → (ControlTree × σ) × ControlItem)

def uiMenuCommit {σ : Type} (handlers : Handlers σ) (world : ControlWorld σ) (item : ControlItem) :
    ControlWorld σ × ControlItem :=
  match handlers item with
  | none => ({ world with committed := world.committed ++ [item] }, item)
  | some handler =>
    let ((tree, rest), item') := handler (world.tree, world.rest)
    ({ tree := tree, rest := rest, committed := world.committed ++ [item] }, item')

/-- The length that a text may have. -/
def textMaximum (item : ControlItem) : Nat := if item.maxTextLen > 0 then item.maxTextLen.toInt.toNat else maxFnName

/-- What `set_item` stores, if it takes the value. -/
def storeValue (item : ControlItem) (value : ControlValue) : Except ControlStatus ControlItem :=
  match item.type with
  | .toggle | .checkbox =>
    match value with
    | .bool integer =>
      if integer ≠ 0 ∧ integer ≠ 1 then .error .invalidValue
      else .ok { item with value := integer }
    | _ => .error .invalidValue
  | .range =>
    match value with
    | .integer integer =>
      if integer < item.min ∨ integer > item.max ∨
          (item.step > 0 ∧ (integer - item.min) % item.step ≠ 0) then .error .invalidValue
      else .ok { item with value := integer }
    | _ => .error .invalidValue
  | .multipleChoice =>
    match value with
    | .integer integer =>
      if integer < 0 ∨ integer ≥ item.numChoices ∨ item.choiceDisabledAt integer then .error .invalidValue
      else .ok { item with value := integer }
    | _ => .error .invalidValue
  | .textField =>
    match value with
    | .string string =>
      if string.length > textMaximum item ∨ string.length ≥ maxStrValLen then .error .invalidValue
      else .ok { item with strValue := string, value := Int32.ofNat string.length }
    | _ => .error .invalidValue
  | _ => .error .wrongType

/-- `set_item` of the item that a binding is for. If the value or the description is null, it is given as `none`. -/
def setItem {σ : Type} (handlers : Handlers σ) (world : ControlWorld σ) (id subId : Int) (value : Option ControlValue) :
    Except ControlStatus (ControlWorld σ × Description) :=
  match findItemIn id subId world.tree with
  | none => .error .notFound
  | some item =>
    if item.hidden then .error .hidden
    else if item.disabled then .error .disabled
    else
      match value with
      | none => .error .invalidValue
      | some value =>
        match storeValue item value with
        | .error status => .error status
        | .ok stored =>
          let (world, item) := uiMenuCommit handlers { world with tree := writeItemIn id subId stored world.tree } stored
          .ok (world, describeItem item)

/-- `menu_control_public_set`: the status, the menu and the description. An error leaves the menu as it is. -/
def publicSet {σ : Type} (handlers : Handlers σ) (bindings : List Binding) (world : ControlWorld σ) (key : Bytes)
    (value : Option ControlValue) : ControlStatus × ControlWorld σ × Option Description :=
  match findPublicBinding bindings key publicControl with
  | none => (.notFound, world, none)
  | some binding =>
    match setItem handlers world binding.id binding.subId value with
    | .error status => (status, world, none)
    | .ok (world, description) =>
      (.ok, world, some { description with key := copyText keySize binding.key })

end Bmx.MenuControl
