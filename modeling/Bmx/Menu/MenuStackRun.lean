import Bmx.Menu.MenuStack

/-!
# What happens to the menus

The keys, the mouse and the code of the menus act one after another. Where the source calls a handler and goes
on afterwards, a frame keeps what is left to do. What the handler does lies between, and it may be anything.
-/

namespace Bmx.Menu

inductive Notice
  | poppedOff | poppedTo
  deriving DecidableEq

/-- A pop: the menu with the items it held, the handlers that ask for it, and the calls it made. -/
structure PopRecord (F : Type) where
  menu : Int
  tree : Items
  poppedOff : Option F
  poppedTo : Option F := none
  called : List (Notice × Option F) := []

/-- What is left to do once a handler has returned. -/
inductive Frame (F : Type)
  | poppedOff (record : PopRecord F)
  | notify (record : PopRecord F)
  | poppedTo (record : PopRecord F)
  | popAll (mayClose : Bool)
  | leave (down : Bool) (menu : Int)
  | hover (menu row : Int)

def Frame.record? {F : Type} : Frame F → Option (PopRecord F)
  | .poppedOff record | .notify record | .poppedTo record => some record
  | _ => none

/-- The keys that act on the item under the cursor. -/
inductive ItemKey
  | left (fine : Bool)
  | right (fine : Bool)
  | returnKey

def ItemKey.act : ItemKey → MenuItem → Option (Bool × MenuItem)
  | .left fine, item => item.actionLeft fine
  | .right fine, item => item.actionRight fine
  | .returnKey, item => item.actionReturn

/-- What comes next. `menu_before_ui_close` decides whether the menu may close. -/
inductive Op (F : Type)
  | push (hChars gap : Int)
  | pop
  | add (parent : Menus.Parent) (item : MenuItem)
  | addAll (n : Nat) (parent : Menus.Parent)
  | onPoppedOff (m : Int) (handler : Option F)
  | onPoppedTo (m : Int) (handler : Option F)
  | change (id : ItemId) (f : MenuItem → MenuItem)
  | scroll (m cursor top bottom : Int)
  | setCurPos (pos : Int)
  | osd (active : Bool)
  | traverse
  | render (m : Int)
  | move (down : Bool)
  | key (key : ItemKey)
  | escape (mayClose : Bool)
  | exit (mayClose : Bool)
  | hover (row : Int)
  | leftPress
  | drag (speed : DragSpeed) (event : MouseEvent)
  | resetDrag
  | resume

structure StackRun (F : Type) where
  menus : Menus F := {}
  frames : List (Frame F) := []
  pops : List (PopRecord F) := []

namespace StackRun

variable {F : Type}

/-- The pops, with those that are not over. -/
def begun (c : StackRun F) : List (PopRecord F) := c.frames.filterMap Frame.record? ++ c.pops

/-- `ui_toggle`. -/
def toggle (mayClose : Bool) (s : Menus F) : Menus F :=
  if s.uiEnabled ∧ !mayClose then s else { s with uiEnabled := !s.uiEnabled }

/-- `ui_pop_menu`, up to the handler of the menu that is popped. -/
def popMenu (c : StackRun F) : StackRun F :=
  let m := c.menus.currentMenu
  if m ≤ 0 then c
  else
    let handler := (c.menus.roots (.menu m)).onPoppedOff
    let record := { menu := m, tree := c.menus.tree (.menu m), poppedOff := handler }
    let frame :=
      match handler with
      | some handler => .poppedOff { record with called := [(.poppedOff, some handler)] }
      | none => .notify record
    { c with menus := c.menus.closeMenu, frames := frame :: c.frames }

/-- `ui_pop_menu`, from the handler of the menu that shows again on. It looks at one menu, and calls another's. -/
def notifyPoppedTo (record : PopRecord F) (c : StackRun F) : StackRun F :=
  let record := { record with poppedTo := (c.menus.roots (.menu (record.menu - 1))).onPoppedTo }
  match (c.menus.roots (.menu c.menus.currentMenu)).onPoppedTo with
  | some _ =>
    let callee := (c.menus.roots (.menu record.menu)).onPoppedTo
    { c with frames := .poppedTo { record with called := record.called ++ [(.poppedTo, callee)] } :: c.frames }
  | none => { c with pops := c.pops ++ [record] }

def moveCursor (down : Bool) (s : Menus F) : Menus F := if down then s.cursorDown else s.cursorUp

/-- `ACTION_Up` and `ACTION_Down`. A text is committed before the cursor leaves it. -/
def move (down : Bool) (c : StackRun F) : StackRun F :=
  match c.menus.cursorNode with
  | some item =>
    if item.type = .textField ∧ !item.disabled then
      { c with frames := .leave down c.menus.currentMenu :: c.frames }
    else { c with menus := moveCursor down c.menus }
  | none => { c with menus := moveCursor down c.menus }

/-- A key on the item under the cursor. Its handler is among what follows. -/
def itemKey (key : ItemKey) (c : StackRun F) : Option (StackRun F) := do
  let item ← c.menus.cursorNode
  let answer ← key.act item.toMenuItem
  return { c with menus := c.menus.changeItem item.id fun _ => answer.2 }

/-- `ui_menu_mouse_focus_index`, past the text that is left. -/
def focus (row : Int) (s : Menus F) : Menus F :=
  { s with menuCursor := Function.update s.menuCursor s.currentMenu row }.traverse s.currentMenu

/-- `ui_menu_mouse_hovered_item`, with the pointer on a row of the menu. -/
def hover (row : Int) (c : StackRun F) : StackRun F :=
  let m := c.menus.currentMenu
  let s := c.menus.traverse m
  if row < s.menuWindowTop m ∨ row ≥ s.menuWindowBottom m ∨ row ≥ s.maxIndex m then { c with menus := s }
  else
    match (s.tree (.menu m)).findIndex row with
    | none => { c with menus := s }
    | some _ =>
      if s.menuCursor m = row then { c with menus := s }
      else
        match s.cursorNode with
        | some item =>
          if item.type = .textField ∧ !item.disabled then
            { c with menus := s, frames := .hover m row :: c.frames }
          else { c with menus := focus row s }
        | none => { c with menus := focus row s }

/-- A handler returns, or what runs without one goes on. -/
def resume (c : StackRun F) : Option (StackRun F) :=
  match c.frames with
  | [] => none
  | .poppedOff record :: frames => some { c with frames := .notify record :: frames }
  | .notify record :: frames => some ({ c with frames := frames }.notifyPoppedTo record)
  | .poppedTo record :: frames => some { c with frames := frames, pops := c.pops ++ [record] }
  | .popAll mayClose :: frames =>
    if c.menus.currentMenu > 0 then some c.popMenu
    else some { c with menus := toggle mayClose c.menus, frames := frames }
  | .leave down m :: frames =>
    if c.menus.currentMenu = m then some { c with menus := moveCursor down c.menus, frames := frames }
    else some { c with frames := frames }
  | .hover m row :: frames =>
    if c.menus.currentMenu = m then some { c with menus := focus row c.menus, frames := frames }
    else some { c with frames := frames }

/-- No handler runs, and what the source does next is settled. -/
def busy (c : StackRun F) : Bool :=
  match c.frames with
  | .notify _ :: _ | .popAll _ :: _ => true
  | _ => false

def setRoot (r : Root) (f : MenuRoot F → MenuRoot F) (c : StackRun F) : StackRun F :=
  { c with menus := { c.menus with roots := Function.update c.menus.roots r (f (c.menus.roots r)) } }

/-- What any code may do while it runs. -/
def act (op : Op F) (c : StackRun F) : Option (StackRun F) :=
  let s := c.menus
  match op with
  | .push hChars gap => some { c with menus := s.pushMenu hChars gap }
  | .pop => some c.popMenu
  | .add parent item => (s.addItem parent item).map fun s => { c with menus := s }
  | .addAll n parent => (s.addAll n parent).map fun s => { c with menus := s }
  | .onPoppedOff m handler => some (c.setRoot (.menu m) fun root => { root with onPoppedOff := handler })
  | .onPoppedTo m handler => some (c.setRoot (.menu m) fun root => { root with onPoppedTo := handler })
  | .change id f => some { c with menus := s.changeItem id f }
  | .scroll m cursor top bottom =>
    some { c with menus := { s with
      menuCursor := Function.update s.menuCursor m cursor
      menuWindowTop := Function.update s.menuWindowTop m top
      menuWindowBottom := Function.update s.menuWindowBottom m bottom } }
  | .setCurPos pos => some { c with menus := s.setCurPos pos }
  | .osd active => some { c with menus := { s with osdActive := active } }
  | .traverse => some { c with menus := s.traverse s.currentMenu }
  | .render m => some { c with menus := s.traverse m }
  | .move down => some (c.move down)
  | .key key => c.itemKey key
  | .escape mayClose =>
    if s.currentMenu > 0 then
      if s.osdActive then some { c with frames := .popAll mayClose :: c.frames } else some c.popMenu
    else some { c with menus := toggle mayClose s }
  | .exit mayClose => some { c with frames := .popAll mayClose :: c.frames }
  | .hover row => some (c.hover row)
  | .leftPress => some (if s.dragItem.isSome then c else { c with menus := s.startDrag })
  | .drag speed event => some { c with menus := s.continueDrag speed event }
  | .resetDrag => some { c with menus := { s with dragItem := none } }
  | .resume => none

def step (op : Op F) (c : StackRun F) : Option (StackRun F) :=
  match op with
  | .resume => c.resume
  | op => if c.busy then none else c.act op

def run (ops : List (Op F)) (c : StackRun F) : Option (StackRun F) := ops.foldlM (fun c op => c.step op) c

/-- `ui_init_menu`: the menus, with the first one pushed. -/
def init (gap : Int) : StackRun F := { menus := Menus.pushMenu (-2) gap {} }

end StackRun

end Bmx.Menu
