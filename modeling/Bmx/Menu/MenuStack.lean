import Bmx.Menu.MenuTree

/-!
# The stack of menus

The menus on the screen lie on a stack, and the keys and the mouse act on the one on top. A menu that is popped
is cleared, and two handlers are told of it: its own, and the one of the menu that shows again. A handler may
do what any other code may, so a pop is left and taken up again.
-/

namespace Bmx.Menu

open Function

abbrev numMenuRoots : Int := 5
abbrev menuGlyphHeight : Int := 8
abbrev menuContentHeight : Int := 25 * menuGlyphHeight

def rowGapIsValid (gap : Int) : Bool := 0 ≤ gap ∧ gap ≤ 4

/-- `ui_menu_height_for_rows`. -/
def menuHeightForRows (rows gap : Int) : Int :=
  if rows ≤ 0 ∨ !rowGapIsValid gap then 0
  else
    let height := rows * menuGlyphHeight + (rows - 1) * gap
    if height ≤ 2 ^ 31 - 1 then height else 0

/-- `ui_menu_visible_rows`. -/
def menuVisibleRows (height gap : Int) : Int :=
  if height ≤ 0 ∨ !rowGapIsValid gap then 0 else (height + gap) / (menuGlyphHeight + gap)

/-- A root of items: a menu of the stack, or a folder that a caller keeps for itself. -/
inductive Root
  | menu (index : Int)
  | own (n : Nat)
  deriving DecidableEq

structure MenuRoot (F : Type) where
  firstChild : Items := .nil
  onPoppedOff : Option F := none
  onPoppedTo : Option F := none

/-- The menus. The arrays of the source are indexed by `current_menu`, which stays within them. -/
structure Menus (F : Type) where
  currentMenu : Int := -1
  roots : Root → MenuRoot F := fun _ => {}
  menuCursor : Int → Int := fun _ => 0
  menuWindowTop : Int → Int := fun _ => 0
  menuWindowBottom : Int → Int := fun _ => 0
  maxIndex : Int → Int := fun _ => 0
  menuCursorItem : Int → Option ItemId := fun _ => none
  uiEnabled : Bool := false
  osdActive : Bool := false
  dragItem : Option ItemId := none
  drag : MouseDrag := {}
  nextId : ItemId := 0
  released : List ItemId := []

namespace Menus

variable {F : Type}

def tree (s : Menus F) (r : Root) : Items := (s.roots r).firstChild

def setTree (r : Root) (items : Items) (s : Menus F) : Menus F :=
  { s with roots := update s.roots r { s.roots r with firstChild := items } }

/-- The item under the cursor, as it was last found. -/
def cursorNode (s : Menus F) : Option MenuNode :=
  (s.menuCursorItem s.currentMenu).bind fun id => (s.tree (.menu s.currentMenu)).find id

/-- An item is written wherever it is. -/
def changeItem (id : ItemId) (f : MenuItem → MenuItem) (s : Menus F) : Menus F :=
  { s with roots := fun r => { s.roots r with firstChild := (s.tree r).change id f } }

/-- The rows of a menu. The item of the cursor's row is sought in the window. -/
def walk (m : Int) (s : Menus F) : Items × Int × Option ItemId :=
  let sought index := s.menuWindowTop m ≤ index ∧ index < s.menuWindowBottom m ∧ index = s.menuCursor m
  (s.tree (.menu m)).traverse (fun index => sought index) 0 (s.menuCursorItem m)

/-- `ui_traverse`, of a menu. A menu that is drawn is walked in the same way. -/
def traverse (m : Int) (s : Menus F) : Menus F :=
  let rows := (s.walk m).2.1
  { s.setTree (.menu m) (s.walk m).1 with
    menuCursorItem := update s.menuCursorItem m (s.walk m).2.2
    maxIndex := update s.maxIndex m rows
    menuCursor := update s.menuCursor m (if s.menuCursor m ≥ rows then rows - 1 else s.menuCursor m) }

/-- `ui_clear_menu`. -/
def clearMenu (m : Int) (s : Menus F) : Menus F :=
  { s.setTree (.menu m) .nil with
    released := s.released ++ (s.tree (.menu m)).clearChildMenu
    menuCursorItem := update s.menuCursorItem m none
    maxIndex := update s.maxIndex m 0 }

/-- The height of a menu of so many rows. A negative number stands for the whole height. -/
def pushHeight (hChars gap : Int) : Int := if hChars < 0 then menuContentHeight else menuHeightForRows hChars gap

/-- `ui_push_menu`, past its checks. The caller sets the handlers anew. -/
def openMenu (m visibleRows : Int) (s : Menus F) : Menus F :=
  let s := { s with currentMenu := m }.clearMenu m
  { s with
    roots := update s.roots (.menu m) { s.roots (.menu m) with onPoppedOff := none, onPoppedTo := none }
    menuCursor := update s.menuCursor m 0
    menuWindowTop := update s.menuWindowTop m 0
    menuWindowBottom := update s.menuWindowBottom m visibleRows }

/-- `ui_push_menu`. -/
def pushMenu (hChars gap : Int) (s : Menus F) : Menus F :=
  let height := pushHeight hChars gap
  if height ≤ 0 ∨ height > menuContentHeight then s
  else if s.currentMenu + 1 ≥ numMenuRoots then s
  else s.openMenu (s.currentMenu + 1) (menuVisibleRows height gap)

/-- `ui_pop_menu`, before its handlers. -/
def closeMenu (s : Menus F) : Menus F := { s.clearMenu s.currentMenu with currentMenu := s.currentMenu - 1 }

/-- The folder that an item is added to: a root, or an item of its tree. -/
inductive Parent
  | root (r : Root)
  | item (r : Root) (id : ItemId)

def Parent.of : Parent → Root
  | .root r => r
  | .item r _ => r

/-- `append`. It asserts that the parent is a folder. -/
def append (parent : Parent) (new : Items) (s : Menus F) : Option (Menus F) :=
  match parent with
  | .root r => some (s.setTree r ((s.tree r).append new))
  | .item r id =>
    match (s.tree r).find id with
    | some folder => if folder.type = .folder then some (s.setTree r (.appendUnder id new (s.tree r))) else none
    | none => none

/-- `ui_menu_add_*`. -/
def addItem (parent : Parent) (item : MenuItem) (s : Menus F) : Option (Menus F) :=
  { s with nextId := s.nextId + 1 }.append parent (.node { item with id := s.nextId } .nil .nil)

/-- `ui_add_all`, from a folder of the caller's own. -/
def addAll (n : Nat) (parent : Parent) (s : Menus F) : Option (Menus F) :=
  if parent.of = .own n then none else (s.setTree (.own n) .nil).append parent (s.tree (.own n))

/-- `ACTION_Up`, past the text that is left. -/
def cursorUp (s : Menus F) : Menus F :=
  let m := s.currentMenu
  let cursor := if s.menuCursor m - 1 < 0 then 0 else s.menuCursor m - 1
  let scroll := if cursor ≤ s.menuWindowTop m - 1 then 1 else 0
  { s with
    menuCursor := update s.menuCursor m cursor
    menuWindowTop := update s.menuWindowTop m (s.menuWindowTop m - scroll)
    menuWindowBottom := update s.menuWindowBottom m (s.menuWindowBottom m - scroll) }

/-- `ACTION_Down`, past the text that is left. -/
def cursorDown (s : Menus F) : Menus F :=
  let m := s.currentMenu
  let cursor := if s.menuCursor m + 1 ≥ s.maxIndex m then s.maxIndex m - 1 else s.menuCursor m + 1
  let scroll := if cursor ≥ s.menuWindowBottom m then 1 else 0
  { s with
    menuCursor := update s.menuCursor m cursor
    menuWindowTop := update s.menuWindowTop m (s.menuWindowTop m + scroll)
    menuWindowBottom := update s.menuWindowBottom m (s.menuWindowBottom m + scroll) }

/-- `ui_set_cur_pos`. -/
def setCurPos (pos : Int) (s : Menus F) : Menus F :=
  let m := s.currentMenu
  let s := s.traverse m
  if s.maxIndex m ≤ 0 then
    { s with
      menuCursor := update s.menuCursor m 0
      menuCursorItem := update s.menuCursorItem m none }
  else
    let pos := if pos < 0 then 0 else if pos ≥ s.maxIndex m then s.maxIndex m - 1 else pos
    let rows := s.menuWindowBottom m - s.menuWindowTop m
    let visibleRows := if rows < 1 then 1 else rows
    let top := if pos < s.menuWindowTop m then pos
      else if pos ≥ s.menuWindowBottom m then pos + 1 - visibleRows else s.menuWindowTop m
    let bottom := if pos < s.menuWindowTop m then pos + visibleRows
      else if pos ≥ s.menuWindowBottom m then pos + 1 else s.menuWindowBottom m
    { s with
      menuCursor := update s.menuCursor m pos
      menuWindowTop := update s.menuWindowTop m top
      menuWindowBottom := update s.menuWindowBottom m bottom }.traverse m

/-- `ui_menu_mouse_continue_drag`. The item is the one that the drag began with. -/
def continueDrag (speed : DragSpeed) (event : MouseEvent) (s : Menus F) : Menus F :=
  match s.dragItem with
  | none => s
  | some id =>
    match s.drag.continue speed event with
    | (none, _) => { s with dragItem := none }
    | (some drag, steps) =>
      { s with drag := drag }.changeItem id fun item => (item.mouseAdjustRange steps true).2

/-- The left button goes down on the row under the pointer. -/
def startDrag (s : Menus F) : Menus F :=
  match (s.tree (.menu s.currentMenu)).findIndex (s.menuCursor s.currentMenu) with
  | some hovered => if hovered.type = .range ∧ !hovered.disabled then { s with dragItem := some hovered.id, drag := {} } else s
  | none => s

end Menus

end Bmx.Menu
