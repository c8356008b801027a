import Bmx.Base.Bytes
import Bmx.Base.Loop
import Bmx.Menu.MenuStack

/-!
# Moving to a row

The cursor is taken to another row by pressing Up and Down in its place. A letter takes it to a row whose name begins with
what was typed: it goes down row by row, over the end and on from the top, and the rows are counted after every move.
-/

namespace Bmx.Menu

def Items.shown : Items → List ItemId
  | .nil => []
  | .node item firstChild next =>
    if item.hidden then next.shown
    else item.id :: (if item.type = .folder ∧ item.isExpanded then firstChild.shown else []) ++ next.shown

/-- Why a search has not come to an end. -/
inductive SearchStop
  | outOfTurns | nullPointer

structure TypedPrefix where
  text : Bytes := []
  ticks : UInt32 := 0

def typedPrefixSize : Nat := 20

namespace TypedPrefix

/-- A letter is added to those of the last second, as long as there is room. -/
def collect (now : UInt32) (letter : UInt8) (typed : TypedPrefix) : TypedPrefix where
  text :=
    if typed.text.length > 0 ∧ now - typed.ticks < 1000000 then
      if typed.text.length < typedPrefixSize - 1 then typed.text ++ [letter] else typed.text
    else [letter]
  ticks := now

/-- `strncasecmp` of a name and the prefix, over the length of the prefix. -/
def matchesName (typed : TypedPrefix) (name : Bytes) : Bool :=
  name ≠ [] && foldEqual (name.take typed.text.length) typed.text

end TypedPrefix

namespace Menus

variable {F : Type}

def cursor (s : Menus F) : Int := s.menuCursor s.currentMenu

def rowCount (s : Menus F) : Int := s.maxIndex s.currentMenu

def rows (s : Menus F) : List ItemId := (s.tree (.menu s.currentMenu)).shown

/-- `ACTION_Up` and `ACTION_Down`. `commit` is what is done to the menus when the text of a field is left. -/
def pressUp (commit : Menus F → Menus F) (s : Menus F) : Menus F :=
  if (commit s).currentMenu ≠ s.currentMenu then commit s else (commit s).cursorUp

def pressDown (commit : Menus F → Menus F) (s : Menus F) : Menus F :=
  if (commit s).currentMenu ≠ s.currentMenu then commit s else (commit s).cursorDown

/-- The loop of `ui_page_down` and `ui_page_up`, which counts the rows of the window. -/
def pageMove (press : Menus F → Menus F) (turns : Nat) (s : Menus F) : Except SearchStop (Int × Menus F) :=
  loop .outOfTurns (fun (n, now) =>
    if n < s.menuWindowBottom s.currentMenu - s.menuWindowTop s.currentMenu ∧ now.currentMenu = s.currentMenu then
      .ok (.again (n + 1, press now))
    else .ok (.leave (n, now))) turns (0, s)

def pageDown (commit : Menus F → Menus F) : Nat → Menus F → Except SearchStop (Int × Menus F) :=
  pageMove (pressDown commit)

def pageUp (commit : Menus F → Menus F) : Nat → Menus F → Except SearchStop (Int × Menus F) :=
  pageMove (pressUp commit)

/-- `ui_to_top` -/
def toTop (commit : Menus F → Menus F) (turns : Nat) (s : Menus F) : Except SearchStop (Menus F) :=
  loop .outOfTurns (fun now =>
    if now.currentMenu = s.currentMenu ∧ now.cursor ≠ 0 then .ok (.again (now.pressUp commit)) else .ok (.leave now))
    turns s

/-- `ui_to_bottom` -/
def toBottom (commit : Menus F → Menus F) (turns : Nat) (s : Menus F) : Except SearchStop (Menus F) :=
  loop .outOfTurns (fun now =>
    if now.currentMenu = s.currentMenu ∧ now.cursor < now.rowCount - 1 then .ok (.again (now.pressDown commit))
    else .ok (.leave now))
    turns s

/-- The move to the next row: down, or from the last row to the top. -/
def nextRow (commit : Menus F → Menus F) (turns : Nat) (s : Menus F) : Except SearchStop (Menus F) :=
  if s.cursor ≥ s.rowCount - 1 then s.toTop commit turns else .ok (s.pressDown commit)

/-- One turn of the loop of `ui_find_first`, which was begun in a row of a menu. -/
def searchTurn (commit : Menus F → Menus F) (turns : Nat) (found : ItemId → Bool) (menuIndex startIndex : Int)
    (s : Menus F) : Except SearchStop (Turn (Menus F)) := do
  if s.currentMenu ≠ menuIndex then return .leave s
  else
    let moved ← s.nextRow commit turns
    if moved.currentMenu ≠ menuIndex then return .leave moved
    else if moved.cursor = startIndex then return .leave moved
    else
      let walked := moved.traverse moved.currentMenu
      match walked.menuCursorItem walked.currentMenu with
      | none => .error .nullPointer
      | some item => return if found item then .leave walked else .again walked

def search (commit : Menus F → Menus F) (turns : Nat) (found : ItemId → Bool) (menuIndex startIndex : Int)
    (s : Menus F) : Except SearchStop (Menus F) :=
  loop .outOfTurns (searchTurn commit turns found menuIndex startIndex) turns s

/-- `ui_find_first`. `names` are the names that the items have. -/
def findFirst (commit : Menus F → Menus F) (turns : Nat) (names : ItemId → Bytes) (now : UInt32) (key : UInt8)
    (typed : TypedPrefix) (s : Menus F) : Except SearchStop (Menus F × TypedPrefix) := do
  let letter := asciiLower key
  let typed := typed.collect now letter
  let found ← s.search commit turns (fun item => typed.matchesName (names item)) s.currentMenu s.cursor
  if typed.text.length > 1 ∧ found.currentMenu = s.currentMenu ∧ found.cursor = s.cursor then
    let last ← found.search commit turns (fun item => (names item).head?.map asciiLower == some letter)
      s.currentMenu s.cursor
    return (last, { typed with text := [letter] })
  else return (found, typed)

end Menus

end Bmx.Menu
