import Bmx.Base.Checked
import Bmx.Menu.MenuStackSoundness
import Bmx.Menu.TypeAhead

/-!
# Type-ahead finds its row

Every move of a search takes the cursor to the next row, as long as the rows counted last tell whether the cursor is in
the last one. Where they do not, the search begins in a wrong row, and where the cursor is in no row it may not end.
-/

namespace Bmx.Menu

open List Function

/-! ### Rows of a tree -/

namespace Items

theorem traverse_rows (sought : Int → Bool) (items : Items) (index : Int) (cursorItem : Option ItemId) :
    (items.traverse sought index cursorItem).2.1 = index + items.shown.length := by
  induction items generalizing index cursorItem with
  | nil => simp [traverse, shown]
  | node item firstChild next ihChild ihNext =>
    simp only [traverse, shown]
    split
    · exact ihNext index cursorItem
    · split
      · simp only [ihNext, ihChild, length_append, length_cons]
        omega
      · simp only [ihNext, length_append, length_cons, length_nil]
        omega

theorem shown_traverse (sought : Int → Bool) (items : Items) (index : Int) (cursorItem : Option ItemId) :
    (items.traverse sought index cursorItem).1.shown = items.shown := by
  induction items generalizing index cursorItem with
  | nil => rfl
  | node item firstChild next ihChild ihNext =>
    simp only [traverse, shown]
    split
    · rename_i hhidden
      simp only [shown, hhidden, if_true, ihNext]
    · rename_i hhidden
      split
      · rename_i hopen
        simp only [shown, hhidden, Bool.false_eq_true, if_false, hopen, and_self, if_true, ihChild, ihNext]
      · rename_i hopen
        simp only [shown, hhidden, Bool.false_eq_true, if_false, if_neg hopen, ihNext]

variable {sought : Int → Bool} {items : Items} {index : Int} {cursorItem : Option ItemId}

/-- A row that lies before the walk, or is not sought at all, is not found. -/
theorem traverse_missed (hmissed : ∀ row, index ≤ row → sought row = false) :
    (items.traverse sought index cursorItem).2.2 = cursorItem := by
  induction items generalizing index cursorItem with
  | nil => rfl
  | node item firstChild next ihChild ihNext =>
    have hlater : ∀ row, index + 1 ≤ row → sought row = false := fun row hrow => hmissed row (by omega)
    simp only [traverse, hmissed index (Int.le_refl _), Bool.false_eq_true, if_false]
    split
    · exact ihNext hmissed
    · split
      · rw [ihNext, ihChild hlater]
        intro row hrow
        rw [traverse_rows] at hrow
        exact hmissed row (by omega)
      · exact ihNext hlater

theorem traverse_found {cursor : Int} (hsought : ∀ row, sought row = true ↔ row = cursor)
     (hindex : index ≤ cursor) :
    (items.traverse sought index cursorItem).2.2 = (items.shown[(cursor - index).toNat]?).or cursorItem := by
  have hmissed : ∀ index, cursor < index → ∀ row, index ≤ row → sought row = false := by
    intro index hlt row hrow
    rw [Bool.eq_false_iff, ne_eq, hsought]
    omega
  induction items generalizing index cursorItem with
  | nil => simp [traverse, shown]
  | node item firstChild next ihChild ihNext =>
    simp only [traverse, shown]
    split
    · exact ihNext hindex
    by_cases hhere : cursor = index
    · have hnext : sought index = true := (hsought index).2 hhere.symm
      have hzero : (cursor - index).toNat = 0 := by omega
      rw [hzero, getElem?_append_left (by simp), getElem?_cons_zero, if_pos hnext]
      split
      · rw [traverse_missed, traverse_missed]
        · rfl
        · exact hmissed _ (by omega)
        · refine hmissed _ ?_
          rw [traverse_rows]
          omega
      · rw [traverse_missed]
        · rfl
        · exact hmissed (index + 1) (by omega)
    · have hnot : ¬ sought index = true := fun h => hhere ((hsought index).1 h).symm
      obtain ⟨k, hk⟩ : ∃ k : Nat, cursor = index + 1 + k := ⟨(cursor - index - 1).toNat, by omega⟩
      have hrow : (cursor - index).toNat = k + 1 := by omega
      have hchild : (cursor - (index + 1)).toNat = k := by omega
      rw [hrow]
      split
      · rw [cons_append, getElem?_cons_succ]
        by_cases hin : k < firstChild.shown.length
        · rw [getElem?_append_left hin, traverse_missed, ihChild (by omega), hchild]
          refine hmissed _ ?_
          rw [traverse_rows]
          omega
        · rw [getElem?_append_right (by omega), ihNext (by rw [traverse_rows]; omega), ihChild (by omega),
            traverse_rows, hchild, getElem?_eq_none (by omega : firstChild.shown.length ≤ k)]
          have hoff : (cursor - (index + 1 + firstChild.shown.length)).toNat = k - firstChild.shown.length := by omega
          rw [hoff]
          rfl
      · rw [singleton_append, getElem?_cons_succ, ihNext (by dsimp only; omega), hchild]

end Items

/-! ### The menu that is searched -/

namespace Menus

variable {F : Type} {s s' : Menus F} {commit : Menus F → Menus F}

/-- What a search looks at is the same. -/
structure SameView (s s' : Menus F) : Prop where
  currentMenu : s'.currentMenu = s.currentMenu
  rows : s'.rows = s.rows
  cursor : s'.cursor = s.cursor
  rowCount : s'.rowCount = s.rowCount
  windowTop : s'.menuWindowTop s'.currentMenu = s.menuWindowTop s.currentMenu
  windowBottom : s'.menuWindowBottom s'.currentMenu = s.menuWindowBottom s.currentMenu
  cursorItem : s'.menuCursorItem s'.currentMenu = s.menuCursorItem s.currentMenu

theorem SameView.refl (s : Menus F) : SameView s s := ⟨rfl, rfl, rfl, rfl, rfl, rfl, rfl⟩

/-- The text that is left takes the user to another menu, or leaves the menu as it is. -/
def Orderly (commit : Menus F → Menus F) : Prop :=
  ∀ s, (commit s).currentMenu ≠ s.currentMenu ∨ SameView s (commit s)

theorem orderly_id : Orderly (id : Menus F → Menus F) := fun s => .inr (.refl s)

/-- The cursor is in the window. -/
structure Visible (s : Menus F) : Prop where
  top : s.menuWindowTop s.currentMenu ≤ s.cursor
  bottom : s.cursor < s.menuWindowBottom s.currentMenu

theorem SameView.visible (h : SameView s s') (hvisible : s.Visible) : s'.Visible :=
  ⟨by rw [h.windowTop, h.cursor]; exact hvisible.top, by rw [h.windowBottom, h.cursor]; exact hvisible.bottom⟩

theorem cursorUp_cursor (s : Menus F) : s.cursorUp.cursor = if s.cursor - 1 < 0 then 0 else s.cursor - 1 := by
  simp only [cursorUp, cursor, update_self]
  rfl

theorem cursorDown_cursor (s : Menus F) :
    s.cursorDown.cursor = if s.cursor + 1 ≥ s.rowCount then s.rowCount - 1 else s.cursor + 1 := by
  simp only [cursorDown, cursor, rowCount, update_self]
  rfl

theorem cursorUp_visible (hvisible : s.Visible) (hcursor : 0 ≤ s.cursor) : s.cursorUp.Visible := by
  obtain ⟨htop, hbottom⟩ := hvisible
  simp only [cursor] at htop hbottom hcursor
  constructor
  all_goals
    simp only [cursorUp, cursor, update_self]
    split <;> split <;> omega

theorem cursorDown_visible (hvisible : s.Visible) (hcursor : s.cursor < s.rowCount - 1) : s.cursorDown.Visible := by
  obtain ⟨htop, hbottom⟩ := hvisible
  simp only [cursor, rowCount] at htop hbottom hcursor
  constructor
  all_goals
    simp only [cursorDown, cursor, update_self]
    split <;> split <;> omega

theorem press_cases (hcommit : Orderly commit) (s : Menus F) (move : Menus F → Menus F) :
    let now := if (commit s).currentMenu ≠ s.currentMenu then commit s else move (commit s)
    now.currentMenu ≠ s.currentMenu ∨ ∃ s', SameView s s' ∧ now = move s' := by
  dsimp only
  split
  · rename_i hmenu
    exact .inl hmenu
  · rename_i hmenu
    exact .inr ⟨commit s, (hcommit s).resolve_left hmenu, rfl⟩

theorem pressUp_cases (hcommit : Orderly commit) (s : Menus F) :
    (s.pressUp commit).currentMenu ≠ s.currentMenu ∨
      ∃ s', SameView s s' ∧ s.pressUp commit = s'.cursorUp :=
  press_cases hcommit s cursorUp

theorem pressDown_cases (hcommit : Orderly commit) (s : Menus F) :
    (s.pressDown commit).currentMenu ≠ s.currentMenu ∨
      ∃ s', SameView s s' ∧ s.pressDown commit = s'.cursorDown :=
  press_cases hcommit s cursorDown

/-! ### Rows that are counted -/

theorem traverse_currentMenu (m : Int) (s : Menus F) : (s.traverse m).currentMenu = s.currentMenu := rfl

theorem traverse_rowCount (s : Menus F) : (s.traverse s.currentMenu).rowCount = s.rows.length := by
  rw [rowCount, traverse_currentMenu]
  simp only [traverse, update_self, walk, Items.traverse_rows, rows, Int.zero_add]

theorem traverse_rows (s : Menus F) : (s.traverse s.currentMenu).rows = s.rows := by
  simp only [rows, traverse, tree, setTree, update_self, walk, Items.shown_traverse]

theorem traverse_cursor (s : Menus F) :
    (s.traverse s.currentMenu).cursor = if s.cursor ≥ s.rows.length then (s.rows.length : Int) - 1 else s.cursor := by
  rw [cursor, traverse_currentMenu]
  simp only [cursor, traverse, update_self, walk, Items.traverse_rows, rows, Int.zero_add]
  rfl

theorem traverse_item (hvisible : s.Visible) (hcursor : 0 ≤ s.cursor) :
    (s.traverse s.currentMenu).menuCursorItem s.currentMenu =
      (s.rows[s.cursor.toNat]?).or (s.menuCursorItem s.currentMenu) := by
  have htop := hvisible.top
  have hbottom := hvisible.bottom
  have hsought : ∀ row, decide (s.menuWindowTop s.currentMenu ≤ row ∧ row < s.menuWindowBottom s.currentMenu ∧
      row = s.menuCursor s.currentMenu) = true ↔ row = s.cursor := by
    intro row
    simp only [cursor] at htop hbottom ⊢
    rw [decide_eq_true_iff]
    omega
  simp only [traverse, update_self, walk]
  rw [Items.traverse_found hsought hcursor, Int.sub_zero]
  rfl

/-! ### The moves end -/

/-- The same menu with the same rows, counted alike, and with the item that was found last. -/
structure SameRows (s s' : Menus F) : Prop where
  currentMenu : s'.currentMenu = s.currentMenu
  rows : s'.rows = s.rows
  rowCount : s'.rowCount = s.rowCount
  cursorItem : s'.menuCursorItem s'.currentMenu = s.menuCursorItem s.currentMenu

theorem SameRows.refl (s : Menus F) : SameRows s s := ⟨rfl, rfl, rfl, rfl⟩

theorem SameRows.trans {s'' : Menus F} (h : SameRows s s') (h' : SameRows s' s'') : SameRows s s'' :=
  ⟨h'.currentMenu.trans h.currentMenu, h'.rows.trans h.rows, h'.rowCount.trans h.rowCount,
    h'.cursorItem.trans h.cursorItem⟩

theorem SameView.sameRows (h : SameView s s') : SameRows s s' :=
  ⟨h.currentMenu, h.rows, h.rowCount, h.cursorItem⟩

theorem cursorUp_sameRows (s : Menus F) : SameRows s s.cursorUp := ⟨rfl, rfl, rfl, rfl⟩

theorem cursorDown_sameRows (s : Menus F) : SameRows s s.cursorDown := ⟨rfl, rfl, rfl, rfl⟩

/-- The way to the top. -/
def Rising (s now : Menus F) : Prop :=
  now.currentMenu ≠ s.currentMenu ∨ SameRows s now ∧ (0 ≤ s.cursor → s.Visible → 0 ≤ now.cursor ∧ now.Visible)

def AtTop (s now : Menus F) : Prop :=
  now.currentMenu ≠ s.currentMenu ∨ SameRows s now ∧ now.cursor = 0 ∧ (0 ≤ s.cursor → s.Visible → now.Visible)

theorem rising_self (s : Menus F) : Rising s s := .inr ⟨.refl s, fun hcursor hvisible => ⟨hcursor, hvisible⟩⟩

def toTopTurn (commit : Menus F → Menus F) (s now : Menus F) : Except SearchStop (Turn (Menus F)) :=
  if now.currentMenu = s.currentMenu ∧ now.cursor ≠ 0 then .ok (.again (now.pressUp commit)) else .ok (.leave now)

theorem toTopTurn_rising (hcommit : Orderly commit) {now : Menus F} (h : Rising s now) :
    (∃ next, toTopTurn commit s now = .ok (.again next) ∧ Rising s next ∧
      (if next.currentMenu = s.currentMenu then next.cursor.natAbs else 0) <
        (if now.currentMenu = s.currentMenu then now.cursor.natAbs else 0)) ∨
      ∃ next, toTopTurn commit s now = .ok (.leave next) ∧ AtTop s next := by
  unfold toTopTurn
  rcases h with hleft | ⟨hrows, hkept⟩
  · exact .inr ⟨now, by rw [if_neg fun h => hleft h.1], .inl hleft⟩
  by_cases hzero : now.cursor = 0
  · refine .inr ⟨now, by rw [if_neg fun h => h.2 hzero], .inr ⟨hrows, hzero, fun hcursor hvisible => ?_⟩⟩
    exact (hkept hcursor hvisible).2
  refine .inl ⟨now.pressUp commit, by rw [if_pos ⟨hrows.currentMenu, hzero⟩], ?_⟩
  rw [if_pos hrows.currentMenu]
  rcases pressUp_cases hcommit now with hleft | ⟨same, hsame, hup⟩
  · rw [hrows.currentMenu] at hleft
    exact ⟨.inl hleft, by rw [if_neg hleft]; omega⟩
  · rw [hup]
    have hmoved := (hrows.trans hsame.sameRows).trans (cursorUp_sameRows same)
    have hcursor : same.cursorUp.cursor = if now.cursor - 1 < 0 then 0 else now.cursor - 1 := by
      rw [cursorUp_cursor, hsame.cursor]
    refine ⟨.inr ⟨hmoved, fun hstart hvisible => ?_⟩, ?_⟩
    · obtain ⟨hnow, hnowVisible⟩ := hkept hstart hvisible
      refine ⟨by rw [hcursor]; split <;> omega, cursorUp_visible (hsame.visible hnowVisible) ?_⟩
      rw [hsame.cursor]
      exact hnow
    · rw [if_pos hmoved.currentMenu, hcursor]
      split <;> omega

variable {turns count start row : Nat} {found : ItemId → Bool} {origin : Menus F} {rows : List ItemId}

/-- `ui_to_top` from wherever the cursor is, and also out of the rows. -/
theorem toTop_ends (hcommit : Orderly commit) (s : Menus F) (hturns : s.cursor.natAbs < turns) :
    ∃ s', s.toTop commit turns = .ok s' ∧ AtTop s s' :=
  loop_ends (Rising s) (AtTop s) (fun now => if now.currentMenu = s.currentMenu then now.cursor.natAbs else 0)
    (fun _ hnow => toTopTurn_rising hcommit hnow) (rising_self s) (by simpa using hturns)

theorem toTop_cases (hcommit : Orderly commit) (s : Menus F) (turns : Nat) :
    s.toTop commit turns = .error .outOfTurns ∨ ∃ s', s.toTop commit turns = .ok s' ∧ AtTop s s' :=
  loop_cases (Rising s) (AtTop s)
    (fun _ hnow => (toTopTurn_rising hcommit hnow).imp_left fun ⟨next, hagain, hnext, _⟩ => ⟨next, hagain, hnext⟩)
    (rising_self s) turns

theorem toBottom_ends (hcommit : Orderly commit) (s : Menus F)
    (hturns : (s.rowCount - 1 - s.cursor).toNat < turns) : ∃ s', s.toBottom commit turns = .ok s' := by
  have hends : ∃ s', s.toBottom commit turns = .ok s' ∧ True := by
    refine loop_ends (fun now => now.currentMenu ≠ s.currentMenu ∨ SameRows s now) _
      (fun now => if now.currentMenu = s.currentMenu then (now.rowCount - 1 - now.cursor).toNat else 0) ?_
      (.inr (.refl s)) (by simpa using hturns)
    rintro now (hleft | hrows)
    · exact .inr ⟨now, by rw [if_neg fun h => hleft h.1], trivial⟩
    by_cases hbottom : now.cursor < now.rowCount - 1
    · refine .inl ⟨now.pressDown commit, by rw [if_pos ⟨hrows.currentMenu, hbottom⟩], ?_⟩
      rw [if_pos hrows.currentMenu]
      rcases pressDown_cases hcommit now with hleft | ⟨same, hsame, hdown⟩
      · rw [hrows.currentMenu] at hleft
        exact ⟨.inl hleft, by rw [if_neg hleft]; omega⟩
      · rw [hdown]
        have hmoved := (hrows.trans hsame.sameRows).trans (cursorDown_sameRows same)
        refine ⟨.inr hmoved, ?_⟩
        rw [if_pos hmoved.currentMenu, cursorDown_cursor, (cursorDown_sameRows same).rowCount, hsame.rowCount,
          hsame.cursor]
        split <;> omega
    · exact .inr ⟨now, by rw [if_neg fun h => hbottom h.2], trivial⟩
  exact hends.imp fun _ h => h.1

theorem pageMove_ends (press : Menus F → Menus F) (s : Menus F)
    (hturns : (s.menuWindowBottom s.currentMenu - s.menuWindowTop s.currentMenu).toNat < turns) :
    ∃ moved, s.pageMove press turns = .ok moved := by
  have hends : ∃ moved, s.pageMove press turns = .ok moved ∧ True := by
    refine loop_ends (fun _ => True) _
      (fun moved => (s.menuWindowBottom s.currentMenu - s.menuWindowTop s.currentMenu - moved.1).toNat) ?_ trivial
      (by simpa using hturns)
    intro moved _
    by_cases hmore : moved.1 < s.menuWindowBottom s.currentMenu - s.menuWindowTop s.currentMenu ∧
        moved.2.currentMenu = s.currentMenu
    · refine .inl ⟨(moved.1 + 1, press moved.2), if_pos hmore, trivial, ?_⟩
      dsimp only
      omega
    · exact .inr ⟨moved, if_neg hmore, trivial⟩
  exact hends.imp fun _ h => h.1

/-! ### The next row -/

/-- The cursor is in a row that is shown, and the rows that were counted last say rightly whether it is the last. -/
structure Ready (s : Menus F) : Prop where
  first : 0 ≤ s.cursor
  last : s.cursor < s.rows.length
  counted : s.rowCount ≤ s.cursor + 1 ↔ (s.rows.length : Int) ≤ s.cursor + 1
  visible : s.Visible

/-- The row that follows a row, and the first one after the last. -/
def rowBelow (count row : Nat) : Nat := if row + 1 < count then row + 1 else 0

theorem nextRow_ready (hcommit : Orderly commit) (hready : s.Ready) (hturns : s.rows.length ≤ turns) :
    ∃ s', s.nextRow commit turns = .ok s' ∧ (s'.currentMenu ≠ s.currentMenu ∨
      SameRows s s' ∧ s'.cursor = rowBelow s.rows.length s.cursor.toNat ∧ s'.Visible) := by
  obtain ⟨hfirst, hlast, hcounted, hvisible⟩ := hready
  unfold nextRow rowBelow
  by_cases hbottom : s.rowCount ≤ s.cursor + 1
  · rw [if_pos (by omega), if_neg (by have hrows := hcounted.1 hbottom; omega)]
    have hlt : s.cursor.natAbs < turns := by omega
    obtain ⟨s', hs', hmoved⟩ := toTop_ends hcommit s hlt
    refine ⟨s', hs', hmoved.imp_right fun ⟨hrows, hzero, hkept⟩ => ⟨hrows, hzero, hkept hfirst hvisible⟩⟩
  · rw [if_neg (by omega), if_pos (by have hrows := mt hcounted.2 hbottom; omega)]
    refine ⟨_, rfl, (pressDown_cases hcommit s).imp_right fun ⟨same, hsame, hdown⟩ => ?_⟩
    rw [hdown]
    refine ⟨hsame.sameRows.trans (cursorDown_sameRows same), ?_, cursorDown_visible (hsame.visible hvisible) ?_⟩
    · rw [cursorDown_cursor, hsame.cursor, hsame.rowCount, if_neg (by omega)]
      omega
    · rw [hsame.cursor, hsame.rowCount]
      omega

/-! ### A search from a row -/

/-- The rows that a search begun in the row `start` comes to after the one it is in. -/
def rowsAfter (count start row : Nat) : List Nat :=
  if start ≤ row then List.range' (row + 1) (count - (row + 1)) ++ List.range start
  else List.range' (row + 1) (start - (row + 1))

theorem rowsAfter_step (hstart : start < count) (hrow : row < count) :
    (rowBelow count row = start ∧ rowsAfter count start row = []) ∨
      rowBelow count row ≠ start ∧ rowsAfter count start row = rowBelow count row :: rowsAfter count start (rowBelow count row) := by
  unfold rowBelow rowsAfter
  by_cases hlast : row + 1 < count
  · rw [if_pos hlast]
    by_cases hbefore : start ≤ row
    · refine .inr ⟨by omega, ?_⟩
      obtain ⟨k, hk⟩ : ∃ k, count - (row + 1) = k + 1 := ⟨count - (row + 1) - 1, by omega⟩
      have hrest : count - (row + 1 + 1) = k := by omega
      rw [if_pos hbefore, if_pos (by omega), hk, hrest, range'_succ, cons_append]
    · by_cases hnext : row + 1 = start
      · refine .inl ⟨hnext, ?_⟩
        rw [if_neg hbefore, hnext, Nat.sub_self]
        rfl
      · refine .inr ⟨hnext, ?_⟩
        obtain ⟨k, hk⟩ : ∃ k, start - (row + 1) = k + 1 := ⟨start - (row + 1) - 1, by omega⟩
        have hrest : start - (row + 1 + 1) = k := by omega
        rw [if_neg hbefore, if_neg (by omega), hk, hrest, range'_succ]
  · rw [if_neg hlast, if_pos (by omega)]
    have hnone : count - (row + 1) = 0 := by omega
    rw [hnone, range'_zero, nil_append]
    cases start with
    | zero => exact .inl ⟨rfl, rfl⟩
    | succ start =>
      refine .inr ⟨by omega, ?_⟩
      rw [if_neg (by omega), range_eq_range', range'_succ]
      rfl

theorem ne_of_mem_rowsAfter (h : row ∈ rowsAfter count start start) : row ≠ start := by
  rw [rowsAfter, if_pos (Nat.le_refl _), mem_append, mem_range', mem_range] at h
  omega

/-- The first row after the cursor's that is looked for, over the end and on from the top. -/
def firstAfter (found : ItemId → Bool) (rows : List ItemId) (start : Nat) : Option Nat :=
  (rowsAfter rows.length start start).find? fun row => rows[row]?.any found

/-- Between two turns of a search: nothing that was passed is looked for. -/
structure Searching (found : ItemId → Bool) (origin s : Menus F) : Prop where
  currentMenu : s.currentMenu = origin.currentMenu
  rows : s.rows = origin.rows
  ready : s.Ready
  fresh : s.rowCount = s.rows.length ∨ s.cursor = origin.cursor
  passed : firstAfter found origin.rows origin.cursor.toNat =
    (rowsAfter origin.rows.length origin.cursor.toNat s.cursor.toNat).find? fun row => origin.rows[row]?.any found

/-- A search has ended in the row that it was for, or where it was begun. -/
structure Found (found : ItemId → Bool) (origin s : Menus F) : Prop where
  currentMenu : s.currentMenu = origin.currentMenu
  rows : s.rows = origin.rows
  ready : s.Ready
  cursor : s.cursor = (firstAfter found origin.rows origin.cursor.toNat).getD origin.cursor.toNat

theorem Ready.counted_rows (hfirst : 0 ≤ s.cursor) (hlast : s.cursor < s.rows.length)
    (hcounted : s.rowCount = s.rows.length) (hvisible : s.Visible) : s.Ready :=
  ⟨hfirst, hlast, by rw [hcounted], hvisible⟩

theorem traverse_ready (hcursor : s.cursor = row) (hrow : row < s.rows.length) (hvisible : s.Visible) :
    (s.traverse s.currentMenu).Ready ∧ (s.traverse s.currentMenu).cursor = row ∧
      (s.traverse s.currentMenu).menuCursorItem s.currentMenu = s.rows[row]? := by
  have hsame : (s.traverse s.currentMenu).cursor = row := by
    rw [traverse_cursor, hcursor, if_neg (by omega)]
  have hitem : (s.traverse s.currentMenu).menuCursorItem s.currentMenu = s.rows[row]? := by
    rw [traverse_item hvisible (by omega), hcursor, Int.toNat_natCast, getElem?_eq_getElem hrow]
    rfl
  refine ⟨Ready.counted_rows (by omega) ?_ ?_ ⟨?_, ?_⟩, hsame, hitem⟩
  · rw [hsame, traverse_rows]
    omega
  · rw [traverse_rowCount, traverse_rows]
  · rw [hsame, ← hcursor]
    exact hvisible.top
  · rw [hsame, ← hcursor]
    exact hvisible.bottom

theorem searchTurn_moved {menuIndex startIndex : Int} {moved : Menus F}
    (hmenu : s.currentMenu = menuIndex) (hnext : s.nextRow commit turns = .ok moved) :
    searchTurn commit turns found menuIndex startIndex s =
      if moved.currentMenu ≠ menuIndex then .ok (.leave moved)
      else if moved.cursor = startIndex then .ok (.leave moved)
      else
        match (moved.traverse moved.currentMenu).menuCursorItem moved.currentMenu with
        | none => .error .nullPointer
        | some item =>
          .ok (if found item then .leave (moved.traverse moved.currentMenu)
            else .again (moved.traverse moved.currentMenu)) := by
  rw [searchTurn, if_neg (by simpa using hmenu), hnext]
  rfl

theorem searchTurn_searching (hcommit : Orderly commit) (h : Searching found origin s)
    (horigin : origin.Ready) (hturns : origin.rows.length ≤ turns) :
    (∃ s', searchTurn commit turns found origin.currentMenu origin.cursor s = .ok (.again s') ∧ Searching found origin s' ∧
        (rowsAfter origin.rows.length origin.cursor.toNat s'.cursor.toNat).length <
          (rowsAfter origin.rows.length origin.cursor.toNat s.cursor.toNat).length) ∨
      ∃ s', searchTurn commit turns found origin.currentMenu origin.cursor s = .ok (.leave s') ∧
        (s'.currentMenu ≠ origin.currentMenu ∨ Found found origin s') := by
  have hlength : s.rows.length ≤ turns := by
    rw [h.rows]
    exact hturns
  obtain ⟨moved, hnext, hmoved⟩ := nextRow_ready hcommit h.ready hlength
  rw [searchTurn_moved h.currentMenu hnext]
  rcases hmoved with hleft | ⟨hrows, hcursor, hvisible⟩
  · rw [h.currentMenu] at hleft
    exact .inr ⟨moved, by rw [if_pos hleft], .inl hleft⟩
  have hmenu : moved.currentMenu = origin.currentMenu := hrows.currentMenu.trans h.currentMenu
  have hmovedRows : moved.rows = origin.rows := hrows.rows.trans h.rows
  have hlast := h.ready.last
  have horiginFirst := horigin.first
  have horiginLast := horigin.last
  rw [h.rows] at hcursor hlast
  have hstartRow : origin.cursor.toNat < origin.rows.length := by omega
  have hthisRow : s.cursor.toNat < origin.rows.length := by omega
  rw [if_neg (by simpa using hmenu)]
  rcases rowsAfter_step hstartRow hthisRow with ⟨hstart, hnone⟩ | ⟨hother, hsome⟩
  · have hback : moved.cursor = origin.cursor := by omega
    refine .inr ⟨moved, by rw [if_pos hback], .inr ⟨hmenu, hmovedRows, ⟨by omega, ?_, ?_, hvisible⟩, ?_⟩⟩
    · rw [hback, hmovedRows]
      exact horiginLast
    · -- Either the rows were counted in this search, or the cursor has not moved.
      rw [hrows.rowCount, hmovedRows, hback]
      rcases h.fresh with hfresh | hstill
      · rw [hfresh, h.rows]
      · have hcounted := h.ready.counted
        rwa [hstill, h.rows] at hcounted
    · rw [h.passed, hnone, hback]
      simp only [find?_nil, Option.getD_none]
      omega
  · have hrow : rowBelow origin.rows.length s.cursor.toNat < moved.rows.length := by
      rw [hmovedRows, rowBelow]
      split <;> omega
    obtain ⟨hready, hsame, hitem⟩ := traverse_ready hcursor hrow hvisible
    have hwalkedRows : (moved.traverse moved.currentMenu).rows = origin.rows := (traverse_rows moved).trans hmovedRows
    obtain ⟨item, hget⟩ : ∃ item, moved.rows[rowBelow origin.rows.length s.cursor.toNat]? = some item :=
      ⟨_, getElem?_eq_getElem hrow⟩
    have hlooked : origin.rows[rowBelow origin.rows.length s.cursor.toNat]?.any found = found item := by
      have hgetOrigin := hmovedRows ▸ hget
      rw [hgetOrigin]
      rfl
    rw [if_neg (by omega), hitem, hget]
    dsimp only
    split
    · rename_i hfound
      refine .inr ⟨_, rfl, .inr ⟨hmenu, hwalkedRows, hready, ?_⟩⟩
      rw [hsame, h.passed, hsome, find?_cons_of_pos (by rw [hlooked]; exact hfound)]
      rfl
    · rename_i hnot
      refine .inl ⟨_, rfl, ⟨hmenu, hwalkedRows, hready, .inl ?_, ?_⟩, ?_⟩
      · rw [traverse_rowCount, traverse_rows]
      · rw [hsame, Int.toNat_natCast, h.passed, hsome, find?_cons_of_neg (by rw [hlooked]; exact hnot)]
      · rw [hsame, Int.toNat_natCast, hsome, length_cons]
        omega

theorem search_found (found : ItemId → Bool) (hcommit : Orderly commit) (horigin : origin.Ready)
    (hturns : origin.rows.length ≤ turns) :
    ∃ s', origin.search commit turns found origin.currentMenu origin.cursor = .ok s' ∧
      (s'.currentMenu ≠ origin.currentMenu ∨ Found found origin s') := by
  refine loop_ends (Searching found origin) _
    (fun s => (rowsAfter origin.rows.length origin.cursor.toNat s.cursor.toNat).length)
    (fun s hs => searchTurn_searching hcommit hs horigin hturns) ⟨rfl, rfl, horigin, .inr rfl, rfl⟩ ?_
  have hfirst := horigin.first
  have hlast := horigin.last
  rw [rowsAfter, if_pos (Nat.le_refl _), length_append, length_range', length_range]
  omega

/-! ### A letter is typed -/

/-- The row that a letter leads to: one whose name begins with all that was typed, or else with the letter alone, or else
the row itself. -/
def foundRow (names : ItemId → Bytes) (typed : TypedPrefix) (letter : UInt8) (rows : List ItemId) (start : Nat) : Nat :=
  match firstAfter (fun item => typed.matchesName (names item)) rows start with
  | some row => row
  | none =>
    if typed.text.length > 1 then
      (firstAfter (fun item => (names item).head?.map asciiLower == some letter) rows start).getD start
    else start

/-- With turns enough a typed letter takes the cursor to its row, unless a text that is left takes the user to another
menu. -/
def Finds (commit : Menus F → Menus F) (names : ItemId → Bytes) (now : UInt32) (key : UInt8) (typed : TypedPrefix)
    (s : Menus F) : Prop :=
  ∃ enough, ∀ turns ≥ enough, ∃ result, s.findFirst commit turns names now key typed = .ok result ∧
    (result.1.currentMenu ≠ s.currentMenu ∨ result.1.rows = s.rows ∧
      result.1.cursor = foundRow names (typed.collect now (asciiLower key)) (asciiLower key) s.rows s.cursor.toNat)

theorem firstAfter_ne (h : firstAfter found rows start = some row) : row ≠ start :=
  ne_of_mem_rowsAfter (mem_of_find?_eq_some h)

theorem Ready.finds (hready : s.Ready) (hcommit : Orderly commit) (names : ItemId → Bytes) (now : UInt32) (key : UInt8)
    (typed : TypedPrefix) : s.Finds commit names now key typed := by
  refine ⟨s.rows.length, fun turns hturns => ?_⟩
  have hfirst := hready.first
  obtain ⟨found, hsearch, hfound⟩ := search_found
    (fun item => (typed.collect now (asciiLower key)).matchesName (names item)) hcommit hready hturns
  unfold findFirst foundRow
  dsimp only
  rw [hsearch]
  dsimp only [bind, Except.bind]
  rcases hfound with hleft | hfound
  · rw [if_neg fun h => hleft h.2.1]
    exact ⟨_, rfl, .inl hleft⟩
  have hcursor := hfound.cursor
  cases hrow : firstAfter (fun item => (typed.collect now (asciiLower key)).matchesName (names item)) s.rows
      s.cursor.toNat with
  | some row =>
    rw [hrow, Option.getD_some] at hcursor
    have hother := firstAfter_ne hrow
    rw [if_neg fun h => hother (by omega)]
    exact ⟨_, rfl, .inr ⟨hfound.rows, hcursor⟩⟩
  | none =>
    rw [hrow, Option.getD_none] at hcursor
    have hback : found.cursor = s.cursor := by omega
    by_cases hlong : (typed.collect now (asciiLower key)).text.length > 1
    · rw [if_pos ⟨hlong, hfound.currentMenu, hback⟩, if_pos hlong]
      have hfoundTurns : found.rows.length ≤ turns := by
        rw [hfound.rows]
        exact hturns
      obtain ⟨last, hsecond, hlast⟩ := search_found
        (fun item => (names item).head?.map asciiLower == some (asciiLower key)) hcommit hfound.ready hfoundTurns
      rw [hfound.currentMenu, hback] at hsecond
      rw [hsecond]
      refine ⟨_, rfl, ?_⟩
      rw [hfound.currentMenu] at hlast
      refine hlast.imp_right fun hlast => ⟨hlast.rows.trans hfound.rows, ?_⟩
      have hlastCursor := hlast.cursor
      rwa [hfound.rows, hback] at hlastCursor
    · rw [if_neg fun h => hlong h.1, if_neg hlong]
      exact ⟨_, rfl, .inr ⟨hfound.rows, hcursor⟩⟩

/-! ### Where the cursor is in no row, or the count is wrong -/

theorem isSome_traverse {sought : Int → Bool} {items : Items} {index : Int} {cursorItem : Option ItemId}
    (h : cursorItem.isSome) : (items.traverse sought index cursorItem).2.2.isSome := by
  induction items generalizing index cursorItem with
  | nil => exact h
  | node item firstChild next ihChild ihNext =>
    have hhere : (if sought index then some item.id else cursorItem).isSome := by
      split
      · rfl
      · exact h
    simp only [Items.traverse]
    split
    · exact ihNext h
    · split
      · exact ihNext (ihChild hhere)
      · exact ihNext hhere

/-- A search on the way of which no row can be the one where it was begun: that row is not there. -/
structure Lost (failed : SearchStop → Prop) (origin s : Menus F) : Prop where
  currentMenu : s.currentMenu = origin.currentMenu
  rows : s.rows = origin.rows
  cursor : origin.cursor < 0 ∧ origin.cursor ≤ s.cursor ∨ (origin.rows.length : Int) ≤ origin.cursor ∧
    (s.cursor = origin.cursor ∨ s.cursor < origin.rows.length ∧ s.rowCount = origin.rows.length)
  item : failed .nullPointer ∨ (s.menuCursorItem s.currentMenu).isSome

theorem nextRow_id (s : Menus F) (turns : Nat) : s.nextRow id turns = .error .outOfTurns ∨
    ∃ s', s.nextRow id turns = .ok s' ∧ SameRows s s' ∧
      (s.rowCount ≤ s.cursor + 1 ∧ s'.cursor = 0 ∨ s.cursor + 1 < s.rowCount ∧ s'.cursor = s.cursor + 1) := by
  unfold nextRow
  split
  · rename_i hbottom
    refine (toTop_cases orderly_id s turns).imp_right fun ⟨s', hs', htop⟩ => ?_
    -- Without texts nothing leaves the menu.
    have hmenu : s'.currentMenu = s.currentMenu := by
      refine loop_keeps (fun now => now.currentMenu = s.currentMenu) (fun now => now.currentMenu = s.currentMenu)
        (fun now next hnow hturn => ?_) (fun now next hnow hturn => ?_) rfl hs'
      · split at hturn
        · obtain rfl := Turn.again.inj (Except.ok.inj hturn)
          simpa [pressUp, cursorUp] using hnow
        · cases hturn
      · split at hturn
        · cases hturn
        · obtain rfl := Turn.leave.inj (Except.ok.inj hturn)
          exact hnow
    obtain ⟨hrows, hzero, -⟩ := htop.resolve_left (by simpa using hmenu)
    exact ⟨s', hs', hrows, .inl ⟨by omega, hzero⟩⟩
  · rename_i hbottom
    refine .inr ⟨s.cursorDown, by simp [pressDown], cursorDown_sameRows s, .inr ⟨by omega, ?_⟩⟩
    rw [cursorDown_cursor, if_neg (by omega)]

/-- Where no name is looked for, a search from a row that is not there never comes to an end. -/
theorem search_never (failed : SearchStop → Prop) (hspent : failed .outOfTurns)
    (hnothing : ∀ item, found item = false)
    (hrows : origin.rows ≠ []) (horigin : origin.cursor < 0 ∨ (origin.rows.length : Int) ≤ origin.cursor)
    (hitem : failed .nullPointer ∨ (origin.menuCursorItem origin.currentMenu).isSome) (turns : Nat) :
    ∃ e, origin.search id turns found origin.currentMenu origin.cursor = .error e ∧ failed e := by
  have hlength : 0 < origin.rows.length := length_pos_iff.2 hrows
  refine loop_never (Lost failed origin) failed hspent (fun s hs => ?_) ⟨rfl, rfl, by omega, hitem⟩ turns
  rcases nextRow_id s turns with hout | ⟨moved, hnext, hsame, hcursor⟩
  · refine .inl ⟨.outOfTurns, ?_, hspent⟩
    rw [searchTurn, if_neg (by simpa using hs.currentMenu), hout]
    rfl
  have hlost := hs.cursor
  have hmenu : moved.currentMenu = origin.currentMenu := hsame.currentMenu.trans hs.currentMenu
  have hother : moved.cursor ≠ origin.cursor := by omega
  rw [searchTurn_moved hs.currentMenu hnext, if_neg (by simpa using hmenu), if_neg hother]
  have hmovedItem : failed .nullPointer ∨ ((moved.traverse moved.currentMenu).menuCursorItem moved.currentMenu).isSome := by
    refine hs.item.imp_right fun h => ?_
    rw [← hsame.cursorItem] at h
    simpa [traverse, walk] using isSome_traverse h
  split
  · rename_i hnone
    rw [hnone] at hmovedItem
    exact .inl ⟨.nullPointer, rfl, hmovedItem.resolve_right (by simp)⟩
  · rw [if_neg (by simp [hnothing])]
    refine .inr ⟨_, rfl, hmenu, (traverse_rows moved).trans (hsame.rows.trans hs.rows), ?_, hmovedItem⟩
    have hmovedRows : moved.rows = origin.rows := hsame.rows.trans hs.rows
    rw [traverse_cursor, traverse_rowCount, hmovedRows]
    split <;> omega

/-- A search that begins at the top, though there are rows below the cursor, stops where it began. -/
theorem search_skips (hfirst : 0 ≤ origin.cursor)
    (hbelow : origin.cursor + 1 < origin.rows.length) (hcounted : origin.rowCount ≤ origin.cursor + 1)
    {s' : Menus F} (hsearch : origin.search id turns found origin.currentMenu origin.cursor = .ok s') :
    s'.currentMenu = origin.currentMenu ∧ s'.cursor ≤ origin.cursor := by
  let inv (now : Menus F) : Prop := now.currentMenu = origin.currentMenu ∧ now.rows = origin.rows ∧
    (now.cursor = origin.cursor ∧ now.rowCount = origin.rowCount ∨
      now.cursor < origin.cursor ∧ 0 ≤ now.cursor ∧ now.rowCount = origin.rows.length)
  -- A turn goes no further than the row where the search began.
  have hturn : ∀ now turn, inv now →
      searchTurn id turns found origin.currentMenu origin.cursor now = .ok turn →
      (∃ next, turn = .again next ∧ inv next) ∨ ∃ next, turn = .leave next ∧ next.currentMenu = origin.currentMenu ∧ next.cursor ≤ origin.cursor := by
    rintro now turn ⟨hmenu, hrows, hcursor⟩ h
    rcases nextRow_id now turns with hout | ⟨moved, hnext, hsame, hmoved⟩
    · rw [searchTurn, if_neg (by simpa using hmenu), hout] at h
      cases h
    have hmovedMenu : moved.currentMenu = origin.currentMenu := hsame.currentMenu.trans hmenu
    have hmovedRows : moved.rows = origin.rows := hsame.rows.trans hrows
    rw [searchTurn_moved hmenu hnext, if_neg (by simpa using hmovedMenu)] at h
    split at h
    · rename_i hback
      exact .inr ⟨moved, (Except.ok.inj h).symm, hmovedMenu, by omega⟩
    have hwalked : (moved.traverse moved.currentMenu).cursor = moved.cursor := by
      rw [traverse_cursor, hmovedRows, if_neg (by omega)]
    split at h
    · cases h
    · split at h
      · exact .inr ⟨_, (Except.ok.inj h).symm, hmovedMenu, by rw [hwalked]; omega⟩
      · refine .inl ⟨_, (Except.ok.inj h).symm, hmovedMenu, (traverse_rows moved).trans hmovedRows, .inr ?_⟩
        rw [hwalked, traverse_rowCount, hmovedRows]
        omega
  refine loop_keeps inv (fun now => now.currentMenu = origin.currentMenu ∧ now.cursor ≤ origin.cursor) (fun now next hnow hagain => ?_)
    (fun now next hnow hleave => ?_) ⟨rfl, rfl, .inl ⟨rfl, rfl⟩⟩ hsearch
  · obtain ⟨_, heq, hnext⟩ | ⟨_, heq, -⟩ := hturn now _ hnow hagain
    · exact Turn.again.inj heq ▸ hnext
    · cases heq
  · obtain ⟨_, heq, -⟩ | ⟨_, heq, hnext⟩ := hturn now _ hnow hleave
    · cases heq
    · exact Turn.leave.inj heq ▸ hnext

/-- A search that goes down from the last row comes back to it, and takes it for the next. -/
theorem search_stays (hall : ∀ item, found item = true)
    (hlast : origin.cursor + 1 = origin.rows.length) (hcounted : origin.cursor + 1 < origin.rowCount)
    {s' : Menus F} (hsearch : origin.search id turns found origin.currentMenu origin.cursor = .ok s') :
    s'.currentMenu = origin.currentMenu ∧ s'.cursor = origin.cursor := by
  cases turns with
  | zero => cases hsearch
  | succ turns =>
    rw [search, loop] at hsearch
    rcases nextRow_id origin (turns + 1) with hout | ⟨moved, hnext, hsame, hmoved⟩
    · rw [searchTurn, if_neg (by simp), hout] at hsearch
      cases hsearch
    have hwalked : (moved.traverse moved.currentMenu).cursor = origin.cursor := by
      rw [traverse_cursor, hsame.rows, if_pos (by omega)]
      omega
    rw [searchTurn_moved rfl hnext, if_neg (by simpa using hsame.currentMenu), if_neg (by omega)] at hsearch
    cases hitem : (moved.traverse moved.currentMenu).menuCursorItem moved.currentMenu with
    | none =>
      rw [hitem] at hsearch
      cases hsearch
    | some item =>
      rw [hitem] at hsearch
      simp only [hall, if_true] at hsearch
      cases hsearch
      exact ⟨hsame.currentMenu, hwalked⟩

theorem firstAfter_all (hall : ∀ item, found item = true) (hstart : start < rows.length) (hrows : 2 ≤ rows.length) :
    firstAfter found rows start = some (rowBelow rows.length start) := by
  have hbelow : rowBelow rows.length start ≠ start ∧ rowBelow rows.length start < rows.length := by
    unfold rowBelow
    split <;> omega
  obtain ⟨hback, -⟩ | ⟨-, hsome⟩ := rowsAfter_step hstart hstart
  · exact absurd hback hbelow.1
  · rw [firstAfter, hsome, find?_cons_of_pos]
    rw [getElem?_eq_getElem hbelow.2]
    exact hall _

/-- A letter typed on its own, in a menu all items of which have the same name. -/
theorem findFirst_single {name : Bytes} {result : Menus F × TypedPrefix}
    (h : s.findFirst id turns (fun _ => name) 0 97 {} = .ok result) :
    s.search id turns (fun _ => name ≠ [] && foldEqual (name.take 1) [97]) s.currentMenu s.cursor = .ok result.1 := by
  unfold findFirst at h
  obtain ⟨found, hsearch, h⟩ := bind_eq_ok.1 h
  obtain rfl := pure_eq_ok.1 h
  exact hsearch

/-- In a menu with several rows, the cursor in the window, a letter finds its row whatever the items are called only if
the menu is ready for it. -/
theorem ready_of_finds (hvisible : s.Visible) (hrows : 2 ≤ s.rows.length)
    (h : ∀ names now key typed, s.Finds id names now key typed) : s.Ready := by
  have hnonempty : s.rows ≠ [] := length_pos_iff.1 (by omega)
  by_cases hrow : 0 ≤ s.cursor ∧ s.cursor < s.rows.length
  · refine ⟨hrow.1, hrow.2, ?_, hvisible⟩
    obtain ⟨enough, hends⟩ := h (fun _ => [97]) 0 97 {}
    obtain ⟨result, hresult, hright⟩ := hends enough (Nat.le_refl _)
    have hsearch := findFirst_single hresult
    have hall : ∀ _ : ItemId, ([97] ≠ ([] : Bytes) && foldEqual (([97] : Bytes).take 1) [97]) = true := fun _ => by decide
    have hfound : foundRow (fun _ => [97]) (({} : TypedPrefix).collect 0 (asciiLower 97)) (asciiLower 97) s.rows
        s.cursor.toNat = rowBelow s.rows.length s.cursor.toNat := by
      rw [foundRow, firstAfter_all (fun _ => by decide) (by omega) hrows]
    rw [hfound] at hright
    by_contra hwrong
    by_cases hcounted : s.rowCount ≤ s.cursor + 1
    · have hbelow : s.cursor + 1 < s.rows.length := by omega
      obtain ⟨hmenu, hcursor⟩ := search_skips hrow.1 hbelow hcounted hsearch
      rw [rowBelow, if_pos (by omega)] at hright
      omega
    · have hlast : s.cursor + 1 = s.rows.length := by omega
      obtain ⟨hmenu, hcursor⟩ := search_stays hall hlast (by omega) hsearch
      rw [rowBelow, if_neg (by omega)] at hright
      omega
  · obtain ⟨enough, hends⟩ := h (fun _ => []) 0 97 {}
    obtain ⟨result, hresult, -⟩ := hends enough (Nat.le_refl _)
    have hsearch := findFirst_single hresult
    have hnothing : ∀ _ : ItemId, (([] : Bytes) ≠ [] && foldEqual (([] : Bytes).take 1) [97]) = false := fun _ => by decide
    obtain ⟨e, herror, -⟩ := search_never (fun _ => True) trivial hnothing hnonempty (by omega) (.inl trivial) enough
    rw [herror] at hsearch
    cases hsearch

/-- The moves to the ends of a menu and by its pages end. A letter finds its row wherever the menu is ready for it, and
only there. -/
theorem type_ahead_finds (s : Menus F) :
    (∀ commit, Orderly commit → ∃ enough, ∀ turns ≥ enough,
      (∃ s', s.toTop commit turns = .ok s') ∧ (∃ s', s.toBottom commit turns = .ok s') ∧
        (∃ moved, s.pageDown commit turns = .ok moved) ∧ ∃ moved, s.pageUp commit turns = .ok moved) ∧
    (s.Ready → ∀ commit names now key typed, Orderly commit → s.Finds commit names now key typed) ∧
    (s.Visible → 2 ≤ s.rows.length → (∀ names now key typed, s.Finds id names now key typed) → s.Ready) := by
  refine ⟨fun commit hcommit => ?_, fun hready commit names now key typed hcommit => ?_, ready_of_finds⟩
  · refine ⟨s.cursor.natAbs + (s.rowCount - 1 - s.cursor).toNat +
      (s.menuWindowBottom s.currentMenu - s.menuWindowTop s.currentMenu).toNat + 1, fun turns hturns => ⟨?_, ?_, ?_, ?_⟩⟩
    · obtain ⟨s', hs', -⟩ := toTop_ends hcommit s (by omega : s.cursor.natAbs < turns)
      exact ⟨s', hs'⟩
    · exact toBottom_ends hcommit s (by omega)
    · exact pageMove_ends _ s (by omega)
    · exact pageMove_ends _ s (by omega)
  · exact hready.finds hcommit names now key typed

/-- A menu of three rows, the second of which begins with the letter. -/
theorem type_ahead_finds_second : ∃ c : StackRun Nat, StackRun.Reaches 0 c ∧
    c.menus.Finds id (fun item => if item = 1 then ascii "Apple" else ascii "Exit") 0 97 {} ∧
    foundRow (fun item => if item = 1 then ascii "Apple" else ascii "Exit") (({} : TypedPrefix).collect 0 97) 97
      c.menus.rows c.menus.cursor.toNat = 1 := by
  obtain ⟨c, hreached, hcursor, hrows, hcount, htop, hbottom⟩ := StackRun.exists_of_run 0
    [.add (.root (.menu 0)) { type := .button }, .add (.root (.menu 0)) { type := .button },
      .add (.root (.menu 0)) { type := .button }, .render 0]
    (fun c : StackRun Nat => c.menus.cursor = 0 ∧ c.menus.rows = [0, 1, 2] ∧ c.menus.rowCount = 3 ∧
      c.menus.menuWindowTop c.menus.currentMenu = 0 ∧ 0 < c.menus.menuWindowBottom c.menus.currentMenu) rfl
  have hready : c.menus.Ready := by
    refine ⟨by rw [hcursor], by rw [hcursor, hrows]; decide, ?_, ⟨by rw [htop, hcursor], by rw [hcursor]; exact hbottom⟩⟩
    rw [hcount, hcursor, hrows]
    decide
  refine ⟨c, hreached, (type_ahead_finds c.menus).2.1 hready id _ 0 97 {} orderly_id, ?_⟩
  rw [hrows, hcursor]
  decide

/-- The cursor goes down from an open folder, and before the menu is drawn again Return closes the folder: a letter that
no row begins with is searched for ever. -/
theorem search_endless : ∃ c : StackRun Nat, StackRun.Reaches 0 c ∧ c.menus.cursor = 3 ∧ c.menus.rows = [0, 4] ∧
    ∀ turns, c.menus.findFirst id turns (fun _ => ascii "Exit") 0 97 {} = .error .outOfTurns := by
  obtain ⟨c, hreached, hcursor, hrows, hitem⟩ := StackRun.exists_of_run 0
    [.add (.root (.menu 0)) { type := .folder, isExpanded := true }, .add (.item (.menu 0) 0) { type := .button },
      .add (.item (.menu 0) 0) { type := .button }, .add (.item (.menu 0) 0) { type := .button },
      .add (.root (.menu 0)) { type := .button }, .render 0, .move true, .move true, .move true, .key .returnKey]
    (fun c : StackRun Nat => c.menus.cursor = 3 ∧ c.menus.rows = [0, 4] ∧
      (c.menus.menuCursorItem c.menus.currentMenu).isSome) rfl
  refine ⟨c, hreached, hcursor, hrows, fun turns => ?_⟩
  have hnothing : ∀ _ : ItemId, (({} : TypedPrefix).collect 0 (asciiLower 97)).matchesName (ascii "Exit") = false :=
    fun _ => by decide
  have hnonempty : c.menus.rows ≠ [] := by
    rw [hrows]
    simp
  have hlost : c.menus.cursor < 0 ∨ (c.menus.rows.length : Int) ≤ c.menus.cursor := by
    rw [hrows, hcursor]
    decide
  obtain ⟨e, herror, rfl⟩ := search_never (· = .outOfTurns) rfl hnothing hnonempty hlost (.inr hitem) turns
  rw [findFirst, herror]
  rfl

end Menus

end Bmx.Menu
