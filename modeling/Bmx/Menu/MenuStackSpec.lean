import Bmx.Menu.MenuStackRun
import Mathlib.Data.List.Count

/-!
# The discipline of the menu stack

An item is in one tree or it is released, and what the menus point to is in a tree. A step leaves the trees as
they are, or it adds items, or it clears a menu. Whatever happens, the stack stays within its bounds, no item
is released twice, and no cursor item is a released one. A pop that finds items under a later one leaves them
behind; a drag outlives the menu of its item; and a pop calls a handler that is not the one it looked at.
-/

namespace Bmx.Menu

open Items List

namespace Menus

variable {F : Type} {s s' s'' : Menus F}

/-- The items are in their places, and the stack within its bounds. -/
structure WellFormed (s : Menus F) : Prop where
  lower : 0 ≤ s.currentMenu
  upper : s.currentMenu < numMenuRoots
  fresh : ∀ r, ∀ id ∈ (s.tree r).ids, id < s.nextId
  nodup : ∀ r, (s.tree r).ids.Nodup
  apart : ∀ r r', r ≠ r' → (s.tree r).ids.Disjoint (s.tree r').ids
  folders : ∀ r, (s.tree r).Folders
  freshReleased : ∀ id ∈ s.released, id < s.nextId
  releasedOnce : s.released.Nodup
  live : ∀ r, (s.tree r).ids.Disjoint s.released
  cursor : ∀ m id, s.menuCursorItem m = some id → id ∈ (s.tree (.menu m)).ids

def DragLive (s : Menus F) : Prop := ∀ id, s.dragItem = some id → ∃ m, id ∈ (s.tree (.menu m)).ids

/-! ### Steps that leave the trees as they are -/

/-- The items stay where they are. What is pointed to was pointed to before, or is in its tree. -/
structure Quiet (s s' : Menus F) : Prop where
  current : s'.currentMenu = s.currentMenu
  ids : ∀ r, (s'.tree r).ids = (s.tree r).ids
  folders : ∀ r, (s.tree r).Folders → (s'.tree r).Folders
  nextId : s'.nextId = s.nextId
  released : s'.released = s.released
  cursor : ∀ m id, s'.menuCursorItem m = some id → s.menuCursorItem m = some id ∨ id ∈ (s.tree (.menu m)).ids
  drag : ∀ id, s'.dragItem = some id → s.dragItem = some id ∨ ∃ m, id ∈ (s.tree (.menu m)).ids

theorem Quiet.refl (s : Menus F) : Quiet s s :=
  ⟨rfl, fun _ => rfl, fun _ h => h, rfl, rfl, fun _ _ h => .inl h, fun _ h => .inl h⟩

theorem Quiet.trans (h : Quiet s s') (h' : Quiet s' s'') : Quiet s s'' where
  current := h'.current.trans h.current
  ids r := (h'.ids r).trans (h.ids r)
  folders r hr := h'.folders r (h.folders r hr)
  nextId := h'.nextId.trans h.nextId
  released := h'.released.trans h.released
  cursor m id hid := by
    rcases h'.cursor m id hid with hbefore | hin
    · exact h.cursor m id hbefore
    · rw [h.ids] at hin
      exact .inr hin
  drag id hid := by
    rcases h'.drag id hid with hbefore | ⟨m, hin⟩
    · exact h.drag id hbefore
    · rw [h.ids] at hin
      exact .inr ⟨m, hin⟩

theorem Quiet.wellFormed (h : Quiet s s') (hs : s.WellFormed) : s'.WellFormed where
  lower := by rw [h.current]; exact hs.lower
  upper := by rw [h.current]; exact hs.upper
  fresh r id hid := by
    rw [h.ids] at hid
    rw [h.nextId]
    exact hs.fresh r id hid
  nodup r := by rw [h.ids]; exact hs.nodup r
  apart r r' hne := by rw [h.ids, h.ids]; exact hs.apart r r' hne
  folders r := h.folders r (hs.folders r)
  freshReleased := by rw [h.released, h.nextId]; exact hs.freshReleased
  releasedOnce := by rw [h.released]; exact hs.releasedOnce
  live r := by rw [h.ids, h.released]; exact hs.live r
  cursor m id hid := by
    rw [h.ids]
    rcases h.cursor m id hid with hbefore | hin
    · exact hs.cursor m id hbefore
    · exact hin

theorem Quiet.dragLive (h : Quiet s s') (hs : s.DragLive) : s'.DragLive := by
  intro id hid
  simp only [h.ids]
  rcases h.drag id hid with hbefore | hin
  · exact hs id hbefore
  · exact hin

@[simp] theorem tree_setTree (r r' : Root) (items : Items) (s : Menus F) :
    (s.setTree r items).tree r' = if r' = r then items else s.tree r' := by
  by_cases hr : r' = r
  · subst hr
    simp [tree, setTree]
  · simp [tree, setTree, hr]

theorem setTree_quiet {r : Root} {items : Items} (hids : items.ids = (s.tree r).ids)
    (hfolders : (s.tree r).Folders → items.Folders) : Quiet s (s.setTree r items) := by
  refine ⟨rfl, fun r' => ?_, fun r' hr' => ?_, rfl, rfl, fun _ _ h => .inl h, fun _ h => .inl h⟩
  · rw [tree_setTree]
    split
    · next h => rw [h, hids]
    · rfl
  · rw [tree_setTree]
    split
    · next h => exact hfolders (h ▸ hr')
    · exact hr'

theorem traverse_quiet (m : Int) (s : Menus F) : Quiet s (s.traverse m) := by
  have htree : Quiet s (s.setTree (.menu m) (s.walk m).1) :=
    setTree_quiet (ids_traverse _ _ _ _) folders_traverse
  refine ⟨rfl, htree.ids, htree.folders, rfl, rfl, fun m' id hid => ?_, fun _ h => .inl h⟩
  simp only [traverse, Function.update_apply] at hid
  split at hid
  · next hm =>
      subst hm
      exact (mem_of_traverse hid).symm
  · exact .inl hid

theorem changeItem_quiet (id : ItemId) (f : MenuItem → MenuItem) (s : Menus F) : Quiet s (s.changeItem id f) :=
  ⟨rfl, fun _ => ids_change id f _, fun _ => folders_change, rfl, rfl, fun _ _ h => .inl h,
    fun _ h => .inl h⟩

theorem quiet_of_eq (hcurrent : s'.currentMenu = s.currentMenu) (htree : s'.tree = s.tree)
    (hnext : s'.nextId = s.nextId) (hreleased : s'.released = s.released)
    (hcursor : s'.menuCursorItem = s.menuCursorItem) (hdrag : s'.dragItem = s.dragItem) : Quiet s s' :=
  ⟨hcurrent, fun r => by rw [htree], fun r h => by rwa [htree], hnext, hreleased,
    fun m id h => .inl (by rwa [hcursor] at h), fun id h => .inl (by rwa [hdrag] at h)⟩

theorem cursorUp_quiet (s : Menus F) : Quiet s s.cursorUp := quiet_of_eq rfl rfl rfl rfl rfl rfl

theorem cursorDown_quiet (s : Menus F) : Quiet s s.cursorDown := quiet_of_eq rfl rfl rfl rfl rfl rfl

theorem setCurPos_quiet (pos : Int) (s : Menus F) : Quiet s (s.setCurPos pos) := by
  have hwalk := traverse_quiet s.currentMenu s
  simp only [setCurPos]
  split
  · refine hwalk.trans ⟨rfl, fun _ => rfl, fun _ h => h, rfl, rfl, fun m id hid => ?_, fun _ h => .inl h⟩
    simp only [Function.update_apply] at hid
    split at hid
    · exact absurd hid (by simp)
    · exact .inl hid
  · refine Quiet.trans ?_ (traverse_quiet _ _)
    exact hwalk.trans (quiet_of_eq rfl rfl rfl rfl rfl rfl)

theorem continueDrag_quiet (speed : DragSpeed) (event : MouseEvent) (s : Menus F) :
    Quiet s (s.continueDrag speed event) := by
  simp only [continueDrag]
  split
  · exact Quiet.refl s
  · split
    · exact ⟨rfl, fun _ => rfl, fun _ h => h, rfl, rfl, fun _ _ h => .inl h, fun _ h => absurd h (by simp)⟩
    · refine Quiet.trans ?_ (changeItem_quiet _ _ _)
      exact quiet_of_eq rfl rfl rfl rfl rfl rfl

theorem startDrag_quiet (s : Menus F) : Quiet s s.startDrag := by
  simp only [startDrag]
  split
  · next hovered hfind =>
      split
      · refine ⟨rfl, fun _ => rfl, fun _ h => h, rfl, rfl, fun _ _ h => .inl h, fun id hid => .inr ?_⟩
        cases hid
        exact ⟨_, mem_of_findIndex hfind⟩
      · exact Quiet.refl s
  · exact Quiet.refl s

/-! ### Items that are added -/

variable {parent : Parent} {new : Items} {n : Nat} {m hChars gap : Int}

/-- What `append` does: the items are put into one tree. -/
theorem append_eq_some (hs : s.WellFormed) (happend : s.append parent new = some s') :
    ∃ items, s' = s.setTree parent.of items ∧ items.ids.Perm ((s.tree parent.of).ids ++ new.ids) ∧
      (new.Folders → items.Folders) := by
  cases parent with
  | root r =>
    simp only [append, Option.some.injEq] at happend
    exact ⟨_, happend.symm, ids_append _ _, folders_append (hs.folders r)⟩
  | item r id =>
    simp only [append] at happend
    split at happend
    · next folder hfind =>
        split at happend
        · next hfolder =>
            have hin := (mem_of_find hfind).1
            exact ⟨_, (Option.some.inj happend).symm, ids_appendUnder (hs.nodup r) hin,
              folders_appendUnder (hs.nodup r) hfind hfolder (hs.folders r)⟩
        · exact absurd happend (by simp)
    · exact absurd happend (by simp)

/-- Items that are in no tree yet and were not released can be added. -/
theorem append_wellFormed (hs : s.WellFormed) (hnodup : new.ids.Nodup)
    (hfolders : new.Folders) (hfresh : ∀ id ∈ new.ids, id < s.nextId) (hlive : new.ids.Disjoint s.released)
    (hapart : ∀ r, new.ids.Disjoint (s.tree r).ids) (happend : s.append parent new = some s') : s'.WellFormed := by
  obtain ⟨items, rfl, hperm, hitems⟩ := append_eq_some hs happend
  have hmem : ∀ id, id ∈ items.ids ↔ id ∈ (s.tree parent.of).ids ∨ id ∈ new.ids := by
    intro id
    rw [hperm.mem_iff, mem_append]
  refine ⟨hs.lower, hs.upper, fun r id hid => ?_, fun r => ?_, fun r r' hne => ?_, fun r => ?_,
    hs.freshReleased, hs.releasedOnce, fun r id hid => ?_, fun m id hid => ?_⟩
  · rw [tree_setTree] at hid
    split at hid
    · exact ((hmem id).1 hid).elim (hs.fresh _ id) (hfresh id)
    · exact hs.fresh r id hid
  · rw [tree_setTree]
    split
    · rw [hperm.nodup_iff, nodup_append]
      exact ⟨hs.nodup _, hnodup, fun a ha b hb hab => hapart _ hb (hab ▸ ha)⟩
    · exact hs.nodup r
  · rw [tree_setTree, tree_setTree]
    split
    · next hr =>
        rw [if_neg (fun hr' => hne (hr.trans hr'.symm))]
        intro id hid hid'
        exact ((hmem id).1 hid).elim (fun h => hs.apart _ _ (hr ▸ hne) h hid') (fun h => hapart _ h hid')
    · split
      · next hr hr' =>
          intro id hid hid'
          exact ((hmem id).1 hid').elim (fun h => hs.apart _ _ hr hid h) (fun h => hapart _ h hid)
      · exact hs.apart r r' hne
  · rw [tree_setTree]
    split
    · exact hitems hfolders
    · exact hs.folders r
  · rw [tree_setTree] at hid
    split at hid
    · exact ((hmem id).1 hid).elim (fun h => hs.live _ h) (fun h => hlive h)
    · exact hs.live r hid
  · rw [tree_setTree]
    have hin := hs.cursor m id hid
    split
    · next hm => exact (hmem id).2 (.inl (hm ▸ hin))
    · exact hin

/-- `malloc` gives an item that was not given before. -/
theorem alloc_wellFormed (hs : s.WellFormed) : WellFormed { s with nextId := s.nextId + 1 } :=
  { hs with
    fresh := fun r id hid => Nat.lt_succ_of_lt (hs.fresh r id hid)
    freshReleased := fun id hid => Nat.lt_succ_of_lt (hs.freshReleased id hid) }

theorem addItem_wellFormed {item : MenuItem} (hs : s.WellFormed)
    (hadd : s.addItem parent item = some s') : s'.WellFormed := by
  refine append_wellFormed (alloc_wellFormed hs) ?_ ?_ ?_ ?_ ?_ hadd
  · simp [ids]
  · exact ⟨fun _ => rfl, trivial, trivial⟩
  · simp [ids]
  · intro id hid hreleased
    have hlt := hs.freshReleased id hreleased
    simp only [ids, append_nil, mem_singleton] at hid
    exact Nat.ne_of_lt hlt hid
  · intro r id hid hin
    have hlt := hs.fresh r id hin
    simp only [ids, append_nil, mem_singleton] at hid
    exact Nat.ne_of_lt hlt hid

theorem setTree_nil_wellFormed (r : Root) (hs : s.WellFormed) (hroot : ∀ m id, s.menuCursorItem m = some id → .menu m ≠ r) :
    (s.setTree r .nil).WellFormed := by
  have hsub : ∀ r', (((s.setTree r .nil).tree r').ids.Sublist (s.tree r').ids) := by
    intro r'
    rw [tree_setTree]
    split
    · exact nil_sublist _
    · exact Sublist.refl _
  refine ⟨hs.lower, hs.upper, fun r' id hid => hs.fresh r' id ((hsub r').subset hid), fun r' => (hs.nodup r').sublist (hsub r'),
    fun r' r'' hne id hid hid' => hs.apart r' r'' hne ((hsub r').subset hid) ((hsub r'').subset hid'), fun r' => ?_,
    hs.freshReleased, hs.releasedOnce, fun r' id hid => hs.live r' ((hsub r').subset hid), fun m id hid => ?_⟩
  · rw [tree_setTree]
    split
    · trivial
    · exact hs.folders r'
  · rw [tree_setTree, if_neg (hroot m id hid)]
    exact hs.cursor m id hid

theorem addAll_eq_some (hs : s.WellFormed) (hadd : s.addAll n parent = some s') :
    (s.setTree (.own n) .nil).WellFormed ∧ (s.setTree (.own n) .nil).append parent (s.tree (.own n)) = some s' := by
  simp only [addAll] at hadd
  split at hadd
  · exact absurd hadd (by simp)
  · exact ⟨setTree_nil_wellFormed _ hs (by simp), hadd⟩

theorem addAll_wellFormed (hs : s.WellFormed) (hadd : s.addAll n parent = some s') : s'.WellFormed := by
  obtain ⟨hempty, happend⟩ := addAll_eq_some hs hadd
  refine append_wellFormed hempty (hs.nodup _) (hs.folders _) (hs.fresh _) (hs.live _) (fun r id hid hin => ?_) happend
  rw [tree_setTree] at hin
  split at hin
  · simp [ids] at hin
  · next hr => exact hs.apart _ r (Ne.symm hr) hid hin

theorem append_dragLive (hs : s.WellFormed) (hdrag : s.DragLive)
    (happend : s.append parent new = some s') : s'.DragLive := by
  obtain ⟨items, rfl, hperm, -⟩ := append_eq_some hs happend
  intro id hid
  obtain ⟨m, hin⟩ := hdrag id hid
  refine ⟨m, ?_⟩
  rw [tree_setTree]
  split
  · next hm => exact hperm.mem_iff.2 (mem_append_left _ (hm ▸ hin))
  · exact hin

theorem append_released (hs : s.WellFormed) (happend : s.append parent new = some s') : s'.released = s.released := by
  obtain ⟨items, rfl, -⟩ := append_eq_some hs happend
  rfl

theorem addAll_dragLive (hs : s.WellFormed) (hdrag : s.DragLive)
    (hadd : s.addAll n parent = some s') : s'.DragLive := by
  obtain ⟨hempty, happend⟩ := addAll_eq_some hs hadd
  refine append_dragLive hempty (fun id hid => ?_) happend
  obtain ⟨m, hin⟩ := hdrag id hid
  refine ⟨m, ?_⟩
  exact hin

/-! ### Menus that are cleared -/

def DragApart (s : Menus F) (m : Int) : Prop := ∀ id, s.dragItem = some id → id ∉ (s.tree (.menu m)).ids

theorem tree_clearMenu (m : Int) (s : Menus F) (r : Root) :
    (s.clearMenu m).tree r = if r = .menu m then .nil else s.tree r := tree_setTree (.menu m) r .nil s

/-- What is left behind when a menu is cleared is in no tree, nor is it released. -/
theorem clearMenu_wellFormed (m : Int) (hs : s.WellFormed) : (s.clearMenu m).WellFormed := by
  have hcursor : ∀ m' id, (s.clearMenu m).menuCursorItem m' = some id → s.menuCursorItem m' = some id ∧ m' ≠ m := by
    intro m' id hid
    simp only [clearMenu, Function.update_apply] at hid
    split at hid
    · exact absurd hid (by simp)
    · next hm => exact ⟨hid, hm⟩
  have hempty : WellFormed ({ s with menuCursorItem := (s.clearMenu m).menuCursorItem }.setTree (.menu m) .nil) :=
    setTree_nil_wellFormed _ { hs with cursor := fun m' id hid => hs.cursor m' id (hcursor m' id hid).1 }
      (fun m' id hid => by simpa using (hcursor m' id hid).2)
  have hfreed : ∀ id ∈ (s.tree (.menu m)).clearChildMenu, id ∈ (s.tree (.menu m)).ids :=
    fun id hid => (clearChildMenu_subperm _).subset hid
  refine { hempty with freshReleased := fun id hid => ?_, releasedOnce := ?_, live := fun r id hid hreleased => ?_ }
  · rcases mem_append.1 hid with hid | hid
    · exact hs.freshReleased id hid
    · exact hs.fresh _ id (hfreed id hid)
  · apply nodup_append.2
    refine ⟨hs.releasedOnce, clearChildMenu_nodup (hs.nodup _), fun a ha b hb hab => ?_⟩
    exact hs.live _ (hfreed b hb) (hab ▸ ha)
  · rw [tree_clearMenu] at hid
    split at hid
    · simp [ids] at hid
    · next hr =>
        rcases mem_append.1 hreleased with hreleased | hreleased
        · exact hs.live r hid hreleased
        · exact hs.apart r _ hr hid (hfreed id hreleased)

theorem clearMenu_dragLive (hdrag : s.DragLive) (hapart : s.DragApart m) : (s.clearMenu m).DragLive := by
  intro id hid
  obtain ⟨m', hin⟩ := hdrag id hid
  refine ⟨m', ?_⟩
  rw [tree_clearMenu, if_neg]
  · exact hin
  · intro hm
    rw [hm] at hin
    exact hapart id hid hin

/-- A cleared menu releases all of its items just when only the first item of every list has children. -/
theorem clearMenu_releases_iff (m : Int) (hs : s.WellFormed) :
    (∀ id ∈ (s.tree (.menu m)).ids, id ∈ (s.clearMenu m).released) ↔ (s.tree (.menu m)).OnlyFirstHasChildren := by
  rw [← clearChildMenu_perm_iff (hs.folders _)]
  have hsub := clearChildMenu_subperm (s.tree (.menu m))
  constructor
  · intro hall
    apply hsub.antisymm
    apply subperm_of_subset (hs.nodup _)
    intro id hid
    rcases mem_append.1 (hall id hid) with hbefore | hfreed
    · exact absurd hbefore (fun h => hs.live _ hid h)
    · exact hfreed
  · intro hperm id hid
    exact mem_append_right _ (hperm.mem_iff.2 hid)

/-! ### Menus that are pushed and popped -/

/-- The menu is one that can be pushed. -/
def Accepts (s : Menus F) (hChars gap : Int) : Prop :=
  0 < pushHeight hChars gap ∧ pushHeight hChars gap ≤ menuContentHeight ∧ s.currentMenu + 1 < numMenuRoots

theorem pushMenu_of_not_accepts (hrefused : ¬ s.Accepts hChars gap) : s.pushMenu hChars gap = s := by
  simp only [Accepts] at hrefused
  simp only [pushMenu]
  split
  · rfl
  · split
    · rfl
    · exfalso
      omega

theorem pushMenu_of_accepts (haccepts : s.Accepts hChars gap) :
    s.pushMenu hChars gap = s.openMenu (s.currentMenu + 1) (menuVisibleRows (pushHeight hChars gap) gap) := by
  obtain ⟨hlow, hhigh, hroom⟩ := haccepts
  simp only [pushMenu]
  rw [if_neg (by omega), if_neg (by omega)]

theorem tree_update_root (r : Root) (root : MenuRoot F) (s : Menus F) (hroot : root.firstChild = s.tree r) :
    { s with roots := Function.update s.roots r root }.tree = s.tree := by
  funext r'
  by_cases hr : r' = r
  · subst hr
    simpa [tree] using hroot
  · simp [tree, hr]

theorem setRoot_quiet (r : Root) (root : MenuRoot F) (s : Menus F) (hroot : root.firstChild = s.tree r) :
    Quiet s { s with roots := Function.update s.roots r root } :=
  quiet_of_eq rfl (tree_update_root r root s hroot) rfl rfl rfl rfl

theorem openMenu_quiet (m visibleRows : Int) (s : Menus F) :
    Quiet ({ s with currentMenu := m }.clearMenu m) (s.openMenu m visibleRows) := by
  refine Quiet.trans (setRoot_quiet (.menu m)
    { ({ s with currentMenu := m }.clearMenu m).roots (.menu m) with onPoppedOff := none, onPoppedTo := none } _ rfl) ?_
  exact quiet_of_eq rfl rfl rfl rfl rfl rfl

theorem openMenu_wellFormed (visibleRows : Int) (hs : WellFormed { s with currentMenu := m }) :
    (s.openMenu m visibleRows).WellFormed :=
  (openMenu_quiet m visibleRows s).wellFormed (clearMenu_wellFormed m hs)

theorem pushMenu_wellFormed (hChars gap : Int) (hs : s.WellFormed) : (s.pushMenu hChars gap).WellFormed := by
  by_cases haccepts : s.Accepts hChars gap
  · rw [pushMenu_of_accepts haccepts]
    have hlower := hs.lower
    exact openMenu_wellFormed _ { hs with lower := by dsimp only; omega, upper := haccepts.2.2 }
  · rwa [pushMenu_of_not_accepts haccepts]

theorem pushMenu_dragLive (hdrag : s.DragLive)
    (hapart : s.Accepts hChars gap → s.DragApart (s.currentMenu + 1)) : (s.pushMenu hChars gap).DragLive := by
  by_cases haccepts : s.Accepts hChars gap
  · rw [pushMenu_of_accepts haccepts]
    have hmoved : DragLive { s with currentMenu := s.currentMenu + 1 } := hdrag
    exact (openMenu_quiet _ _ s).dragLive (clearMenu_dragLive hmoved (hapart haccepts))
  · rwa [pushMenu_of_not_accepts haccepts]

theorem closeMenu_wellFormed (hs : s.WellFormed) (hopen : 0 < s.currentMenu) : s.closeMenu.WellFormed := by
  have hupper := hs.upper
  exact { clearMenu_wellFormed s.currentMenu hs with
    lower := by simp only [closeMenu]; omega
    upper := by simp only [closeMenu]; omega }

theorem closeMenu_dragLive (hdrag : s.DragLive) (hapart : s.DragApart s.currentMenu) : s.closeMenu.DragLive :=
  clearMenu_dragLive hdrag hapart

end Menus

end Bmx.Menu
