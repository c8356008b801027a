import Bmx.Menu.MenuItem
import Mathlib.Data.List.Perm.Subperm
import Mathlib.Data.List.Nodup

/-!
# The items of a menu

An item knows its first child and the item after it. A walk along both visits every item of a menu, and
numbers the rows of those that are shown.
-/

namespace Bmx.Menu

open List Option

/-- An item is what `malloc` gave for it. No number is given twice. -/
abbrev ItemId : Type := Nat

structure MenuNode extends MenuItem where
  id : ItemId
  renderIndex : Int := 0

/-- The items that are reached through `first_child` and `next`. -/
inductive Items
  | nil
  | node (item : MenuNode) (firstChild next : Items)

namespace Items

/-- Every item of a tree, at every depth. -/
def ids : Items → List ItemId
  | nil => []
  | node item firstChild next => item.id :: (firstChild.ids ++ next.ids)

def siblings : Items → List ItemId
  | nil => []
  | node item _ next => item.id :: next.siblings

/-- `append`, of a whole list. -/
def append : Items → Items → Items
  | nil, new => new
  | node item firstChild next, new => node item firstChild (next.append new)

/-- `append`, to a folder of the tree. -/
def appendUnder (parent : ItemId) (new : Items) : Items → Items
  | nil => nil
  | node item firstChild next =>
    if item.id = parent then node item (firstChild.append new) next
    else node item (appendUnder parent new firstChild) (appendUnder parent new next)

def find (id : ItemId) : Items → Option MenuNode
  | nil => none
  | node item firstChild next =>
    if item.id = id then some item else (firstChild.find id).or (next.find id)

/-- An item is written through its pointer. Nothing writes its type. -/
def change (id : ItemId) (f : MenuItem → MenuItem) : Items → Items
  | nil => nil
  | node item firstChild next =>
    node (if item.id = id then { item with toMenuItem := { f item.toMenuItem with type := item.type } } else item)
      (firstChild.change id f) (next.change id f)

/-- `ui_clear_child_menu`: what it frees, in that order. -/
def clearChildMenu : Items → List ItemId
  | nil => []
  | node item firstChild next =>
    (if item.type = .folder then firstChild.clearChildMenu else []) ++ item.id :: next.siblings

/-- `ui_traverse_children`, from a row on: the items with their rows, the row after them, and the item of
the row that is sought. -/
def traverse (sought : Int → Bool) : Items → Int → Option ItemId → Items × Int × Option ItemId
  | nil, index, cursorItem => (nil, index, cursorItem)
  | node item firstChild next, index, cursorItem =>
    if item.hidden then
      let rest := next.traverse sought index cursorItem
      (node { item with renderIndex := -1 } firstChild rest.1, rest.2)
    else
      let cursorItem := if sought index then some item.id else cursorItem
      let children :=
        if item.type = .folder ∧ item.isExpanded then firstChild.traverse sought (index + 1) cursorItem
        else (firstChild, index + 1, cursorItem)
      let rest := next.traverse sought children.2.1 children.2.2
      (node { item with renderIndex := index } children.1 rest.1, rest.2)

/-- `ui_menu_mouse_find_index`. -/
def findIndex (index : Int) : Items → Option MenuNode
  | nil => none
  | node item firstChild next =>
    if item.hidden then next.findIndex index
    else if item.renderIndex = index then some item
    else if item.type = .folder ∧ item.isExpanded then (firstChild.findIndex index).or (next.findIndex index)
    else next.findIndex index

def Folders : Items → Prop
  | nil => True
  | node item firstChild next => (item.type ≠ .folder → firstChild = nil) ∧ firstChild.Folders ∧ next.Folders

def Childless : Items → Prop
  | nil => True
  | node _ firstChild next => firstChild = nil ∧ next.Childless

/-- Of every list of the tree, only the first item has children. -/
def OnlyFirstHasChildren : Items → Prop
  | nil => True
  | node _ firstChild next => firstChild.OnlyFirstHasChildren ∧ next.Childless

/-! ### What is freed -/

theorem siblings_sublist (items : Items) : items.siblings.Sublist items.ids := by
  induction items with
  | nil => exact Sublist.refl []
  | node item firstChild next _ ihNext =>
    exact (ihNext.trans (sublist_append_right _ _)).cons_cons _

theorem clearChildMenu_subperm (items : Items) : items.clearChildMenu.Subperm items.ids := by
  induction items with
  | nil => exact Subperm.refl []
  | node item firstChild next ihChild _ =>
    have hchild : (if item.type = .folder then firstChild.clearChildMenu else []).Subperm firstChild.ids := by
      split
      · exact ihChild
      · exact nil_subperm
    have hrest : next.siblings.Subperm next.ids := (siblings_sublist next).subperm
    have hboth := Subperm.append hchild hrest
    exact (perm_middle.subperm).trans ((subperm_cons item.id).2 hboth)

variable {items new : Items} {parent id : ItemId} {sought : Int → Bool} {index : Int} {cursorItem : Option ItemId}
  {item : MenuNode}

theorem clearChildMenu_nodup (hnodup : items.ids.Nodup) : items.clearChildMenu.Nodup := by
  obtain ⟨freed, hperm, hsub⟩ := clearChildMenu_subperm items
  exact hperm.nodup_iff.1 (hnodup.sublist hsub)

theorem childless_iff (items : Items) : items.Childless ↔ items.siblings.length = items.ids.length := by
  induction items with
  | nil => simp [Childless, siblings, ids]
  | node item firstChild next _ ihNext =>
    have hshort := (siblings_sublist next).length_le
    have hempty : firstChild = nil ↔ firstChild.ids.length = 0 := by
      cases firstChild <;> simp [ids]
    simp only [Childless, siblings, ids, length_cons, length_append, ihNext, hempty]
    omega

/-- Everything is freed just when only the first item of every list has children. -/
theorem clearChildMenu_perm_iff (hfolders : items.Folders) :
    items.clearChildMenu.Perm items.ids ↔ items.OnlyFirstHasChildren := by
  suffices h : items.clearChildMenu.length = items.ids.length ↔ items.OnlyFirstHasChildren by
    rw [← h]
    exact ⟨Perm.length_eq, (clearChildMenu_subperm items).perm_of_length_le ∘ Nat.le_of_eq ∘ Eq.symm⟩
  induction items with
  | nil => simp [clearChildMenu, ids, OnlyFirstHasChildren]
  | node item firstChild next ihChild _ =>
    obtain ⟨hleaf, hchild, -⟩ := hfolders
    have hshortNext := (siblings_sublist next).length_le
    have hshortChild := (clearChildMenu_subperm firstChild).length_le
    have hfreed : (if item.type = .folder then firstChild.clearChildMenu else []).length
        = firstChild.clearChildMenu.length := by
      split
      · rfl
      · next hother => simp [hleaf hother, clearChildMenu]
    simp only [clearChildMenu, ids, OnlyFirstHasChildren, length_cons, length_append, hfreed,
      ← ihChild hchild, childless_iff]
    omega

/-! ### What the walks leave alone -/

theorem ids_append (items new : Items) : (items.append new).ids.Perm (items.ids ++ new.ids) := by
  induction items with
  | nil => simp [append, ids]
  | node item firstChild next _ ihNext =>
    simp only [append, ids, cons_append, append_assoc]
    exact (ihNext.append_left _).cons _

theorem append_between (before new after : List ItemId) :
    ((before ++ new) ++ after).Perm (before ++ (after ++ new)) := by
  rw [append_assoc]
  exact perm_append_comm.append_left before

theorem appendUnder_eq_self (hparent : parent ∉ items.ids) : appendUnder parent new items = items := by
  induction items with
  | nil => rfl
  | node item firstChild next ihChild ihNext =>
    simp only [ids, mem_cons, mem_append, not_or] at hparent
    obtain ⟨hitem, hchild, hnext⟩ := hparent
    rw [appendUnder, if_neg (Ne.symm hitem), ihChild hchild, ihNext hnext]

theorem ids_appendUnder (hnodup : items.ids.Nodup)
    (hparent : parent ∈ items.ids) : (appendUnder parent new items).ids.Perm (items.ids ++ new.ids) := by
  induction items with
  | nil => simp [ids] at hparent
  | node item firstChild next ihChild ihNext =>
    simp only [ids, nodup_cons, nodup_append, mem_append, not_or] at hnodup
    obtain ⟨⟨hitemChild, hitemNext⟩, hchild, hnext, hapart⟩ := hnodup
    by_cases hitem : item.id = parent
    · rw [appendUnder, if_pos hitem]
      simp only [ids, cons_append, append_assoc]
      apply List.Perm.cons
      have hchildren := (ids_append firstChild new).append_right next.ids
      exact hchildren.trans (append_between firstChild.ids new.ids next.ids)
    · rw [appendUnder, if_neg hitem]
      simp only [ids, cons_append, append_assoc]
      apply List.Perm.cons
      simp only [ids, mem_cons, mem_append] at hparent
      rcases hparent with hparent | hparent | hparent
      · exact absurd hparent.symm hitem
      · have hother : parent ∉ next.ids := fun h => hapart parent hparent parent h rfl
        rw [appendUnder_eq_self hother]
        have hchildren := (ihChild hchild hparent).append_right next.ids
        exact hchildren.trans (append_between firstChild.ids new.ids next.ids)
      · have hother : parent ∉ firstChild.ids := fun h => hapart parent h parent hparent rfl
        rw [appendUnder_eq_self hother]
        exact (ihNext hnext hparent).append_left _

@[simp] theorem ids_change (id : ItemId) (f : MenuItem → MenuItem) (items : Items) :
    (items.change id f).ids = items.ids := by
  induction items with
  | nil => rfl
  | node item firstChild next ihChild ihNext =>
    have hid : (if item.id = id then { item with toMenuItem := { f item.toMenuItem with type := item.type } }
        else item).id = item.id := by split <;> rfl
    simp only [change, ids, hid, ihChild, ihNext]

@[simp] theorem ids_traverse (sought : Int → Bool) (items : Items) (index : Int) (cursorItem : Option ItemId) :
    (items.traverse sought index cursorItem).1.ids = items.ids := by
  induction items generalizing index cursorItem with
  | nil => rfl
  | node item firstChild next ihChild ihNext =>
    simp only [traverse]
    by_cases hhidden : item.hidden
    · simp only [hhidden, if_true, ids, ihNext]
    · by_cases hopen : item.type = .folder ∧ item.isExpanded <;> simp [hhidden, hopen, ids, ihChild, ihNext]

theorem mem_of_traverse (hfound : (items.traverse sought index cursorItem).2.2 = some id) :
    id ∈ items.ids ∨ cursorItem = some id := by
  induction items generalizing index cursorItem with
  | nil => exact .inr hfound
  | node item firstChild next ihChild ihNext =>
    simp only [ids, mem_cons, mem_append]
    by_cases hhidden : item.hidden
    · simp only [traverse, hhidden, if_true] at hfound
      rcases ihNext hfound with hnext | hbefore
      · exact .inl (.inr (.inr hnext))
      · exact .inr hbefore
    · -- the row's own item may take the place of the one before
      have hrow : ∀ row : Option ItemId, row = (if sought index then some item.id else cursorItem) →
          row = some id → id = item.id ∨ cursorItem = some id := by
        intro row hrow hid
        rw [hrow] at hid
        split at hid
        · exact .inl (some.inj hid).symm
        · exact .inr hid
      simp only [traverse, hhidden, Bool.false_eq_true, if_false] at hfound
      rcases ihNext hfound with hnext | hbefore
      · exact .inl (.inr (.inr hnext))
      · split at hbefore
        · rcases ihChild hbefore with hchild | hself
          · exact .inl (.inr (.inl hchild))
          · exact (hrow _ rfl hself).imp_left .inl
        · exact (hrow _ rfl hbefore).imp_left .inl

theorem mem_of_find (hfind : items.find id = some item) : id ∈ items.ids ∧ item.id = id := by
  induction items with
  | nil => simp [find] at hfind
  | node head firstChild next ihChild ihNext =>
    simp only [find] at hfind
    simp only [ids, mem_cons, mem_append]
    split at hfind
    · next hid =>
        cases hfind
        exact ⟨.inl hid.symm, hid⟩
    · rcases or_eq_some_iff.1 hfind with hchild | ⟨-, hnext⟩
      · exact ⟨.inr (.inl (ihChild hchild).1), (ihChild hchild).2⟩
      · exact ⟨.inr (.inr (ihNext hnext).1), (ihNext hnext).2⟩

theorem mem_of_findIndex (hfind : items.findIndex index = some item) : item.id ∈ items.ids := by
  induction items with
  | nil => simp [findIndex] at hfind
  | node head firstChild next ihChild ihNext =>
    simp only [findIndex] at hfind
    simp only [ids, mem_cons, mem_append]
    split at hfind
    · exact .inr (.inr (ihNext hfind))
    · split at hfind
      · exact .inl (congrArg MenuNode.id (some.inj hfind)).symm
      · split at hfind
        · rcases or_eq_some_iff.1 hfind with hchild | ⟨-, hnext⟩
          · exact .inr (.inl (ihChild hchild))
          · exact .inr (.inr (ihNext hnext))
        · exact .inr (.inr (ihNext hfind))

theorem folders_append (hitems : items.Folders) (hnew : new.Folders) : (items.append new).Folders := by
  induction items with
  | nil => exact hnew
  | node item firstChild next _ ihNext => exact ⟨hitems.1, hitems.2.1, ihNext hitems.2.2⟩

theorem folders_appendUnder {folder : MenuNode} (hnodup : items.ids.Nodup)
    (hfind : items.find parent = some folder) (hfolder : folder.type = .folder) (hitems : items.Folders)
    (hnew : new.Folders) : (appendUnder parent new items).Folders := by
  induction items with
  | nil => simp [find] at hfind
  | node item firstChild next ihChild ihNext =>
    simp only [ids, nodup_cons, nodup_append, mem_append, not_or] at hnodup
    obtain ⟨-, hchildNodup, hnextNodup, hapart⟩ := hnodup
    obtain ⟨hleaf, hchild, hnext⟩ := hitems
    simp only [find] at hfind
    split at hfind
    · next hitem =>
        cases hfind
        rw [appendUnder, if_pos hitem]
        exact ⟨fun hother => absurd hfolder hother, folders_append hchild hnew, hnext⟩
    · next hitem =>
        rw [appendUnder, if_neg hitem]
        rcases or_eq_some_iff.1 hfind with hfound | ⟨-, hfound⟩
        · have hin := (mem_of_find hfound).1
          have hother : parent ∉ next.ids := fun h => hapart parent hin parent h rfl
          rw [appendUnder_eq_self hother]
          refine ⟨fun hnot => ?_, ihChild hchildNodup hfound hchild, hnext⟩
          rw [hleaf hnot] at hin
          simp [ids] at hin
        · have hin := (mem_of_find hfound).1
          have hother : parent ∉ firstChild.ids := fun h => hapart parent h parent hin rfl
          rw [appendUnder_eq_self hother]
          exact ⟨hleaf, hchild, ihNext hnextNodup hfound hnext⟩

theorem folders_change {f : MenuItem → MenuItem} (hitems : items.Folders) : (items.change id f).Folders := by
  induction items with
  | nil => trivial
  | node item firstChild next ihChild ihNext =>
    obtain ⟨hleaf, hchild, hnext⟩ := hitems
    refine ⟨fun hother => ?_, ihChild hchild, ihNext hnext⟩
    have htype : item.type ≠ .folder := by
      intro hfolder
      apply hother
      split <;> exact hfolder
    rw [hleaf htype]
    rfl

theorem folders_traverse (hitems : items.Folders) : (items.traverse sought index cursorItem).1.Folders := by
  induction items generalizing index cursorItem with
  | nil => trivial
  | node item firstChild next ihChild ihNext =>
    obtain ⟨hleaf, hchild, hnext⟩ := hitems
    simp only [traverse]
    split
    · exact ⟨hleaf, hchild, ihNext hnext⟩
    · split
      · next hopen => exact ⟨fun hother => absurd hopen.1 hother, ihChild hchild, ihNext hnext⟩
      · exact ⟨hleaf, hchild, ihNext hnext⟩

end Items

end Bmx.Menu
