import Bmx.Menu.MenuStackSpec

/-!
# Every run of the menus

A run is any sequence of pushes and pops, items, keys and moves of the mouse, with whatever the handlers do in
between. The menus stay well formed in every run. In a run whose pops meet the condition below, every pop
releases the whole menu and calls the handlers that ask for it, and no pointer is left behind.
-/

namespace Bmx.Menu

open Menus List

variable {F : Type}

/-- The handlers that ask for it are called, once each. -/
def PopRecord.Told (record : PopRecord F) : Prop :=
  record.called = (record.poppedOff.map fun handler => (Notice.poppedOff, some handler)).toList ++
    (record.poppedTo.map fun handler => (Notice.poppedTo, some handler)).toList

instance [DecidableEq F] (record : PopRecord F) : Decidable record.Told := inferInstanceAs (Decidable (_ = _))

/-- The handler of the popped menu was called if it asked for it, and the other one is still to come. -/
def PopRecord.HalfTold (record : PopRecord F) : Prop :=
  record.called = (record.poppedOff.map fun handler => (Notice.poppedOff, some handler)).toList

def Frame.Ok : Frame F → Prop
  | .poppedOff record | .notify record => record.HalfTold
  | .poppedTo record => record.Told
  | _ => True

namespace StackRun

variable {c c' : StackRun F} {op : Op F}

structure Sound (c : StackRun F) : Prop where
  lower : 0 ≤ c.menus.currentMenu
  upper : c.menus.currentMenu < numMenuRoots
  released : ∀ record ∈ c.begun, ∀ id ∈ record.tree.ids, c.menus.released.count id = 1
  cursor : ∀ m id, c.menus.menuCursorItem m = some id → id ∉ c.menus.released
  drag : ∀ id, c.menus.dragItem = some id → id ∉ c.menus.released
  told : ∀ record ∈ c.pops, record.Told

/-! ### The condition -/

/-- A menu that is popped has items under the first item of a list only, and the dragged item is none of it. -/
def PopsWhole (c : StackRun F) : Prop :=
  0 < c.menus.currentMenu →
    (c.menus.tree (.menu c.menus.currentMenu)).OnlyFirstHasChildren ∧ c.menus.DragApart c.menus.currentMenu

/-- The stack is as the pop left it, and what the menu that shows again asks for is what the popped one asks for. -/
def ReturnsTo (record : PopRecord F) (c : StackRun F) : Prop :=
  c.menus.currentMenu = record.menu - 1 ∧
    ((c.menus.roots (.menu (record.menu - 1))).onPoppedTo = none ∨
      (c.menus.roots (.menu record.menu)).onPoppedTo = (c.menus.roots (.menu (record.menu - 1))).onPoppedTo)

def Meets (op : Op F) (c : StackRun F) : Prop :=
  match op with
  | .push hChars gap => c.menus.Accepts hChars gap → c.menus.DragApart (c.menus.currentMenu + 1)
  | .pop | .escape _ => c.PopsWhole
  | .resume =>
    match c.frames with
    | .notify record :: _ => c.ReturnsTo record
    | .popAll _ :: _ => c.PopsWhole
    | _ => True
  | _ => True

/-! ### What a step can do -/

inductive Change (op : Op F) (c : StackRun F) : StackRun F → Prop
  | quiet {c' : StackRun F} (menus : Menus.Quiet c.menus c'.menus)
      (frames : ∀ frame ∈ c'.frames, frame ∈ c.frames ∨ frame.record? = none ∧ frame.Ok) (pops : c'.pops = c.pops) :
      Change op c c'
  | push (hChars gap : Int) (hop : op = .push hChars gap) :
      Change op c { c with menus := c.menus.pushMenu hChars gap }
  | add (parent : Menus.Parent) (item : MenuItem) {s : Menus F} (hadd : c.menus.addItem parent item = some s) :
      Change op c { c with menus := s }
  | addAll (n : Nat) (parent : Menus.Parent) {s : Menus F} (hadd : c.menus.addAll n parent = some s) :
      Change op c { c with menus := s }
  | pop (hopen : 0 < c.menus.currentMenu) (hmeets : Meets op c → c.PopsWhole) : Change op c c.popMenu
  | offReturned {record : PopRecord F} {frames : List (Frame F)} (hframes : c.frames = .poppedOff record :: frames) :
      Change op c { c with frames := .notify record :: frames }
  | notify {record : PopRecord F} {frames : List (Frame F)} (hframes : c.frames = .notify record :: frames)
      (hmeets : Meets op c → c.ReturnsTo record) : Change op c ({ c with frames := frames }.notifyPoppedTo record)
  | toReturned {record : PopRecord F} {frames : List (Frame F)} (hframes : c.frames = .poppedTo record :: frames) :
      Change op c { c with frames := frames, pops := c.pops ++ [record] }

theorem toggle_quiet (mayClose : Bool) (s : Menus F) : Menus.Quiet s (toggle mayClose s) := by
  simp only [toggle]
  split
  · exact Menus.Quiet.refl s
  · exact quiet_of_eq rfl rfl rfl rfl rfl rfl

theorem moveCursor_quiet (down : Bool) (s : Menus F) : Menus.Quiet s (moveCursor down s) := by
  simp only [moveCursor]
  split
  · exact cursorDown_quiet s
  · exact cursorUp_quiet s

theorem focus_quiet (row : Int) (s : Menus F) : Menus.Quiet s (focus row s) := by
  refine Menus.Quiet.trans ?_ (traverse_quiet _ _)
  exact quiet_of_eq rfl rfl rfl rfl rfl rfl

variable {s : Menus F} {frame : Frame F} {frames : List (Frame F)} {gap : Int} {record : PopRecord F}

theorem change_of_quiet (hquiet : Menus.Quiet c.menus s) : Change op c { c with menus := s } :=
  .quiet hquiet (fun _ h => .inl h) rfl

theorem change_of_frame (hquiet : Menus.Quiet c.menus s)
    (hframe : frame.record? = none ∧ frame.Ok) : Change op c { c with menus := s, frames := frame :: c.frames } := by
  refine .quiet hquiet (fun other hother => ?_) rfl
  rcases mem_cons.1 hother with rfl | hbelow
  · exact .inr hframe
  · exact .inl hbelow

theorem change_of_tail (hframes : c.frames = frame :: frames)
    (hquiet : Menus.Quiet c.menus s) : Change op c { c with menus := s, frames := frames } := by
  refine .quiet hquiet (fun other hother => .inl ?_) rfl
  rw [hframes]
  exact mem_cons_of_mem _ hother

theorem popMenu_change (hmeets : Meets op c → c.PopsWhole) : Change op c c.popMenu := by
  by_cases hopen : 0 < c.menus.currentMenu
  · exact .pop hopen hmeets
  · have hsame : c.popMenu = c := by
      simp only [popMenu]
      rw [if_pos (by omega)]
    rw [hsame]
    exact change_of_quiet (Menus.Quiet.refl _)

theorem move_change (down : Bool) (c : StackRun F) : Change op c (c.move down) := by
  simp only [move]
  split
  · split
    · exact change_of_frame (Menus.Quiet.refl _) ⟨rfl, trivial⟩
    · exact change_of_quiet (moveCursor_quiet down _)
  · exact change_of_quiet (moveCursor_quiet down _)

theorem hover_change (row : Int) (c : StackRun F) : Change op c (c.hover row) := by
  have hwalk := traverse_quiet c.menus.currentMenu c.menus
  have hfocus := hwalk.trans (focus_quiet row _)
  simp only [hover]
  split
  · exact change_of_quiet hwalk
  · split
    · exact change_of_quiet hwalk
    · split
      · exact change_of_quiet hwalk
      · split
        · split
          · exact change_of_frame hwalk ⟨rfl, trivial⟩
          · exact change_of_quiet hfocus
        · exact change_of_quiet hfocus

theorem resume_change (hresume : c.resume = some c') : Change .resume c c' := by
  simp only [resume] at hresume
  split at hresume
  · exact absurd hresume (by simp)
  · next hframes =>
      cases hresume
      exact .offReturned hframes
  · next hframes =>
      cases hresume
      exact .notify hframes (fun hmeets => by simpa only [Meets, hframes] using hmeets)
  · next hframes =>
      cases hresume
      exact .toReturned hframes
  · next hframes =>
      split at hresume
      · cases hresume
        exact popMenu_change (fun hmeets => by simpa only [Meets, hframes] using hmeets)
      · cases hresume
        exact change_of_tail hframes (toggle_quiet _ _)
  · next hframes =>
      split at hresume
      · cases hresume
        exact change_of_tail hframes (moveCursor_quiet _ _)
      · cases hresume
        exact change_of_tail hframes (Menus.Quiet.refl _)
  · next hframes =>
      split at hresume
      · cases hresume
        exact change_of_tail hframes (focus_quiet _ _)
      · cases hresume
        exact change_of_tail hframes (Menus.Quiet.refl _)

theorem act_change (hact : c.act op = some c') : Change op c c' := by
  cases op with
  | push hChars gap =>
    cases hact
    exact .push hChars gap rfl
  | pop =>
    cases hact
    exact popMenu_change id
  | add parent item =>
    obtain ⟨s, hadd, rfl⟩ := Option.map_eq_some_iff.1 hact
    exact .add parent item hadd
  | addAll n parent =>
    obtain ⟨s, hadd, rfl⟩ := Option.map_eq_some_iff.1 hact
    exact .addAll n parent hadd
  | onPoppedOff m handler | onPoppedTo m handler =>
    cases hact
    exact change_of_quiet (setRoot_quiet _ _ _ rfl)
  | change id f =>
    cases hact
    exact change_of_quiet (changeItem_quiet id f _)
  | scroll m cursor top bottom | osd active =>
    cases hact
    exact change_of_quiet (quiet_of_eq rfl rfl rfl rfl rfl rfl)
  | setCurPos pos =>
    cases hact
    exact change_of_quiet (setCurPos_quiet pos _)
  | traverse =>
    cases hact
    exact change_of_quiet (traverse_quiet _ _)
  | render m =>
    cases hact
    exact change_of_quiet (traverse_quiet m _)
  | move down =>
    cases hact
    exact move_change down c
  | key key =>
    simp only [act, itemKey, Option.bind_eq_bind, Option.bind_eq_some_iff, Option.pure_def, Option.some.injEq] at hact
    obtain ⟨item, -, answer, -, rfl⟩ := hact
    exact change_of_quiet (changeItem_quiet _ _ _)
  | escape mayClose =>
    simp only [act] at hact
    split at hact
    · split at hact
      · cases hact
        exact change_of_frame (Menus.Quiet.refl _) ⟨rfl, trivial⟩
      · cases hact
        exact popMenu_change id
    · cases hact
      exact change_of_quiet (toggle_quiet mayClose _)
  | exit mayClose =>
    cases hact
    exact change_of_frame (Menus.Quiet.refl _) ⟨rfl, trivial⟩
  | hover row =>
    cases hact
    exact hover_change row c
  | leftPress =>
    cases hact
    split
    · exact change_of_quiet (Menus.Quiet.refl _)
    · exact change_of_quiet (startDrag_quiet _)
  | drag speed event =>
    cases hact
    exact change_of_quiet (continueDrag_quiet speed event _)
  | resetDrag =>
    cases hact
    exact change_of_quiet ⟨rfl, fun _ => rfl, fun _ h => h, rfl, rfl, fun _ _ h => .inl h,
      fun _ h => absurd h (by simp)⟩
  | resume => exact absurd hact (by simp [act])

theorem step_change (hstep : c.step op = some c') : Change op c c' := by
  simp only [step] at hstep
  split at hstep
  · exact resume_change hstep
  · split at hstep
    · exact absurd hstep (by simp)
    · exact act_change hstep

/-! ### Every run -/

/-- The states that a run can come to. -/
inductive Reaches (gap : Int) : StackRun F → Prop
  | init : Reaches gap (init gap)
  | step {c c' : StackRun F} (op : Op F) (hrun : Reaches gap c) (hstep : c.step op = some c') : Reaches gap c'

/-- The states of the runs whose steps all meet the condition. -/
inductive ReachesClean (gap : Int) : StackRun F → Prop
  | init : ReachesClean gap (init gap)
  | step {c c' : StackRun F} (op : Op F) (hrun : ReachesClean gap c) (hmeets : Meets op c)
      (hstep : c.step op = some c') : ReachesClean gap c'

theorem ReachesClean.reaches (hrun : ReachesClean gap c) : Reaches gap c := by
  induction hrun with
  | init => exact .init
  | step op _ _ hstep ih => exact .step op ih hstep

theorem menus_popMenu (hopen : 0 < c.menus.currentMenu) : c.popMenu.menus = c.menus.closeMenu := by
  simp only [popMenu]
  rw [if_neg (by omega)]

theorem menus_notifyPoppedTo (record : PopRecord F) (c : StackRun F) : (c.notifyPoppedTo record).menus = c.menus := by
  simp only [notifyPoppedTo]
  split <;> rfl

theorem init_wellFormed (gap : Int) : (init gap : StackRun F).menus.WellFormed := by
  have haccepts : Menus.Accepts ({} : Menus F) (-2) gap := by
    simp [Menus.Accepts, pushHeight, numMenuRoots, menuContentHeight, menuGlyphHeight]
  have hempty : Menus.WellFormed ({ currentMenu := 0 } : Menus F) := by
    refine ⟨?_, ?_, ?_, ?_, ?_, ?_, ?_, ?_, ?_, ?_⟩ <;> simp [tree, Items.ids, Items.Folders, numMenuRoots]
  exact openMenu_wellFormed _ hempty

theorem Change.wellFormed (hchange : Change op c c') (hc : c.menus.WellFormed) : c'.menus.WellFormed := by
  cases hchange with
  | quiet menus => exact menus.wellFormed hc
  | push hChars gap => exact pushMenu_wellFormed hChars gap hc
  | add parent item hadd => exact addItem_wellFormed hc hadd
  | addAll n parent hadd => exact addAll_wellFormed hc hadd
  | pop hopen =>
    rw [menus_popMenu hopen]
    exact closeMenu_wellFormed hc hopen
  | offReturned => exact hc
  | notify =>
    rw [menus_notifyPoppedTo]
    exact hc
  | toReturned => exact hc

/-- In every run the stack stays within its bounds, no item is in two places, and no cursor item is released. -/
theorem reaches_wellFormed (hrun : Reaches gap c) : c.menus.WellFormed := by
  induction hrun with
  | init => exact init_wellFormed gap
  | step op _ hstep ih => exact (step_change hstep).wellFormed ih

/-- What the condition keeps. -/
structure Clean (c : StackRun F) : Prop where
  drag : c.menus.DragLive
  released : ∀ record ∈ c.begun, ∀ id ∈ record.tree.ids, id ∈ c.menus.released
  underway : ∀ frame ∈ c.frames, frame.Ok
  told : ∀ record ∈ c.pops, record.Told

theorem Clean.released_of_subset (hclean : c.Clean) (hreleased : c.menus.released ⊆ c'.menus.released)
    (hbegun : ∀ record ∈ c'.begun, record ∈ c.begun) :
    ∀ record ∈ c'.begun, ∀ id ∈ record.tree.ids, id ∈ c'.menus.released :=
  fun record hrecord id hid => hreleased (hclean.released record (hbegun record hrecord) id hid)

theorem mem_begun : record ∈ c.begun ↔ (∃ frame ∈ c.frames, frame.record? = some record) ∨ record ∈ c.pops := by
  simp [begun]

/-- A change of the menus alone, in which the released items stay released. -/
theorem Clean.of_menus (hclean : c.Clean) (hdrag : s.DragLive) (hreleased : c.menus.released ⊆ s.released) :
    Clean { c with menus := s } :=
  ⟨hdrag, hclean.released_of_subset hreleased fun _ h => h, hclean.underway, hclean.told⟩

theorem released_pushMenu (hChars gap : Int) (s : Menus F) : s.released ⊆ (s.pushMenu hChars gap).released := by
  by_cases haccepts : s.Accepts hChars gap
  · rw [pushMenu_of_accepts haccepts]
    exact subset_append_left _ _
  · rw [pushMenu_of_not_accepts haccepts]
    exact Subset.refl _

/-- A pop is recorded with the menu as it was, and has called its own handler. -/
theorem popMenu_eq (hopen : 0 < c.menus.currentMenu) :
    ∃ frame record, c.popMenu = { c with menus := c.menus.closeMenu, frames := frame :: c.frames } ∧
      frame.record? = some record ∧ frame.Ok ∧ record.menu = c.menus.currentMenu ∧
      record.tree = c.menus.tree (.menu c.menus.currentMenu) ∧
      record.poppedOff = (c.menus.roots (.menu c.menus.currentMenu)).onPoppedOff := by
  simp only [popMenu]
  rw [if_neg (by omega)]
  cases hhandler : (c.menus.roots (.menu c.menus.currentMenu)).onPoppedOff with
  | none | some handler => exact ⟨_, _, rfl, rfl, rfl, rfl, rfl, rfl⟩

theorem popMenu_clean (hc : c.menus.WellFormed) (hclean : c.Clean) (hopen : 0 < c.menus.currentMenu)
    (hwhole : c.PopsWhole) : c.popMenu.Clean := by
  obtain ⟨hfirst, hapart⟩ := hwhole hopen
  have hall := (clearMenu_releases_iff c.menus.currentMenu hc).2 hfirst
  have hkept : c.menus.released ⊆ c.menus.closeMenu.released := subset_append_left _ _
  obtain ⟨frame, record, heq, hrecord, hframe, -, htree, -⟩ := popMenu_eq hopen
  rw [heq]
  refine ⟨closeMenu_dragLive hclean.drag hapart, fun other hother id hid => ?_, fun other hother => ?_,
    hclean.told⟩
  · rcases mem_begun.1 hother with ⟨other', hmem, hother'⟩ | hpops
    · rcases mem_cons.1 hmem with rfl | hbelow
      · obtain rfl := Option.some.inj (hrecord.symm.trans hother')
        exact hall id (htree ▸ hid)
      · exact hkept (hclean.released other (mem_begun.2 (.inl ⟨other', hbelow, hother'⟩)) id hid)
    · exact hkept (hclean.released other (mem_begun.2 (.inr hpops)) id hid)
  · rcases mem_cons.1 hother with rfl | hbelow
    · exact hframe
    · exact hclean.underway other hbelow

/-- A handler that is looked for is the one that is called, if the stack is as the pop left it. -/
theorem notifyPoppedTo_clean (hclean : c.Clean)
    (hframes : c.frames = .notify record :: frames) (hreturns : c.ReturnsTo record) :
    Clean ({ c with frames := frames }.notifyPoppedTo record) := by
  have hbelow : ∀ frame ∈ frames, frame ∈ c.frames := fun frame hframe => hframes ▸ mem_cons_of_mem _ hframe
  have hhalf : record.HalfTold := hclean.underway (.notify record) (hframes ▸ mem_cons_self ..)
  have hitems : ∀ id ∈ record.tree.ids, id ∈ c.menus.released :=
    hclean.released record (mem_begun.2 (.inl ⟨.notify record, hframes ▸ mem_cons_self .., rfl⟩))
  have hothers : ∀ other ∈ frames.filterMap Frame.record? ++ c.pops, ∀ id ∈ other.tree.ids, id ∈ c.menus.released := by
    intro other hother
    apply hclean.released other
    rcases mem_append.1 hother with hother | hother
    · obtain ⟨frame, hframe, hrecord⟩ := mem_filterMap.1 hother
      exact mem_begun.2 (.inl ⟨frame, hbelow frame hframe, hrecord⟩)
    · exact mem_begun.2 (.inr hother)
  obtain ⟨hcurrent, hagree⟩ := hreturns
  simp only [notifyPoppedTo, hcurrent]
  cases hto : (c.menus.roots (.menu (record.menu - 1))).onPoppedTo with
  | none =>
    refine ⟨hclean.drag, fun other hother id hid => ?_, fun frame hframe => hclean.underway frame (hbelow frame hframe),
      fun other hother => ?_⟩
    · simp only [begun, ← append_assoc, mem_append, mem_singleton] at hother
      rcases hother with hother | rfl
      · exact hothers other (mem_append.2 hother) id hid
      · exact hitems id hid
    · rcases mem_append.1 hother with hother | hother
      · exact hclean.told other hother
      · obtain rfl := mem_singleton.1 hother
        simpa [PopRecord.Told, PopRecord.HalfTold] using hhalf
  | some handler =>
    have hcallee : (c.menus.roots (.menu record.menu)).onPoppedTo = some handler := by
      rcases hagree with hnone | hsame
      · rw [hto] at hnone
        exact absurd hnone (by simp)
      · rw [hsame, hto]
    refine ⟨hclean.drag, fun other hother id hid => ?_, fun frame hframe => ?_, hclean.told⟩
    · simp only [begun, filterMap_cons, Frame.record?, cons_append, mem_cons] at hother
      rcases hother with rfl | hother
      · exact hitems id hid
      · exact hothers other hother id hid
    · rcases mem_cons.1 hframe with rfl | hframe
      · simp only [Frame.Ok, PopRecord.Told, hcallee]
        simp only [PopRecord.HalfTold] at hhalf
        simp [hhalf]
      · exact hclean.underway frame (hbelow frame hframe)

theorem offReturned_clean (hclean : c.Clean)
    (hframes : c.frames = .poppedOff record :: frames) : Clean { c with frames := .notify record :: frames } := by
  refine ⟨hclean.drag, ?_, fun frame hframe => ?_, hclean.told⟩
  · refine hclean.released_of_subset (Subset.refl _) fun other hother => ?_
    rw [begun, hframes]
    exact hother
  · rcases mem_cons.1 hframe with rfl | hbelow
    · exact hclean.underway (.poppedOff record) (hframes ▸ mem_cons_self ..)
    · exact hclean.underway frame (hframes ▸ mem_cons_of_mem _ hbelow)

theorem toReturned_clean (hclean : c.Clean) (hframes : c.frames = .poppedTo record :: frames) :
    Clean { c with frames := frames, pops := c.pops ++ [record] } := by
  refine ⟨hclean.drag, ?_, fun frame hframe => ?_, fun other hother => ?_⟩
  · refine hclean.released_of_subset (Subset.refl _) fun other hother => ?_
    simp only [begun, mem_append, mem_singleton] at hother
    simp only [begun, hframes, filterMap_cons, Frame.record?, cons_append, mem_cons, mem_append]
    tauto
  · exact hclean.underway frame (hframes ▸ mem_cons_of_mem _ hframe)
  · rcases mem_append.1 hother with hother | hother
    · exact hclean.told other hother
    · obtain rfl := mem_singleton.1 hother
      exact hclean.underway (.poppedTo other) (hframes ▸ mem_cons_self ..)

theorem Change.clean (hchange : Change op c c') (hc : c.menus.WellFormed) (hclean : c.Clean) (hmeets : Meets op c) :
    c'.Clean := by
  cases hchange with
  | quiet menus frames pops =>
    refine ⟨menus.dragLive hclean.drag, ?_, fun frame hframe => ?_, fun record hrecord => ?_⟩
    · refine hclean.released_of_subset (menus.released ▸ Subset.refl _) fun record hrecord => ?_
      rcases mem_begun.1 hrecord with ⟨frame, hframe, hsome⟩ | hpops
      · rcases frames frame hframe with hbefore | ⟨hnone, -⟩
        · exact mem_begun.2 (.inl ⟨frame, hbefore, hsome⟩)
        · rw [hnone] at hsome
          exact absurd hsome (by simp)
      · exact mem_begun.2 (.inr (pops ▸ hpops))
    · rcases frames frame hframe with hbefore | ⟨-, hok⟩
      · exact hclean.underway frame hbefore
      · exact hok
    · exact hclean.told record (pops ▸ hrecord)
  | push hChars gap hop =>
    subst hop
    exact hclean.of_menus (pushMenu_dragLive hclean.drag hmeets) (released_pushMenu hChars gap c.menus)
  | add parent item hadd =>
    have halloc := alloc_wellFormed hc
    refine hclean.of_menus (append_dragLive halloc hclean.drag hadd) ?_
    rw [append_released halloc hadd]
    exact Subset.refl _
  | addAll n parent hadd =>
    obtain ⟨hempty, happend⟩ := addAll_eq_some hc hadd
    refine hclean.of_menus (addAll_dragLive hc hclean.drag hadd) ?_
    rw [append_released hempty happend]
    exact Subset.refl _
  | pop hopen hwhole => exact popMenu_clean hc hclean hopen (hwhole hmeets)
  | offReturned hframes => exact offReturned_clean hclean hframes
  | notify hframes hreturns => exact notifyPoppedTo_clean hclean hframes (hreturns hmeets)
  | toReturned hframes => exact toReturned_clean hclean hframes

theorem init_clean (gap : Int) : (init gap : StackRun F).Clean := by
  have hdrag : Menus.DragLive ({} : Menus F) := fun id hid => absurd hid (by simp)
  refine ⟨pushMenu_dragLive hdrag fun _ id hid => absurd hid (by simp), ?_, ?_, ?_⟩ <;> simp [init, begun]

theorem reachesClean_clean (hrun : ReachesClean gap c) : c.Clean := by
  induction hrun with
  | init => exact init_clean gap
  | step op hbefore hmeets hstep ih => exact (step_change hstep).clean (reaches_wellFormed hbefore.reaches) ih hmeets

/-- The bounds and the cursor items are sound in every run, and no item is released twice. -/
theorem reaches_bounds (hrun : Reaches gap c) :
    0 ≤ c.menus.currentMenu ∧ c.menus.currentMenu < numMenuRoots ∧ c.menus.released.Nodup ∧
      ∀ m id, c.menus.menuCursorItem m = some id → id ∉ c.menus.released := by
  have hc := reaches_wellFormed hrun
  exact ⟨hc.lower, hc.upper, hc.releasedOnce, fun m id hid hreleased => hc.live _ (hc.cursor m id hid) hreleased⟩

/-- In a run whose steps meet the condition, the stack is sound in every state. -/
theorem menu_stack_sound {gap : Int} (hrun : ReachesClean gap c) : c.Sound := by
  have hc := reaches_wellFormed hrun.reaches
  have hclean := reachesClean_clean hrun
  obtain ⟨hlower, hupper, honce, hcursor⟩ := reaches_bounds hrun.reaches
  refine ⟨hlower, hupper, fun record hrecord id hid => ?_, hcursor, fun id hid hreleased => ?_, hclean.told⟩
  · exact count_eq_one_of_mem honce (hclean.released record hrecord id hid)
  · obtain ⟨m, hin⟩ := hclean.drag id hid
    exact hc.live _ hin hreleased

/-- A dialog is pushed over the first menu, and popped again. -/
theorem menu_stack_sound_dialog : ∃ c : StackRun Nat, c.pops.length = 1 ∧ c.menus.released = [0] ∧ c.Sound := by
  have hinit : ReachesClean 0 (init 0 : StackRun Nat) := .init
  have hpushed : ReachesClean 0 _ := .step (.push (-1) 0) hinit (fun _ _ hid => nomatch hid) rfl
  have hadded : ReachesClean 0 _ := .step (.add (.root (.menu 1)) { type := .button }) hpushed trivial rfl
  have hpopped : ReachesClean 0 _ := .step .pop hadded (fun _ => ⟨⟨trivial, trivial⟩, fun _ hid => nomatch hid⟩) rfl
  have hreturned : ReachesClean 0 _ := .step .resume hpopped ⟨rfl, .inl rfl⟩ rfl
  exact ⟨_, rfl, rfl, menu_stack_sound hreturned⟩

theorem reaches_of_run {ops : List (Op F)} (hbefore : Reaches gap c) (hrun : c.run ops = some c') :
    Reaches gap c' := by
  induction ops generalizing c with
  | nil =>
    cases hrun
    exact hbefore
  | cons op ops ih =>
    obtain ⟨next, hstep, hrest⟩ := Option.bind_eq_some_iff.1 hrun
    exact ih (.step op hbefore hstep) hrest

theorem exists_of_run (gap : Int) (ops : List (Op F)) (P : StackRun F → Prop) [DecidablePred P]
    (hrun : ((init gap).run ops).any (fun c => P c) = true) : ∃ c : StackRun F, Reaches gap c ∧ P c := by
  cases hc : (init gap).run ops with
  | none =>
    rw [hc] at hrun
    exact absurd hrun (by simp)
  | some c =>
    rw [hc] at hrun
    exact ⟨c, reaches_of_run .init hc, of_decide_eq_true hrun⟩

/-- An item below a folder that is not the first of its list is left behind. A drag goes on with the item of a
menu that was popped. A menu is returned to, and the handler of the menu above it is called. -/
theorem pops_unsound :
    (∃ c : StackRun Nat, Reaches 0 c ∧ ∃ record ∈ c.pops, ∃ id ∈ record.tree.ids, id ∉ c.menus.released) ∧
      (∃ c : StackRun Nat, Reaches 0 c ∧ ∃ id ∈ c.menus.dragItem, id ∈ c.menus.released) ∧
      (∃ c : StackRun Nat, Reaches 0 c ∧ ∃ record ∈ c.pops, ¬ record.Told) := by
  refine ⟨exists_of_run 0 [.push (-1) 0, .add (.root (.menu 1)) { type := .button },
      .add (.root (.menu 1)) { type := .folder }, .add (.item (.menu 1) 1) { type := .button }, .pop, .resume] _ rfl,
    exists_of_run 0 [.push (-1) 0, .add (.root (.menu 1)) { type := .range }, .hover 0, .leftPress, .escape true] _ rfl,
    exists_of_run 0 [.onPoppedTo 0 (some 7), .push (-1) 0, .onPoppedTo 1 (some 9), .pop, .resume, .resume] _ rfl⟩

end StackRun

end Bmx.Menu
