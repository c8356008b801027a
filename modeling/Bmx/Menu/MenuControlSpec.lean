import Mathlib.Data.List.Nodup
import Bmx.Menu.MenuControl

/-!
# Pages of the public menu

The pages that are listed one after another have the bindings whose items are in the menu, each once and in the order of
the table. A value that is set is one that the item can have.
-/

namespace Bmx.MenuControl

open List Option

open Menu (MenuItem MenuItemType maxChoices)

/-! ### The table -/

theorem bindingsAccepted_nodup {previous bindings : List Binding} (h : bindingsAccepted previous bindings = true) :
    (bindings.map Binding.key).Nodup ∧ ∀ binding ∈ bindings, isPublicKey binding.key = true ∧
      ∀ other ∈ previous, other.key ≠ binding.key := by
  induction bindings generalizing previous with
  | nil => exact ⟨nodup_nil, by simp⟩
  | cons binding bindings ih =>
    simp only [bindingsAccepted, Bool.and_eq_true, Bool.not_eq_true'] at h
    obtain ⟨⟨hfirst, hother⟩, hrest⟩ := h
    obtain ⟨hnodup, hbindings⟩ := ih hrest
    have hkey : isPublicKey binding.key = true := by
      unfold bindingRefused at hfirst
      simp only [Bool.or_eq_false_iff, Bool.not_eq_false'] at hfirst
      exact hfirst.1.1.1.1
    refine ⟨?_, fun later hlater => ?_⟩
    · rw [map_cons, nodup_cons]
      refine ⟨fun hmem => ?_, hnodup⟩
      obtain ⟨later, hlater, hsame⟩ := mem_map.1 hmem
      exact (hbindings later hlater).2 binding (by simp) hsame.symm
    · rcases mem_cons.1 hlater with rfl | hlater
      · refine ⟨hkey, fun other hmem hsame => ?_⟩
        have hnone := any_eq_false.1 hother other hmem
        exact hnone (by simpa using hsame)
      · obtain ⟨hlaterKey, hprevious⟩ := hbindings later hlater
        exact ⟨hlaterKey, fun other hmem => hprevious other (mem_append_left _ hmem)⟩

/-! ### Items of the menu -/

/-- The bindings of a kind whose items are in the menu. -/
def visible (tree : ControlTree) (kind : Int) (bindings : List Binding) : List Binding :=
  bindings.filter fun binding => binding.kind = kind ∧ (findItemIn binding.id binding.subId tree).isSome

/-! ### One page -/

def pageOf (tree : ControlTree) (limit : Nat) (bindings : List Binding) : Page where
  controls := ((bindings.take limit).filterMap (publicDescribeBinding tree)).map Description.summary
  hasMore := decide (limit < bindings.length)

theorem publicDescribeBinding_isSome (tree : ControlTree) (binding : Binding) :
    (publicDescribeBinding tree binding).isSome = (findItemIn binding.id binding.subId tree).isSome := by
  unfold publicDescribeBinding
  exact isSome_map

theorem visible_cons (tree : ControlTree) (kind : Int) (binding : Binding) (rest : List Binding) :
    visible tree kind (binding :: rest) =
      if binding.kind = kind ∧ (publicDescribeBinding tree binding).isSome then binding :: visible tree kind rest
      else visible tree kind rest := by
  rw [publicDescribeBinding_isSome, visible, filter_cons]
  simp only [decide_eq_true_eq, visible]

/-- The loop after the key: the visible bindings are listed as long as the page has room. -/
theorem listBindings_seen (tree : ControlTree) (kind : Int) (after : Bytes) {limit : Nat} (bindings : List Binding)
    {controls : List Summary} (hroom : controls.length ≤ limit) :
    listBindings tree kind after limit true { controls := controls } bindings =
      (true, { controls := controls ++ (pageOf tree (limit - controls.length) (visible tree kind bindings)).controls
               hasMore := (pageOf tree (limit - controls.length) (visible tree kind bindings)).hasMore }) := by
  induction bindings generalizing controls with
  | nil => simp [listBindings, visible, pageOf]
  | cons binding rest ih =>
    unfold listBindings
    rw [visible_cons]
    by_cases hkind : binding.kind = kind
    · rw [if_neg (not_not_intro hkind)]
      cases hdescribe : publicDescribeBinding tree binding with
      | none =>
        simp only [Bool.not_true, Bool.false_eq_true, if_false, isSome_none, and_false]
        exact ih hroom
      | some description =>
        simp only [Bool.not_true, Bool.false_eq_true, if_false, isSome_some, and_true, if_pos hkind]
        by_cases hfull : controls.length ≥ limit
        · have hnone : limit - controls.length = 0 := by omega
          rw [if_pos hfull, hnone]
          simp [pageOf]
        · rw [if_neg hfull, ih (by rw [length_append, length_singleton]; omega)]
          obtain ⟨room, hroom'⟩ : ∃ room, limit - controls.length = room + 1 := ⟨limit - controls.length - 1, by omega⟩
          have hless : limit - (controls ++ [description.summary]).length = room := by
            rw [length_append, length_singleton]
            omega
          rw [hless, hroom']
          simp [pageOf, take_succ_cons, hdescribe]
    · rw [if_pos hkind, if_neg (fun h => hkind h.1)]
      exact ih hroom

theorem listBindings_after (tree : ControlTree) {limit : Nat} {before rest : List Binding} {binding : Binding}
    (hbefore : ∀ other ∈ before, other.key ≠ binding.key) (page : Page) :
    listBindings tree binding.kind binding.key limit false page (before ++ binding :: rest) =
      listBindings tree binding.kind binding.key limit true page rest := by
  induction before with
  | nil => simp [listBindings]
  | cons other before ih =>
    have hother := hbefore other mem_cons_self
    have hrest := ih fun later hlater => hbefore later (mem_cons_of_mem _ hlater)
    rw [cons_append, listBindings]
    by_cases hkind : other.kind = binding.kind
    · simp [hkind, hother, hrest]
    · rw [if_pos hkind, hrest]

variable {tree : ControlTree} {bindings : List Binding} {kind : Int} {limit : Nat}

theorem list_first (hlimit : 1 ≤ limit ∧ limit ≤ pageMax) :
    publicListBindings (some tree) bindings kind [] limit = .ok (pageOf tree limit (visible tree kind bindings)) := by
  have hcheck : ¬ (limit = 0 ∨ limit > pageMax) := by omega
  have hpage := @listBindings_seen tree kind [] limit bindings [] (Nat.zero_le _)
  simp only [publicListBindings, if_neg hcheck, decide_true, hpage]
  rfl

theorem list_after (hlimit : 1 ≤ limit ∧ limit ≤ pageMax) {before rest : List Binding} {binding : Binding}
    (haccepted : publicSetBindings bindings = true) (hbindings : bindings = before ++ binding :: rest) :
    publicListBindings (some tree) bindings binding.kind binding.key limit =
      .ok (pageOf tree limit (visible tree binding.kind rest)) := by
  obtain ⟨hnodup, hkeys⟩ := bindingsAccepted_nodup haccepted
  have hkey : binding.key ≠ [] := by
    have hpublic := (hkeys binding (by rw [hbindings]; simp)).1
    unfold isPublicKey at hpublic
    exact (of_decide_eq_true hpublic).1
  have hbefore : ∀ other ∈ before, other.key ≠ binding.key := by
    intro other hother hsame
    rw [hbindings, map_append, map_cons] at hnodup
    exact (nodup_append.1 hnodup).2.2 other.key (mem_map.2 ⟨other, hother, rfl⟩) binding.key
      mem_cons_self hsame
  have hcheck : ¬ (limit = 0 ∨ limit > pageMax) := by omega
  have hpage := @listBindings_seen tree binding.kind binding.key limit rest [] (Nat.zero_le _)
  have hnone : decide (binding.key = []) = false := decide_eq_false hkey
  have hloop := @listBindings_after tree limit before rest binding hbefore {}
  simp only [publicListBindings, if_neg hcheck, hnone, hbindings, hloop, hpage]
  rfl

/-! ### All pages -/

/-- The pages that are listed one after another, each after the last key of the one before it. -/
inductive Pages (list : Bytes → Except ControlStatus Page) : Bytes → List Page → Prop
  | last {after : Bytes} {page : Page} (hpage : list after = .ok page) (hmore : page.hasMore = false) :
      Pages list after [page]
  | more {after : Bytes} {page : Page} {control : Summary} {pages : List Page} (hpage : list after = .ok page)
      (hmore : page.hasMore = true) (hlast : page.controls.getLast? = some control)
      (hrest : Pages list control.key pages) : Pages list after (page :: pages)

def pageKeys (pages : List Page) : List Bytes := pages.flatMap fun page => page.controls.map Summary.key

/-- Pages list keys, and each says whether more follow. -/
structure ListKeys (pages : List Page) (keys : List Bytes) : Prop where
  keys_eq : pageKeys pages = keys
  more : ∀ front page back, pages = front ++ page :: back →
    (page.hasMore = true ↔ (pageKeys (front ++ [page])).length < keys.length)

theorem copyText_of_length {size : Nat} {text : Bytes} (h : text.length < size) : copyText size text = text :=
  take_of_length_le (by omega)

theorem pageOf_keys {shown : List Binding}
    (hshown : ∀ binding ∈ shown, isPublicKey binding.key = true ∧ (publicDescribeBinding tree binding).isSome) (limit : Nat) :
    (pageOf tree limit shown).controls.map Summary.key = (shown.take limit).map Binding.key := by
  have htake : ∀ binding ∈ shown.take limit, isPublicKey binding.key = true ∧ (publicDescribeBinding tree binding).isSome :=
    fun binding hbinding => hshown binding (mem_of_mem_take hbinding)
  unfold pageOf
  generalize shown.take limit = listed at htake
  induction listed with
  | nil => rfl
  | cons binding listed ih =>
    obtain ⟨hkey, hsome⟩ := htake binding mem_cons_self
    obtain ⟨description, hdescribe⟩ := isSome_iff_exists.1 hsome
    have hlength : binding.key.length < keySize := by
      unfold isPublicKey at hkey
      exact (of_decide_eq_true hkey).2.1
    have hdescribed : description.key = binding.key := by
      unfold publicDescribeBinding at hdescribe
      obtain ⟨item, -, hitem⟩ := map_eq_some_iff.1 hdescribe
      rw [← hitem]
      exact copyText_of_length hlength
    rw [filterMap_cons_some hdescribe, map_cons, map_cons, map_cons,
      ih fun other hother => htake other (mem_cons_of_mem _ hother)]
    congr 1
    change copyText keySize description.key = binding.key
    rw [hdescribed, copyText_of_length hlength]

theorem visible_spec (haccepted : publicSetBindings bindings = true) {rest : List Binding}
    (hrest : ∀ binding ∈ rest, binding ∈ bindings) : ∀ binding ∈ visible tree kind rest,
      isPublicKey binding.key = true ∧ (publicDescribeBinding tree binding).isSome := by
  intro binding hbinding
  obtain ⟨hmem, hshown⟩ := mem_filter.1 hbinding
  obtain ⟨-, hkeys⟩ := bindingsAccepted_nodup haccepted
  refine ⟨(hkeys binding (hrest binding hmem)).1, ?_⟩
  rw [publicDescribeBinding_isSome]
  exact (of_decide_eq_true hshown).2

theorem pageKeys_cons (page : Page) (pages : List Page) :
    pageKeys (page :: pages) = page.controls.map Summary.key ++ pageKeys pages := flatMap_cons

theorem ListKeys.single {page : Page} (hmore : page.hasMore = false) : ListKeys [page] (page.controls.map Summary.key) where
  keys_eq := flatMap_singleton _ _
  more := fun front other back hpages => by
    cases front with
    | nil =>
      obtain ⟨rfl, -⟩ := cons.inj hpages
      simp [hmore, pageKeys]
    | cons first front => simp at hpages

theorem ListKeys.cons {page : Page} {pages : List Page} {keys : List Bytes} (hpages : ListKeys pages keys)
    (hmore : page.hasMore = true) (hkeys : keys ≠ []) :
    ListKeys (page :: pages) (page.controls.map Summary.key ++ keys) where
  keys_eq := by rw [pageKeys_cons, hpages.keys_eq]
  more := fun front other back hsplit => by
    have hpositive := length_pos_iff.2 hkeys
    cases front with
    | nil =>
      obtain ⟨rfl, -⟩ := cons.inj hsplit
      rw [nil_append, pageKeys_cons, length_append, length_append]
      simp [hmore, pageKeys, hpositive]
    | cons first front =>
      obtain ⟨rfl, hrest⟩ := cons.inj hsplit
      rw [hpages.more front other back hrest, cons_append, pageKeys_cons, length_append, length_append]
      omega

theorem pages_of_rest (hlimit : 1 ≤ limit ∧ limit ≤ pageMax) (haccepted : publicSetBindings bindings = true)
    {before rest : List Binding} (hbindings : bindings = before ++ rest) {after : Bytes}
    (hlist : publicListBindings (some tree) bindings kind after limit = .ok (pageOf tree limit (visible tree kind rest))) :
    ∃ pages, Pages (fun after => publicListBindings (some tree) bindings kind after limit) after pages ∧
      ListKeys pages ((visible tree kind rest).map Binding.key) := by
  induction hcount : (visible tree kind rest).length using Nat.strongRecOn generalizing before rest after with
  | _ count ih =>
    have hshown := @visible_spec tree _ kind haccepted rest
      fun binding hbinding => hbindings ▸ mem_append_right _ hbinding
    have hkeys := pageOf_keys hshown limit
    by_cases hmore : limit < (visible tree kind rest).length
    · -- the last binding of the page is where the table is split
      have hne : (visible tree kind rest).take limit ≠ [] := by
        intro hnil
        have hlength := congrArg List.length hnil
        rw [length_take, length_nil] at hlength
        omega
      obtain ⟨front, last, htake⟩ := (eq_nil_or_concat _).resolve_left hne
      rw [concat_eq_append] at htake
      have hsplit : visible tree kind rest = front ++ (last :: (visible tree kind rest).drop limit) := by
        conv_lhs => rw [← take_append_drop limit (visible tree kind rest), htake]
        rw [append_assoc, singleton_append]
      obtain ⟨before₁, rest₁, rfl, hfront, hback⟩ := filter_eq_append_iff.1 hsplit
      obtain ⟨before₂, rest₂, rfl, -, hlastShown, hdrop⟩ := filter_eq_cons_iff.1 hback
      have hwhole : bindings = (before ++ (before₁ ++ before₂)) ++ last :: rest₂ := by
        rw [hbindings]
        simp
      have hkind : last.kind = kind := (of_decide_eq_true hlastShown).1
      have hnext := @list_after tree _ limit hlimit _ _ _ haccepted hwhole
      rw [hkind] at hnext
      have hshorter : (visible tree kind rest₂).length < count := by
        have hlength := congrArg List.length hdrop
        rw [length_drop] at hlength
        change (visible tree kind rest₂).length = _ at hlength
        omega
      have hwhole' : bindings = (before ++ (before₁ ++ before₂) ++ [last]) ++ rest₂ := by
        rw [hwhole]
        simp
      obtain ⟨pages, hpages, hlisted⟩ := ih _ hshorter hwhole' hnext rfl
      have hlastKey : ∃ control, (pageOf tree limit (visible tree kind (before₁ ++ (before₂ ++ last :: rest₂)))).controls.getLast? =
          some control ∧ control.key = last.key := by
        rw [htake, map_append, map_singleton] at hkeys
        obtain ⟨controls, ending, hcontrols, -, hending⟩ := map_eq_append_iff.1 hkeys
        obtain ⟨control, rfl, hcontrol⟩ := map_eq_singleton_iff.1 hending
        exact ⟨control, by rw [hcontrols]; simp, hcontrol⟩
      obtain ⟨control, hcontrol, hcontrolKey⟩ := hlastKey
      rw [← hcontrolKey] at hpages
      refine ⟨_ :: pages, .more hlist (decide_eq_true hmore) hcontrol hpages, ?_⟩
      have hrest : visible tree kind rest₂ ≠ [] := by
        intro hnil
        change visible tree kind rest₂ = _ at hdrop
        have hlength := congrArg List.length hdrop
        rw [hnil, length_drop, length_nil] at hlength
        omega
      have hmoreTrue : (pageOf tree limit (visible tree kind (before₁ ++ (before₂ ++ last :: rest₂)))).hasMore = true :=
        decide_eq_true hmore
      have hlistedAll := hlisted.cons hmoreTrue (by simpa using hrest)
      change visible tree kind rest₂ = _ at hdrop
      rw [hkeys, hdrop, ← map_append, take_append_drop] at hlistedAll
      exact hlistedAll
    · refine ⟨_, .last hlist (decide_eq_false hmore), ?_⟩
      have hmoreFalse : (pageOf tree limit (visible tree kind rest)).hasMore = false := decide_eq_false hmore
      have hsingle := ListKeys.single hmoreFalse
      rw [hkeys, take_of_length_le (by omega)] at hsingle
      exact hsingle

/-- The pages from the first on end, and they have every visible binding once and in the order of the table. -/
structure VisitsAll (tree : ControlTree) (bindings : List Binding) (kind : Int) (limit : Nat) : Prop where
  pages : ∃ pages, Pages (fun after => publicListBindings (some tree) bindings kind after limit) [] pages ∧
    ListKeys pages ((visible tree kind bindings).map Binding.key)
  once : ((visible tree kind bindings).map Binding.key).Nodup

theorem visits_all (haccepted : publicSetBindings bindings = true) (hlimit : 1 ≤ limit ∧ limit ≤ pageMax) :
    VisitsAll tree bindings kind limit where
  pages := pages_of_rest hlimit haccepted (nil_append bindings).symm (list_first hlimit)
  once := (bindingsAccepted_nodup haccepted).1.sublist (filter_sublist.map Binding.key)

/-! ### Values -/

/-- The value of an item is one that it can have. A range is gone through in steps from its least value, which are
counted in 32 bits. -/
def InDomain (item : ControlItem) : Prop :=
  match item.type with
  | .toggle | .checkbox => item.value = 0 ∨ item.value = 1
  | .range => item.min ≤ item.value ∧ item.value ≤ item.max ∧
      (0 < item.step → (item.value - item.min) % item.step = 0 ∧
        (item.max.toInt - item.min.toInt < 2 ^ 31 → item.step.toInt ∣ item.value.toInt - item.min.toInt))
  | .multipleChoice => 0 ≤ item.value ∧ item.value < item.numChoices ∧ item.choiceDisabledAt item.value = false
  | .textField => item.strValue.length ≤ textMaximum item ∧ item.strValue.length < maxStrValLen
  | _ => False

structure Stores (item : ControlItem) (value : ControlValue) (stored : ControlItem) : Prop where
  inDomain : InDomain stored
  value_eq : readValue stored false = value
  others : stored = { item with value := stored.value, strValue := stored.strValue }

/-- In a range whose size 32 bits hold, the remainder is the one of the integers. -/
theorem dvd_sub_of_mod_eq_zero {value least greatest step : Int32} (hlow : least ≤ value) (hhigh : value ≤ greatest)
    (hfits : greatest.toInt - least.toInt < 2 ^ 31) (hrest : (value - least) % step = 0) :
    step.toInt ∣ value.toInt - least.toInt := by
  rw [Int32.le_iff_toInt_le] at hlow hhigh
  have hdifference : (value - least).toInt = value.toInt - least.toInt := by
    rw [Int32.toInt_sub]
    exact Int.bmod_eq_of_le (by omega) (by omega)
  have hmod := congrArg Int32.toInt hrest
  rw [Int32.toInt_mod, hdifference] at hmod
  exact Int.dvd_of_tmod_eq_zero hmod

theorem storeValue_stores {item stored : ControlItem} {value : ControlValue} (h : storeValue item value = .ok stored) :
    Stores item value stored := by
  unfold storeValue at h
  -- the types are taken apart where the model does, and within them the values that it takes
  split at h
  case h_1 htype | h_2 htype =>
    cases value <;> try cases h
    rename_i integer
    dsimp only at h
    split at h
    · cases h
    · rename_i hbool
      cases h
      have hvalue : integer = 0 ∨ integer = 1 := by
        by_cases hzero : integer = 0
        · exact Or.inl hzero
        · exact Or.inr (Classical.byContradiction fun hone => hbool ⟨hzero, hone⟩)
      refine ⟨by simpa only [InDomain, htype] using hvalue, ?_, rfl⟩
      rcases hvalue with rfl | rfl <;> simp [readValue, htype]
  case h_3 htype =>
    cases value <;> try cases h
    rename_i integer
    dsimp only at h
    split at h
    · cases h
    · rename_i hrange
      cases h
      have hlow : item.min ≤ integer := Int32.not_lt.1 fun hless => hrange (Or.inl hless)
      have hhigh : integer ≤ item.max := Int32.not_lt.1 fun hless => hrange (Or.inr (Or.inl hless))
      have hstep : 0 < item.step → (integer - item.min) % item.step = 0 ∧
          (item.max.toInt - item.min.toInt < 2 ^ 31 → item.step.toInt ∣ integer.toInt - item.min.toInt) := by
        intro hpositive
        have hrest : (integer - item.min) % item.step = 0 :=
          Classical.byContradiction fun hrest => hrange (Or.inr (Or.inr ⟨hpositive, hrest⟩))
        exact ⟨hrest, fun hfits => dvd_sub_of_mod_eq_zero hlow hhigh hfits hrest⟩
      refine ⟨by simpa only [InDomain, htype] using ⟨hlow, hhigh, hstep⟩, ?_, rfl⟩
      simp [readValue, htype]
  case h_4 htype =>
    cases value <;> try cases h
    rename_i integer
    dsimp only at h
    split at h
    · cases h
    · rename_i hchoice
      cases h
      have hlow : 0 ≤ integer := Int32.not_lt.1 fun hless => hchoice (Or.inl hless)
      have hhigh : integer < item.numChoices := Int32.not_le.1 fun hless => hchoice (Or.inr (Or.inl hless))
      have henabled : item.choiceDisabledAt integer = false := by
        rw [← Bool.not_eq_true]
        exact fun hdisabled => hchoice (Or.inr (Or.inr hdisabled))
      refine ⟨by simpa only [InDomain, htype] using ⟨hlow, hhigh, henabled⟩, ?_, rfl⟩
      simp [readValue, htype]
  case h_5 htype =>
    cases value <;> try cases h
    rename_i string
    dsimp only at h
    split at h
    · cases h
    · rename_i htext
      cases h
      have hmaximum : string.length ≤ textMaximum item := Nat.le_of_not_lt fun hless => htext (Or.inl hless)
      have hsize : string.length < maxStrValLen := Nat.lt_of_not_le fun hless => htext (Or.inr hless)
      refine ⟨by simpa only [InDomain, htype] using ⟨hmaximum, hsize⟩, ?_, rfl⟩
      simp [readValue, htype, copyText_of_length hsize]
  case h_6 => cases h

/-! ### Setting an item -/

/-- The items in the order in which they are searched. -/
def items : ControlTree → List ControlItem
  | .nil => []
  | .node item firstChild next => item :: (items firstChild ++ items next)

/-- The item that is found is the one that is written, and no other is. -/
theorem writeItemIn_items {id subId : Int} {item new : ControlItem} {tree : ControlTree}
    (h : findItemIn id subId tree = some item) :
    ∃ front back, items tree = front ++ item :: back ∧ items (writeItemIn id subId new tree) = front ++ new :: back := by
  induction tree with
  | nil => cases h
  | node first firstChild next ihChild ihNext =>
    unfold findItemIn at h
    unfold writeItemIn
    by_cases hitem : isItem id subId first = true
    · rw [if_pos hitem] at h ⊢
      cases h
      exact ⟨[], _, rfl, rfl⟩
    · rw [if_neg hitem] at h ⊢
      have hnext : findItemIn id subId next = some item →
          ∃ front back, items (.node first firstChild next) = front ++ item :: back ∧
            items (.node first firstChild (writeItemIn id subId new next)) = front ++ new :: back := by
        intro hfound
        obtain ⟨front, back, hitems, hwritten⟩ := ihNext hfound
        refine ⟨first :: (items firstChild ++ front), back, ?_, ?_⟩
        · simp [items, hitems]
        · simp [items, hwritten]
      by_cases hfolder : first.type = .folder
      · rw [if_pos hfolder] at h
        cases hchild : findItemIn id subId firstChild with
        | none =>
          rw [hchild, none_or] at h
          simpa [hfolder] using hnext h
        | some child =>
          rw [hchild, some_or] at h
          obtain ⟨front, back, hitems, hwritten⟩ := ihChild (hchild.trans h)
          rw [if_pos ⟨hfolder, rfl⟩]
          refine ⟨first :: front, back ++ items next, ?_, ?_⟩
          · simp [items, hitems]
          · simp [items, hwritten]
      · rw [if_neg hfolder] at h
        rw [if_neg fun hboth => hfolder hboth.1]
        exact hnext h

section

variable {σ : Type} (handlers : Handlers σ)

theorem uiMenuCommit_committed (world : ControlWorld σ) (item : ControlItem) :
    (uiMenuCommit handlers world item).1.committed = world.committed ++ [item] := by
  unfold uiMenuCommit
  cases handlers item <;> rfl

/-- What a set comes to: an item with the value is stored in the menu and committed, or the menu is as it was. -/
inductive SetOutcome (bindings : List Binding) (world : ControlWorld σ) (key : Bytes) (value : Option ControlValue) :
    ControlStatus × ControlWorld σ × Option Description → Prop
  | stored {binding : Binding} {item stored : ControlItem} {asked : ControlValue} {written : ControlTree}
      {front back : List ControlItem} {description : Description}
      (hbinding : findPublicBinding bindings key publicControl = some binding)
      (hitem : findItemIn binding.id binding.subId world.tree = some item)
      (hshown : item.hidden = false ∧ item.disabled = false)
      (hvalue : value = some asked) (hstores : Stores item asked stored)
      (hbefore : items world.tree = front ++ item :: back) (hafter : items written = front ++ stored :: back)
      (hcommitted : (uiMenuCommit handlers { world with tree := written } stored).1.committed = world.committed ++ [stored]) :
      SetOutcome bindings world key value
        (.ok, (uiMenuCommit handlers { world with tree := written } stored).1, some description)
  | refused {status : ControlStatus} (hstatus : status ≠ .ok) : SetOutcome bindings world key value (status, world, none)

theorem storeValue_error {item : ControlItem} {value : ControlValue} {status : ControlStatus}
    (h : storeValue item value = .error status) : status ≠ .ok := by
  unfold storeValue at h
  rintro rfl
  split at h <;> try cases h
  all_goals
    cases value <;> try cases h
    dsimp only at h
    split at h <;> cases h

theorem publicSet_outcome (bindings : List Binding) (world : ControlWorld σ) (key : Bytes) (value : Option ControlValue) :
    SetOutcome handlers bindings world key value (publicSet handlers bindings world key value) := by
  unfold publicSet
  cases hbinding : findPublicBinding bindings key publicControl with
  | none => exact .refused (by decide)
  | some binding =>
    dsimp only
    unfold setItem
    cases hitem : findItemIn binding.id binding.subId world.tree with
    | none => exact .refused (by decide)
    | some item =>
      by_cases hhidden : item.hidden = true
      · simp only [hhidden, if_true]
        exact .refused (by decide)
      by_cases hdisabled : item.disabled = true
      · simp only [hhidden, hdisabled, if_true, Bool.false_eq_true, if_false]
        exact .refused (by decide)
      simp only [hhidden, hdisabled, Bool.false_eq_true, if_false]
      cases value with
      | none => exact .refused (by decide)
      | some asked =>
        cases hstore : storeValue item asked with
        | error status =>
          simp only [hstore]
          exact .refused (storeValue_error hstore)
        | ok stored =>
          simp only [hstore]
          obtain ⟨front, back, hbefore, hafter⟩ := @writeItemIn_items _ _ _ stored _ hitem
          exact .stored hbinding hitem ⟨Bool.eq_false_iff.2 hhidden, Bool.eq_false_iff.2 hdisabled⟩ rfl
            (storeValue_stores hstore) hbefore hafter (uiMenuCommit_committed handlers _ stored)

/-- The pages of an accepted table have its visible bindings once each, and a set stores a value of the item or none. -/
theorem public_control_lists_and_sets :
    (∀ tree bindings kind limit, publicSetBindings bindings = true → 1 ≤ limit ∧ limit ≤ pageMax →
      VisitsAll tree bindings kind limit) ∧
    ∀ bindings world key value, SetOutcome handlers bindings world key value
      (publicSet handlers bindings world key value) :=
  ⟨fun _ _ _ _ haccepted hlimit => visits_all haccepted hlimit, publicSet_outcome handlers⟩

end

/-- A table with two keys of a menu, and a key between them whose item the menu does not have. -/
def soundBindings : List Binding :=
  [⟨ascii "sound.volume", 7, subIdAny, publicControl, actionNone⟩,
    ⟨ascii "sound.engine", 9, subIdAny, publicControl, actionNone⟩,
    ⟨ascii "sound.mute", 8, subIdAny, publicControl, actionNone⟩]

def soundMenu : ControlTree :=
  .node { type := .range, id := 7, min := 0, max := 100, step := 5, value := 50 } .nil
    (.node { type := .toggle, id := 8 } .nil .nil)

def noHandlers : Handlers Unit := fun _ => none

/-- The volume is set as a step of its range allows. -/
def louder : ControlStatus × ControlWorld Unit × Option Description :=
  publicSet noHandlers soundBindings ⟨soundMenu, (), []⟩ (ascii "sound.volume") (some (.integer 75))

theorem soundBindings_listed :
    VisitsAll soundMenu soundBindings publicControl 1 ∧
      (visible soundMenu publicControl soundBindings).map Binding.key = [ascii "sound.volume", ascii "sound.mute"] ∧
      SetOutcome noHandlers soundBindings ⟨soundMenu, (), []⟩ (ascii "sound.volume") (some (.integer 75)) louder ∧
      louder.1 = .ok := by
  obtain ⟨hlists, hsets⟩ := public_control_lists_and_sets noHandlers
  refine ⟨hlists soundMenu soundBindings publicControl 1 (by decide) (by decide), by decide, ?_, by decide⟩
  exact hsets soundBindings ⟨soundMenu, (), []⟩ (ascii "sound.volume") (some (.integer 75))

/-- A limit that is more than a page has room for is refused, so no page is listed. -/
theorem long_page_refused : publicSetBindings soundBindings = true ∧ 1 ≤ pageMax + 1 ∧
    ¬ VisitsAll soundMenu soundBindings publicControl (pageMax + 1) := by
  refine ⟨by decide, by decide, fun h => ?_⟩
  obtain ⟨pages, hpages, -⟩ := h.pages
  have hrefused : publicListBindings (some soundMenu) soundBindings publicControl [] (pageMax + 1) =
      .error .invalidValue := rfl
  cases hpages with
  | last hpage _ => cases hrefused.symm.trans hpage
  | more hpage _ _ _ => cases hrefused.symm.trans hpage

end Bmx.MenuControl
