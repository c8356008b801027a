import Bmx.Menu.MenuItem

/-!
# Values are applied

The value of an item stays in its domain, and is the one that its handler was last called with. Steps of the
keyboard and of the mouse lead to the same values.
-/

namespace Bmx.Menu

open Bool Int32

variable {a b : Int32} {low high value : Int}

theorem toInt_add_of_fits (hlow : -2 ^ 31 ≤ a.toInt + b.toInt) (hhigh : a.toInt + b.toInt < 2 ^ 31) :
    (a + b).toInt = a.toInt + b.toInt := by
  rw [toInt_add, Int.bmod_eq_of_le]
  · omega
  · omega

theorem toInt_sub_of_fits (hlow : -2 ^ 31 ≤ a.toInt - b.toInt) (hhigh : a.toInt - b.toInt < 2 ^ 31) :
    (a - b).toInt = a.toInt - b.toInt := by
  rw [toInt_sub, Int.bmod_eq_of_le]
  · omega
  · omega

/-- The value of an interval that is nearest. -/
def clampTo (low high value : Int) : Int := if value < low then low else if value > high then high else value

theorem clampTo_bounds (h : low ≤ high) (value : Int) :
    low ≤ clampTo low high value ∧ clampTo low high value ≤ high := by
  unfold clampTo
  split_ifs <;> omega

theorem clampTo_of_mem (hlow : low ≤ value) (hhigh : value ≤ high) : clampTo low high value = value := by
  unfold clampTo
  rw [if_neg (by omega), if_neg (by omega)]

theorem clampTo_add (hlow : low ≤ value) (hhigh : value ≤ high) {a b : Int} (h : 0 ≤ a ∧ 0 ≤ b ∨ a ≤ 0 ∧ b ≤ 0) :
    clampTo low high (clampTo low high (value + a) + b) = clampTo low high (value + (b + a)) := by
  unfold clampTo
  split_ifs <;> omega

namespace MenuItem

variable {item : MenuItem}

/-- A range, a choice, a toggle or a checkbox has a value of its domain. -/
def InDomain (item : MenuItem) : Prop :=
  match item.type with
  | .range => item.min ≤ item.value ∧ item.value ≤ item.max
  | .multipleChoice => item.numChoices.toInt ≤ maxChoices ∧ 0 ≤ item.value ∧ item.value < item.numChoices ∧
      item.choiceDisabledAt item.value = false
  | .toggle | .checkbox => item.value = 0 ∨ item.value = 1
  | _ => False

/-- The steps of a range are positive, and none leaves the integers. -/
structure StepsFit (item : MenuItem) : Prop where
  positive : ∀ fine, 0 < (item.increment fine).toInt
  below : ∀ fine, -2 ^ 31 ≤ item.min.toInt - (item.increment fine).toInt
  above : ∀ fine, item.max.toInt + (item.increment fine).toInt < 2 ^ 31

/-- What a step leaves as it is. -/
structure SameKind (item next : MenuItem) : Prop where
  type : next.type = item.type
  disabled : next.disabled = item.disabled
  numChoices : next.numChoices = item.numChoices
  choiceInts : next.choiceInts = item.choiceInts
  choiceDisabled : next.choiceDisabled = item.choiceDisabled
  min : next.min = item.min
  max : next.max = item.max
  step : next.step = item.step
  ministep : next.ministep = item.ministep

/-- A step keeps the domain, and calls the handler where the value changes. -/
structure GoodStep (item : MenuItem) (answer : Bool × MenuItem) : Prop where
  same : item.SameKind answer.2
  inDomain : answer.2.InDomain
  committed : answer.1 = false → answer.2.value = item.value

theorem sameKind_value (item : MenuItem) (value : Int32) : item.SameKind { item with value := value } :=
  ⟨rfl, rfl, rfl, rfl, rfl, rfl, rfl, rfl, rfl⟩

variable {next : MenuItem} {value : Int32}

theorem SameKind.trans {last : MenuItem} (h : item.SameKind next) (hlast : next.SameKind last) :
    item.SameKind last :=
  ⟨hlast.type.trans h.type, hlast.disabled.trans h.disabled, hlast.numChoices.trans h.numChoices,
    hlast.choiceInts.trans h.choiceInts, hlast.choiceDisabled.trans h.choiceDisabled, hlast.min.trans h.min,
    hlast.max.trans h.max, hlast.step.trans h.step, hlast.ministep.trans h.ministep⟩

theorem SameKind.increment (h : item.SameKind next) (fine : Bool) : next.increment fine = item.increment fine := by
  unfold MenuItem.increment
  rw [h.step, h.ministep]

theorem SameKind.stepsFit (h : item.SameKind next) (hsteps : item.StepsFit) : next.StepsFit := by
  constructor
  · intro fine
    rw [h.increment]
    exact hsteps.positive fine
  · intro fine
    rw [h.increment, h.min]
    exact hsteps.below fine
  · intro fine
    rw [h.increment, h.max]
    exact hsteps.above fine

theorem goodStep_refl (hdomain : item.InDomain) : item.GoodStep (false, item) :=
  ⟨sameKind_value item item.value, hdomain, fun _ => rfl⟩

theorem goodStep_value {committed : Bool} (hdomain : InDomain { item with value := value })
    (hcommitted : committed = false → value = item.value) :
    item.GoodStep (committed, { item with value := value }) :=
  ⟨sameKind_value item value, hdomain, hcommitted⟩

theorem inDomain_range (htype : item.type = .range) :
    InDomain { item with value := value } ↔ item.min ≤ value ∧ value ≤ item.max := by
  unfold InDomain
  rw [show MenuItem.type { item with value := value } = .range from htype]

theorem inDomain_choice (htype : item.type = .multipleChoice) :
    InDomain { item with value := value } ↔ item.numChoices.toInt ≤ maxChoices ∧ 0 ≤ value ∧ value < item.numChoices ∧
      item.choiceDisabledAt value = false := by
  unfold InDomain
  rw [show MenuItem.type { item with value := value } = .multipleChoice from htype]
  rfl

theorem inDomain_two (htype : item.type = .toggle ∨ item.type = .checkbox) :
    InDomain { item with value := value } ↔ value = 0 ∨ value = 1 := by
  unfold InDomain
  rcases htype with htype | htype
  · rw [show MenuItem.type { item with value := value } = .toggle from htype]
  · rw [show MenuItem.type { item with value := value } = .checkbox from htype]

/-! ### Ranges -/

section Range

variable {fine : Bool}

theorem increment_bounds (fine : Bool) (hsteps : item.StepsFit) (hdomain : item.min ≤ item.value ∧ item.value ≤ item.max) :
    (item.value - item.increment fine).toInt = item.value.toInt - (item.increment fine).toInt ∧
      (item.value + item.increment fine).toInt = item.value.toInt + (item.increment fine).toInt := by
  obtain ⟨hmin, hmax⟩ := hdomain
  rw [le_iff_toInt_le] at hmin hmax
  have hpositive := hsteps.positive fine
  have hbelow := hsteps.below fine
  have habove := hsteps.above fine
  constructor
  · exact toInt_sub_of_fits (by omega) (by omega)
  · exact toInt_add_of_fits (by omega) (by omega)

/-- A range with another value. -/
def withValue (item : MenuItem) (value : Int) : MenuItem := { item with value := ofInt value }

theorem withValue_self (item : MenuItem) : item.withValue item.value.toInt = item := by
  unfold withValue
  rw [ofInt_toInt]

theorem withValue_range (htype : item.type = .range) (hdomain : item.InDomain) (value : Int) :
    (item.withValue (clampTo item.min.toInt item.max.toInt value)).InDomain ∧
      (item.withValue (clampTo item.min.toInt item.max.toInt value)).value.toInt =
        clampTo item.min.toInt item.max.toInt value := by
  obtain ⟨hmin, hmax⟩ := (inDomain_range htype).1 hdomain
  rw [le_iff_toInt_le] at hmin hmax
  have hclamp := clampTo_bounds (Int.le_trans hmin hmax) value
  have hlow := le_toInt item.min
  have hhigh := toInt_lt item.max
  have hvalue : (ofInt (clampTo item.min.toInt item.max.toInt value)).toInt =
      clampTo item.min.toInt item.max.toInt value := toInt_ofInt_of_le (by omega) (by omega)
  refine ⟨(inDomain_range htype).2 ?_, hvalue⟩
  rw [le_iff_toInt_le, le_iff_toInt_le, hvalue]
  exact hclamp

/-- A step of the keyboard. The handler is not called where the step would pass the end of the range. -/
def keyStep (item : MenuItem) (delta : Int) : Bool × MenuItem :=
  (item.min.toInt ≤ item.value.toInt + delta ∧ item.value.toInt + delta ≤ item.max.toInt,
    item.withValue (clampTo item.min.toInt item.max.toInt (item.value.toInt + delta)))

theorem actionLeft_range (hsteps : item.StepsFit) (htype : item.type = .range) (henabled : item.disabled = false)
    (hdomain : item.InDomain) : item.actionLeft fine = some (item.keyStep (-(item.increment fine).toInt)) := by
  have hbounds := (inDomain_range htype).1 hdomain
  obtain ⟨hleft, -⟩ := increment_bounds fine hsteps hbounds
  have hpositive := hsteps.positive fine
  rw [le_iff_toInt_le, le_iff_toInt_le] at hbounds
  have hstep : item.actionLeft fine =
      if item.value - item.increment fine < item.min then some (false, { item with value := item.min })
      else some (true, { item with value := item.value - item.increment fine }) := by
    cases item
    cases htype
    cases henabled
    rfl
  rw [hstep, keyStep, ← Int.sub_eq_add_neg, ← hleft]
  unfold clampTo withValue
  simp only [lt_iff_toInt_lt]
  split_ifs with hbelow
  · rw [ofInt_toInt, decide_eq_false (by omega)]
  · omega
  · rw [ofInt_toInt, decide_eq_true (by omega)]

theorem actionRight_range (hsteps : item.StepsFit) (htype : item.type = .range) (henabled : item.disabled = false)
    (hdomain : item.InDomain) : item.actionRight fine = some (item.keyStep (item.increment fine).toInt) := by
  have hbounds := (inDomain_range htype).1 hdomain
  obtain ⟨-, hright⟩ := increment_bounds fine hsteps hbounds
  have hpositive := hsteps.positive fine
  rw [le_iff_toInt_le, le_iff_toInt_le] at hbounds
  have hstep : item.actionRight fine =
      if item.value + item.increment fine > item.max then some (false, { item with value := item.max })
      else some (true, { item with value := item.value + item.increment fine }) := by
    cases item
    cases htype
    cases henabled
    rfl
  rw [hstep, keyStep, ← hright]
  unfold clampTo withValue
  simp only [gt_iff_lt, lt_iff_toInt_lt]
  split_ifs with habove
  · omega
  · rw [ofInt_toInt, decide_eq_false (by omega)]
  · omega
  · rw [ofInt_toInt, decide_eq_true (by omega)]

theorem key_good (htype : item.type = .range) (hdomain : item.InDomain) {delta : Int}
    (hclean : item.min.toInt ≤ item.value.toInt + delta ∧ item.value.toInt + delta ≤ item.max.toInt ∨
      clampTo item.min.toInt item.max.toInt (item.value.toInt + delta) = item.value.toInt) :
    item.GoodStep (item.keyStep delta) := by
  refine goodStep_value (withValue_range htype hdomain _).1 fun hout => ?_
  rcases hclean with hwithin | hend
  · exact absurd hwithin (of_decide_eq_false hout)
  · rw [hend, ofInt_toInt]

theorem mouse_range (hdomain : item.InDomain) (steps : Int32) : item.GoodStep (item.mouseAdjustRange steps fine) := by
  unfold mouseAdjustRange
  by_cases hidle : item.type ≠ .range ∨ item.disabled = true ∨ steps = 0
  · rw [if_pos hidle]
    exact goodStep_refl hdomain
  · rw [if_neg hidle]
    have htype : item.type = .range := by
      by_contra hother
      exact hidle (.inl hother)
    obtain ⟨hmin, hmax⟩ := (inDomain_range htype).1 hdomain
    rw [le_iff_toInt_le] at hmin hmax
    have hlow := le_toInt item.min
    have hhigh := toInt_lt item.max
    dsimp only
    generalize item.value.toInt + _ * _ = next
    generalize hclamped : (if (if next < item.min.toInt then item.min.toInt else next) > item.max.toInt then
      item.max.toInt else if next < item.min.toInt then item.min.toInt else next) = clamped
    have hclamp : item.min.toInt ≤ clamped ∧ clamped ≤ item.max.toInt := by
      rw [← hclamped]
      split_ifs <;> omega
    by_cases hsame : clamped = item.value.toInt
    · rw [if_pos hsame]
      exact goodStep_refl hdomain
    · rw [if_neg hsame]
      refine goodStep_value ?_ fun hfalse => Bool.noConfusion hfalse
      rw [inDomain_range htype, le_iff_toInt_le, le_iff_toInt_le,
        toInt_ofInt_of_le (by omega) (by omega)]
      exact hclamp

theorem mouse_value (hsteps : item.StepsFit) (htype : item.type = .range) (henabled : item.disabled = false)
    (hdomain : item.InDomain) (steps : Int32) :
    (item.mouseAdjustRange steps fine).2 = item.withValue
      (clampTo item.min.toInt item.max.toInt (item.value.toInt + steps.toInt * (item.increment fine).toInt)) := by
  obtain ⟨hmin, hmax⟩ := (inDomain_range htype).1 hdomain
  rw [le_iff_toInt_le] at hmin hmax
  have hself := withValue_self item
  unfold mouseAdjustRange
  by_cases hnone : steps = 0
  · rw [if_pos (.inr (.inr hnone)), hnone]
    change item = item.withValue (clampTo _ _ (item.value.toInt + 0 * _))
    rw [Int.zero_mul, Int.add_zero, clampTo_of_mem hmin hmax, hself]
  · have hincrement : ¬ item.increment fine ≤ 0 := by
      rw [le_iff_toInt_le]
      exact Int.not_le.2 (hsteps.positive fine)
    rw [if_neg (by simp [htype, henabled, hnone])]
    simp only [if_neg hincrement]
    generalize item.value.toInt + steps.toInt * (item.increment fine).toInt = next
    have hclamp : (if (if next < item.min.toInt then item.min.toInt else next) > item.max.toInt then item.max.toInt
        else if next < item.min.toInt then item.min.toInt else next) =
          clampTo item.min.toInt item.max.toInt next := by
      unfold clampTo
      split_ifs <;> omega
    rw [hclamp]
    by_cases hsame : clampTo item.min.toInt item.max.toInt next = item.value.toInt
    · rw [if_pos hsame, hsame, hself]
    · rw [if_neg hsame]
      rfl

def steppedBy (step : MenuItem → Option (Bool × MenuItem)) : Nat → MenuItem → Option MenuItem
  | 0, item => some item
  | n + 1, item => (step item).bind fun answer => steppedBy step n answer.2

theorem steppedBy_key {action : MenuItem → Option (Bool × MenuItem)} {delta : Int}
    (haction : ∀ next, item.SameKind next → next.InDomain → action next = some (next.keyStep delta))
    (htype : item.type = .range) (hdomain : item.InDomain) (n : Nat) :
    steppedBy action n item =
      some (item.withValue (clampTo item.min.toInt item.max.toInt (item.value.toInt + n * delta))) := by
  obtain ⟨hmin, hmax⟩ := (inDomain_range htype).1 hdomain
  rw [le_iff_toInt_le] at hmin hmax
  induction n generalizing item with
  | zero =>
    rw [Int.natCast_zero, Int.zero_mul, Int.add_zero, clampTo_of_mem hmin hmax, withValue_self]
    rfl
  | succ n ih =>
    obtain ⟨hnext, htoInt⟩ := withValue_range htype hdomain (item.value.toInt + delta)
    have hsame : item.SameKind (item.withValue (clampTo item.min.toInt item.max.toInt (item.value.toInt + delta))) :=
      sameKind_value item _
    have hclamp := clampTo_bounds (Int.le_trans hmin hmax) (item.value.toInt + delta)
    rw [← htoInt] at hclamp
    have hrest := ih (fun next hkind => haction next (hsame.trans hkind)) htype hnext hclamp.1 hclamp.2
    rw [htoInt, hsame.min, hsame.max] at hrest
    have hsum : clampTo item.min.toInt item.max.toInt
        (clampTo item.min.toInt item.max.toInt (item.value.toInt + delta) + n * delta) =
        clampTo item.min.toInt item.max.toInt (item.value.toInt + (n + 1 : Nat) * delta) := by
      have hdirection : 0 ≤ delta ∧ 0 ≤ n * delta ∨ delta ≤ 0 ∧ n * delta ≤ 0 := by
        rcases Int.le_total 0 delta with h | h
        · exact .inl ⟨h, Int.mul_nonneg (by omega) h⟩
        · exact .inr ⟨h, Int.mul_nonpos_of_nonneg_of_nonpos (by omega) h⟩
      rw [clampTo_add hmin hmax hdirection, Int.natCast_succ, Int.add_mul, Int.one_mul]
    change (action item).bind _ = _
    rw [haction item (sameKind_value item item.value) hdomain]
    refine hrest.trans (congrArg some ?_)
    rw [← hsum]
    rfl

/-- The keyboard and the mouse agree. -/
def PathsAgree (item : MenuItem) : Prop :=
  ∀ (fine : Bool) (n : Nat), n < 2 ^ 31 →
    steppedBy (actionRight fine) n item = some (item.mouseAdjustRange (ofInt n) fine).2 ∧
      steppedBy (actionLeft fine) n item = some (item.mouseAdjustRange (ofInt (-n)) fine).2

theorem pathsAgree (hsteps : item.StepsFit) (htype : item.type = .range) (henabled : item.disabled = false)
    (hdomain : item.InDomain) : item.PathsAgree := by
  intro fine n hn
  have hup : (ofInt n).toInt = n := toInt_ofInt_of_le (by omega) (by omega)
  have hdown : (ofInt (-n)).toInt = -n := toInt_ofInt_of_le (by omega) (by omega)
  constructor
  · have hright := fun next (hsame : item.SameKind next) (hnext : next.InDomain) => hsame.increment fine ▸
      actionRight_range (hsame.stepsFit hsteps) (hsame.type.trans htype) (hsame.disabled.trans henabled) hnext
    rw [steppedBy_key hright htype hdomain, mouse_value hsteps htype henabled hdomain, hup]
  · have hleft := fun next (hsame : item.SameKind next) (hnext : next.InDomain) => hsame.increment fine ▸
      actionLeft_range (hsame.stepsFit hsteps) (hsame.type.trans htype) (hsame.disabled.trans henabled) hnext
    rw [steppedBy_key hleft htype hdomain, mouse_value hsteps htype henabled hdomain, hdown, Int.neg_mul, Int.mul_neg]

end Range

/-! ### Choices -/

section Choices

variable {fine : Bool}

/-- A choice that exists and is not disabled. -/
def Selectable (item : MenuItem) (value : Int32) : Prop :=
  0 ≤ value.toInt ∧ value.toInt < item.numChoices.toInt ∧ item.choiceDisabledAt value = false

variable {orig value : Int32} {fuel : Nat}

/-- Going down, the loop ends at a choice, as long as there is one below. -/
theorem skip_down {target : Int32} (htarget : item.choiceDisabledAt target = false)
    (hlow : 0 ≤ target.toInt) (hbelow : target.toInt ≤ value.toInt) (hvalue : value.toInt < item.numChoices.toInt)
    (horig : item.choiceDisabledAt orig = false) (hfuel : value.toInt < fuel) :
    ∃ found, item.skipDisabled (· - 1) orig fuel value = some found ∧ item.Selectable found := by
  induction fuel generalizing value with
  | zero => omega
  | succ fuel ih =>
    unfold skipDisabled
    by_cases hskip : item.choiceDisabledAt value = true ∧ value ≠ orig
    · rw [if_pos hskip]
      have hne : target.toInt ≠ value.toInt := by
        intro hsame
        rw [toInt_inj.1 hsame, hskip.1] at htarget
        cases htarget
      have hrange := toInt_lt value
      have hone : (1 : Int32).toInt = 1 := rfl
      have hstep : (value - 1).toInt = value.toInt - 1 := toInt_sub_of_fits (by omega) (by omega)
      exact ih (by omega) (by omega) (by omega)
    · rw [if_neg hskip]
      refine ⟨value, rfl, by omega, hvalue, ?_⟩
      by_contra hdisabled
      apply hskip
      refine ⟨eq_true_of_not_eq_false hdisabled, ?_⟩
      rintro rfl
      exact hdisabled horig

theorem skip_round (horig : item.Selectable orig) (hsmall : item.numChoices.toInt ≤ maxChoices)
    (hlow : 0 ≤ value.toInt) (hvalue : value.toInt < item.numChoices.toInt) {distance : Nat}
    (hdistance : (value.toInt + distance) % item.numChoices.toInt = orig.toInt) (hfuel : distance < fuel) :
    ∃ found, item.skipDisabled (fun value => (value + 1) % item.numChoices) orig fuel value = some found ∧
      item.Selectable found := by
  induction fuel generalizing value distance with
  | zero => omega
  | succ fuel ih =>
    unfold skipDisabled
    by_cases hskip : item.choiceDisabledAt value = true ∧ value ≠ orig
    · rw [if_pos hskip]
      cases distance with
      | zero =>
        rw [Int.natCast_zero, Int.add_zero, Int.emod_eq_of_lt hlow hvalue] at hdistance
        exact absurd (toInt_inj.1 hdistance) hskip.2
      | succ distance =>
        have hunit : (1 : Int32).toInt = 1 := rfl
        have hone : (value + 1).toInt = value.toInt + 1 := by
          have hbound : ((maxChoices : Nat) : Int) = 64 := rfl
          exact toInt_add_of_fits (by omega) (by omega)
        have hstep : ((value + 1) % item.numChoices).toInt = (value.toInt + 1) % item.numChoices.toInt := by
          rw [toInt_mod, hone, Int.tmod_eq_emod_of_nonneg (by omega)]
        have hpositive : 0 < item.numChoices.toInt := by omega
        refine ih ?_ ?_ ?_ (show distance < fuel by omega)
        · rw [hstep]
          exact Int.emod_nonneg _ (by omega)
        · rw [hstep]
          exact Int.emod_lt_of_pos _ hpositive
        · rw [hstep, Int.emod_add_emod, ← hdistance]
          congr 1
          omega
    · rw [if_neg hskip]
      refine ⟨value, rfl, hlow, hvalue, ?_⟩
      by_contra hdisabled
      apply hskip
      refine ⟨eq_true_of_not_eq_false hdisabled, ?_⟩
      rintro rfl
      exact hdisabled horig.2.2

theorem InDomain.selectable (hdomain : item.InDomain) (htype : item.type = .multipleChoice) :
    item.numChoices.toInt ≤ maxChoices ∧ item.Selectable item.value := by
  obtain ⟨hsmall, hlow, hhigh, henabled⟩ := (inDomain_choice htype).1 hdomain
  rw [le_iff_toInt_le] at hlow
  rw [lt_iff_toInt_lt] at hhigh
  exact ⟨hsmall, hlow, hhigh, henabled⟩

theorem Selectable.inDomain (h : item.Selectable value) (htype : item.type = .multipleChoice)
    (hsmall : item.numChoices.toInt ≤ maxChoices) : InDomain { item with value := value } := by
  obtain ⟨hlow, hhigh, henabled⟩ := h
  rw [inDomain_choice htype, le_iff_toInt_le, lt_iff_toInt_lt]
  exact ⟨hsmall, hlow, hhigh, henabled⟩

theorem actionLeft_choice (htype : item.type = .multipleChoice) (henabled : item.disabled = false) :
    item.actionLeft fine =
      (item.skipDisabled (· - 1) item.value skipBound
        (if item.value - 1 < 0 then item.numChoices - 1 else item.value - 1)).bind fun value =>
          some (true, { item with value := if value < 0 then item.numChoices - 1 else value }) := by
  cases item
  cases htype
  cases henabled
  rfl

/-- The first choice that is not disabled, or one after it, goes to the left. -/
theorem left_choice (htype : item.type = .multipleChoice) (henabled : item.disabled = false) (hdomain : item.InDomain)
    (hclean : item.value.toInt = 0 ∨ ∃ target : Int32, target.toInt < item.value.toInt ∧ item.Selectable target) :
    ∃ answer, item.actionLeft fine = some answer ∧ item.GoodStep answer := by
  obtain ⟨hsmall, hselectable⟩ := hdomain.selectable htype
  obtain ⟨hlow, hhigh, horig⟩ := hselectable
  have hbound : ((maxChoices : Nat) : Int) = 64 := rfl
  have hone : (1 : Int32).toInt = 1 := rfl
  have hzero : (0 : Int32).toInt = 0 := rfl
  have hprevious : (item.value - 1).toInt = item.value.toInt - 1 := toInt_sub_of_fits (by omega) (by omega)
  have hlast : (item.numChoices - 1).toInt = item.numChoices.toInt - 1 := toInt_sub_of_fits (by omega) (by omega)
  have hfound : ∃ found, item.skipDisabled (· - 1) item.value skipBound
      (if item.value - 1 < 0 then item.numChoices - 1 else item.value - 1) = some found ∧ item.Selectable found := by
    rcases hclean with hfirst | ⟨target, htarget, htargetLow, htargetHigh, htargetEnabled⟩
    · have hbelow : item.value - 1 < 0 := by
        rw [lt_iff_toInt_lt, hprevious, hzero]
        omega
      rw [if_pos hbelow]
      exact skip_down horig hlow (by omega) (by omega) horig (by unfold skipBound; omega)
    · have habove : ¬ item.value - 1 < 0 := by
        rw [lt_iff_toInt_lt, hprevious, hzero]
        omega
      rw [if_neg habove]
      exact skip_down htargetEnabled htargetLow (by omega) (by omega) horig (by unfold skipBound; omega)
  obtain ⟨found, hskip, hselectable⟩ := hfound
  have hpositive : ¬ found < 0 := by
    rw [lt_iff_toInt_lt, hzero]
    exact Int.not_lt.2 hselectable.1
  rw [actionLeft_choice htype henabled, hskip, Option.bind_some, if_neg hpositive]
  exact ⟨_, rfl, goodStep_value (hselectable.inDomain htype hsmall) fun hfalse => Bool.noConfusion hfalse⟩

theorem next_choice (htype : item.type = .multipleChoice) (hdomain : item.InDomain) :
    ∃ answer, item.nextChoice = some answer ∧ item.GoodStep answer := by
  obtain ⟨hsmall, hvalue⟩ := hdomain.selectable htype
  obtain ⟨hlow, hhigh, horig⟩ := id hvalue
  have hbound : ((maxChoices : Nat) : Int) = 64 := rfl
  have hone : (1 : Int32).toInt = 1 := rfl
  have hnext : (item.value + 1).toInt = item.value.toInt + 1 := toInt_add_of_fits (by omega) (by omega)
  have hfound : ∃ found, item.skipDisabled (fun value => (value + 1) % item.numChoices) item.value skipBound
      (if item.value + 1 ≥ item.numChoices then 0 else item.value + 1) = some found ∧ item.Selectable found := by
    by_cases hlast : item.value + 1 ≥ item.numChoices
    · rw [if_pos hlast]
      refine skip_round hvalue hsmall (by decide) (by change 0 < _; omega)
        (show ((0 : Int32).toInt + item.value.toInt.toNat) % _ = _ from ?_) (by unfold skipBound; omega)
      rw [show (0 : Int32).toInt = 0 from rfl, Int.zero_add, Int.toNat_of_nonneg hlow, Int.emod_eq_of_lt hlow hhigh]
    · rw [if_neg hlast]
      rw [ge_iff_le, le_iff_toInt_le, hnext] at hlast
      refine skip_round hvalue hsmall (by omega) (by omega)
        (show (_ + ((item.numChoices.toInt - 1).toNat : Int)) % _ = _ from ?_) (by unfold skipBound; omega)
      rw [hnext, Int.toNat_of_nonneg (by omega), show item.value.toInt + 1 + (item.numChoices.toInt - 1) =
        item.value.toInt + item.numChoices.toInt by omega, Int.add_emod_right, Int.emod_eq_of_lt hlow hhigh]
  obtain ⟨found, hskip, hselectable⟩ := hfound
  refine ⟨(true, { item with value := found }), ?_, goodStep_value (hselectable.inDomain htype hsmall)
    fun hfalse => Bool.noConfusion hfalse⟩
  unfold nextChoice
  dsimp only
  rw [hskip]
  rfl

end Choices

theorem other_value (htype : item.type = .toggle ∨ item.type = .checkbox) (hdomain : item.InDomain) :
    item.GoodStep (true, { item with value := 1 - item.value }) := by
  have hvalue : item.value = 0 ∨ item.value = 1 := (inDomain_two htype).1 hdomain
  refine goodStep_value ((inDomain_two htype).2 ?_) fun hfalse => Bool.noConfusion hfalse
  rcases hvalue with hzero | hone
  · rw [hzero]
    exact .inr rfl
  · rw [hone]
    exact .inl rfl

/-! ### One key -/

/-- A step of the keyboard that does not pass the end of a range, unless it begins there. A step to the left from a
choice other than the first finds one that is not disabled. -/
structure CleanLeft (item : MenuItem) (fine : Bool) : Prop where
  range : item.type = .range →
    item.min.toInt + (item.increment fine).toInt ≤ item.value.toInt ∨ item.value = item.min
  choice : item.type = .multipleChoice →
    item.value.toInt = 0 ∨ ∃ target : Int32, target.toInt < item.value.toInt ∧ item.Selectable target

def CleanRight (item : MenuItem) (fine : Bool) : Prop :=
  item.type = .range → item.value.toInt + (item.increment fine).toInt ≤ item.max.toInt ∨ item.value = item.max

theorem InDomain.cases (hdomain : item.InDomain) : item.type = .range ∨ item.type = .multipleChoice ∨
    item.type = .toggle ∨ item.type = .checkbox := by
  unfold InDomain at hdomain
  split at hdomain
  · exact .inl ‹_›
  · exact .inr (.inl ‹_›)
  · exact .inr (.inr (.inl ‹_›))
  · exact .inr (.inr (.inr ‹_›))
  · exact hdomain.elim

variable {fine : Bool}

theorem still_good {answer : Option (Bool × MenuItem)} (hdomain : item.InDomain) (h : answer = some (false, item)) :
    ∃ answer', answer = some answer' ∧ item.GoodStep answer' := ⟨_, h, goodStep_refl hdomain⟩

theorem left_good (hsteps : item.type = .range → item.StepsFit) (hdomain : item.InDomain)
    (hclean : item.disabled = false → item.CleanLeft fine) :
    ∃ answer, item.actionLeft fine = some answer ∧ item.GoodStep answer := by
  cases henabled : item.disabled with
  | true => exact still_good hdomain (if_pos henabled)
  | false =>
    rcases hdomain.cases with htype | htype | htype | htype
    · refine ⟨_, actionLeft_range (hsteps htype) htype henabled hdomain, key_good htype hdomain ?_⟩
      have hpositive := (hsteps htype).positive fine
      obtain ⟨hmin, hmax⟩ := (inDomain_range htype).1 hdomain
      rw [le_iff_toInt_le] at hmin hmax
      rcases (hclean henabled).range htype with habove | hend
      · exact .inl (by omega)
      · rw [hend] at hmax ⊢
        exact .inr (if_pos (by omega))
    · exact left_choice htype henabled hdomain ((hclean henabled).choice htype)
    · refine ⟨_, ?_, other_value (.inl htype) hdomain⟩
      simp only [actionLeft, henabled, false_eq_true, ite_false, htype]
    · exact still_good hdomain (by simp only [actionLeft, henabled, false_eq_true, ite_false, htype])

theorem right_good (hsteps : item.type = .range → item.StepsFit) (hdomain : item.InDomain)
    (hclean : item.disabled = false → item.CleanRight fine) :
    ∃ answer, item.actionRight fine = some answer ∧ item.GoodStep answer := by
  cases henabled : item.disabled with
  | true => exact still_good hdomain (if_pos henabled)
  | false =>
    rcases hdomain.cases with htype | htype | htype | htype
    · refine ⟨_, actionRight_range (hsteps htype) htype henabled hdomain, key_good htype hdomain ?_⟩
      have hpositive := (hsteps htype).positive fine
      obtain ⟨hmin, hmax⟩ := (inDomain_range htype).1 hdomain
      rw [le_iff_toInt_le] at hmin hmax
      rcases hclean henabled htype with hbelow | hend
      · exact .inl (by omega)
      · rw [hend] at hmin ⊢
        exact .inr ((if_neg (by omega)).trans (if_pos (by omega)))
    · obtain ⟨answer, hnext, hgood⟩ := next_choice htype hdomain
      refine ⟨answer, ?_, hgood⟩
      simp only [actionRight, henabled, false_eq_true, ite_false, htype, hnext]
    · refine ⟨_, ?_, other_value (.inl htype) hdomain⟩
      simp only [actionRight, henabled, false_eq_true, ite_false, htype]
    · exact still_good hdomain (by simp only [actionRight, henabled, false_eq_true, ite_false, htype])

theorem return_good (hdomain : item.InDomain) : ∃ answer, item.actionReturn = some answer ∧ item.GoodStep answer := by
  cases henabled : item.disabled with
  | true => exact still_good hdomain (if_pos henabled)
  | false =>
    rcases hdomain.cases with htype | htype | htype | htype
    · exact still_good hdomain (by simp only [actionReturn, henabled, false_eq_true, ite_false, htype])
    · obtain ⟨answer, hnext, hgood⟩ := next_choice htype hdomain
      refine ⟨answer, ?_, hgood⟩
      simp only [actionReturn, henabled, false_eq_true, ite_false, htype, hnext]
    · refine ⟨_, ?_, other_value (.inl htype) hdomain⟩
      simp only [actionReturn, henabled, false_eq_true, ite_false, htype]
    · refine ⟨_, ?_, other_value (.inr htype) hdomain⟩
      simp only [actionReturn, henabled, false_eq_true, ite_false, htype]

end MenuItem

/-! ### Runs -/

namespace ItemRun

variable {item : MenuItem} {r : ItemRun}

def start (item : MenuItem) : ItemRun where
  item := item

/-- The value is in its domain, and is the one that the handler was last called with. -/
structure Applied (item : MenuItem) (r : ItemRun) : Prop where
  same : item.SameKind r.item
  inDomain : r.item.InDomain
  applied : r.commits.getLast?.getD item.value = r.item.value

def Clean (action : ItemAction) (r : ItemRun) : Prop :=
  match action with
  | .left taken => taken = false → r.item.disabled = false → r.item.CleanLeft false
  | .right taken => taken = false → r.item.disabled = false → r.item.CleanRight false
  | .miniLeft => r.item.disabled = false → r.item.CleanLeft true
  | .miniRight => r.item.disabled = false → r.item.CleanRight true
  | _ => True

def CleanRun (r : ItemRun) : List ItemAction → Prop
  | [] => True
  | action :: rest => Clean action r ∧ ∀ next, r.step action = some next → CleanRun next rest

theorem start_applied (hdomain : item.InDomain) : Applied item (start item) :=
  ⟨MenuItem.sameKind_value item item.value, hdomain, rfl⟩

theorem Applied.adjusted (h : Applied item r) {answer : Bool × MenuItem} (hgood : r.item.GoodStep answer) :
    Applied item (r.adjusted answer) := by
  refine ⟨h.same.trans hgood.same, hgood.inDomain, ?_⟩
  obtain ⟨committed, next⟩ := answer
  unfold ItemRun.adjusted
  cases committed with
  | true => simp
  | false =>
    have hvalue : next.value = r.item.value := hgood.committed rfl
    rw [hvalue]
    exact h.applied

theorem Applied.map {step : Option (Bool × MenuItem)} (h : Applied item r)
    (hstep : ∃ answer, step = some answer ∧ r.item.GoodStep answer) :
    ∃ next, step.map r.adjusted = some next ∧ Applied item next := by
  obtain ⟨answer, rfl, hgood⟩ := hstep
  exact ⟨r.adjusted answer, rfl, h.adjusted hgood⟩

theorem step_applied (hsteps : item.type = .range → item.StepsFit) {action : ItemAction} (h : Applied item r)
    (hclean : Clean action r) : ∃ next, r.step action = some next ∧ Applied item next := by
  have hfit : r.item.type = .range → r.item.StepsFit := fun htype =>
    h.same.stepsFit (hsteps (h.same.type.symm.trans htype))
  cases action with
  | left taken =>
    cases taken with
    | true => exact ⟨r, rfl, h⟩
    | false => exact h.map (MenuItem.left_good hfit h.inDomain (hclean rfl))
  | right taken =>
    cases taken with
    | true => exact ⟨r, rfl, h⟩
    | false => exact h.map (MenuItem.right_good hfit h.inDomain (hclean rfl))
  | miniLeft => exact h.map (MenuItem.left_good hfit h.inDomain hclean)
  | miniRight => exact h.map (MenuItem.right_good hfit h.inDomain hclean)
  | returnKey => exact h.map (MenuItem.return_good h.inDomain)
  | wheel move => exact ⟨_, rfl, h.adjusted (MenuItem.mouse_range h.inDomain _)⟩
  | startDrag =>
    unfold step
    dsimp only
    split
    · exact ⟨_, rfl, h.same, h.inDomain, h.applied⟩
    · exact ⟨r, rfl, h⟩
  | continueDrag speed event =>
    unfold step
    cases hdrag : r.drag with
    | none => exact ⟨r, rfl, h⟩
    | some drag =>
      have hmoved : Applied item { r with drag := (drag.continue speed event).1 } := ⟨h.same, h.inDomain, h.applied⟩
      exact ⟨_, rfl, hmoved.adjusted (MenuItem.mouse_range h.inDomain _)⟩

theorem run_kept (hsteps : item.type = .range → item.StepsFit) {actions : List ItemAction} (h : Applied item r)
    (hclean : CleanRun r actions) : ∃ last, r.run actions = some last ∧ Applied item last := by
  induction actions generalizing r with
  | nil => exact ⟨r, rfl, h⟩
  | cons action rest ih =>
    obtain ⟨next, hstep, hnext⟩ := step_applied hsteps h hclean.1
    obtain ⟨last, hrest, hlast⟩ := ih hnext (hclean.2 next hstep)
    refine ⟨last, ?_, hlast⟩
    change (r.step action).bind (fun next => next.run rest) = _
    rw [hstep, Option.bind_some, hrest]

/-- In every run of clean steps, the value shown is the one applied, and the keyboard's steps are the mouse's. -/
theorem run_applied (item : MenuItem) (hdomain : item.InDomain) (hsteps : item.type = .range → item.StepsFit)
    (actions : List ItemAction) (hclean : CleanRun (start item) actions) :
    ∃ last, (start item).run actions = some last ∧ Applied item last ∧
      (last.item.type = .range → last.item.disabled = false → last.item.PathsAgree) := by
  obtain ⟨last, hlast, happlied⟩ := run_kept hsteps (start_applied hdomain) hclean
  refine ⟨last, hlast, happlied, fun htype henabled => ?_⟩
  have hfit := happlied.same.stepsFit (hsteps (happlied.same.type.symm.trans htype))
  exact MenuItem.pathsAgree hfit htype henabled happlied.inDomain

section Example

def exampleRange : MenuItem where
  type := .range
  value := 20
  max := 100
  step := 30
  ministep := 1

theorem exampleRange_inDomain : exampleRange.InDomain := by
  change (0 : Int32) ≤ 20 ∧ (20 : Int32) ≤ 100
  decide

theorem exampleRange_fits : exampleRange.StepsFit := by
  constructor <;> decide

theorem run_applied_example : ∃ last, (start exampleRange).run [.right false, .miniLeft, .wheel 3] = some last ∧
    Applied exampleRange last ∧ (last.item.type = .range → last.item.disabled = false → last.item.PathsAgree) := by
  apply run_applied exampleRange exampleRange_inDomain (fun _ => exampleRange_fits)
  refine ⟨fun _ _ _ => .inl (by decide), fun next hnext => ?_⟩
  cases hnext
  refine ⟨fun _ => ⟨fun _ => .inl (by decide), fun hchoice => ?_⟩, fun next hnext => ?_⟩
  · cases hchoice
  · cases hnext
    exact ⟨trivial, fun _ _ => trivial⟩

/-- Three steps to the right show 100, and the handler was last called with 80. -/
theorem limit_not_applied : exampleRange.InDomain ∧ exampleRange.StepsFit ∧
    ∃ last, (start exampleRange).run [.right false, .right false, .right false] = some last ∧
      last.item.value = 100 ∧ last.commits = [50, 80] ∧ ¬ Applied exampleRange last := by
  refine ⟨exampleRange_inDomain, exampleRange_fits, _, rfl, by decide, by decide, fun happlied => ?_⟩
  have hvalue := happlied.applied
  revert hvalue
  decide

end Example

end ItemRun

end Bmx.Menu
