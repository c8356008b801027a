import Bmx.Base.Instances
import Mathlib.Data.Fin.Basic

/-!
# A feed and its slow reader

A writer adds values, and a reader takes them one at a time in the order in which they were written.
Only the newest values are kept for the reader, so a reader that is too slow leaves out the oldest.
A ring buffer that overwrites keeps what the reader has still to take.
-/

namespace Interaction

open List Nat

/-- What was written, and the places of the values that were taken. -/
structure Feed (α : Type) where
  written : List α := []
  taken : List Nat := []

namespace Feed

variable {α : Type} {f : Feed α} {capacity : Nat}

/-- The place after the value that was taken last. -/
def position (f : Feed α) : Nat := (f.taken.getLast?.map (· + 1)).getD 0

/-- The place of the value that is taken next, where `capacity` values are kept. -/
def front (capacity : Nat) (f : Feed α) : Nat := max f.position (f.written.length - capacity)

def next? (capacity : Nat) (f : Feed α) : Option α := f.written[f.front capacity]?

def write (value : α) (f : Feed α) : Feed α := { f with written := f.written ++ [value] }

def take (capacity : Nat) (f : Feed α) : Feed α := { f with taken := f.taken ++ [f.front capacity] }

/-- The reader takes values in order, and of the newest it leaves out none. -/
structure Orderly (capacity : Nat) (f : Feed α) : Prop where
  increasing : f.taken.Pairwise (· < ·)
  before : ∀ place ∈ f.taken, place < f.position
  position : f.position ≤ f.written.length
  newest : ∀ place, f.written.length - capacity ≤ place → place < f.position → place ∈ f.taken

theorem position_write (value : α) : (f.write value).position = f.position := rfl

theorem position_take : (f.take capacity).position = f.front capacity + 1 := by
  unfold take position
  rw [getLast?_concat]
  rfl

theorem front_take : (f.take capacity).front capacity = f.front capacity + 1 := by
  have hposition : (f.take capacity).position = f.front capacity + 1 := position_take
  have hfront : f.written.length - capacity ≤ f.front capacity := Nat.le_max_right _ _
  change max (f.take capacity).position (f.written.length - capacity) = _
  omega

theorem orderly_empty : Orderly capacity ({} : Feed α) := by
  constructor
  · exact List.Pairwise.nil
  · intro place hplace
    cases hplace
  · exact Nat.le_refl 0
  · intro place _ hplace
    exact absurd hplace (Nat.not_lt_zero place)

theorem Orderly.write (h : Orderly capacity f) (value : α) : Orderly capacity (f.write value) := by
  have hlength : (f.write value).written.length = f.written.length + 1 := length_append
  have hposition := h.position
  refine ⟨h.increasing, h.before, ?_, ?_⟩
  · rw [hlength, position_write]
    omega
  · intro place hnew hplace
    exact h.newest place (by omega) hplace

theorem Orderly.take (h : Orderly capacity f) (hnext : f.front capacity < f.written.length) :
    Orderly capacity (f.take capacity) := by
  have hposition : (f.take capacity).position = f.front capacity + 1 := position_take
  have hbehind : f.position ≤ f.front capacity := Nat.le_max_left _ _
  constructor
  · refine pairwise_append.2 ⟨h.increasing, pairwise_singleton _ _, ?_⟩
    intro earlier hearlier last hlast
    rw [mem_singleton.1 hlast]
    exact Nat.lt_of_lt_of_le (h.before earlier hearlier) hbehind
  · intro place hplace
    rw [hposition]
    rcases mem_append.1 hplace with hearlier | hlast
    · have hbefore := h.before place hearlier
      omega
    · rw [mem_singleton.1 hlast]
      exact lt_succ_self _
  · rw [hposition]
    exact hnext
  · intro place hnew hplace
    rw [hposition] at hplace
    by_cases hearlier : place < f.position
    · exact mem_append_left _ (h.newest place hnew hearlier)
    · have hfront : f.front capacity = place := by
        have hnew' : f.written.length - capacity ≤ place := hnew
        unfold front at hplace ⊢
        omega
      rw [← hfront]
      exact mem_append_right _ mem_cons_self

/-- A reader that has nothing to take has taken all of the newest values. -/
theorem Orderly.drained (h : Orderly capacity f) (hnext : f.next? capacity = none) :
    ∀ place, f.written.length - capacity ≤ place → place < f.written.length → place ∈ f.taken := by
  intro place hnew hplace
  have hfront : f.written.length ≤ f.front capacity := List.getElem?_eq_none_iff.1 hnext
  have hposition : f.written.length ≤ f.position := by
    unfold front at hfront
    omega
  exact h.newest place hnew (by omega)

/-! ### Ring buffers -/

/-- A ring buffer keeps what was written from a place on. -/
structure Window [NeZero capacity] (written : List α) (first : Nat) (slots : Fin capacity → α) (head count : Nat) :
    Prop where
  inside : head < capacity
  bounded : count ≤ capacity
  all : first + count = written.length
  slots : ∀ i, i < count → written[first + i]? = some (slots (Fin.ofNat capacity (head + i)))

section

variable [NeZero capacity] {written : List α} {first head count : Nat} {slots : Fin capacity → α}

theorem window_empty (slots : Fin capacity → α) : Window [] 0 slots 0 0 := by
  refine ⟨pos_of_neZero capacity, Nat.zero_le _, rfl, ?_⟩
  intro i hi
  exact absurd hi (Nat.not_lt_zero i)

theorem Window.advance (h : Window written first slots head count) (hsome : count ≠ 0) :
    Window written (first + 1) slots ((head + 1) % capacity) (count - 1) := by
  have hcount := h.bounded
  have hall := h.all
  refine ⟨mod_lt _ (pos_of_neZero capacity), by omega, by omega, ?_⟩
  intro i hi
  have hslot := h.slots (i + 1) (by omega)
  have hplace : first + 1 + i = first + (i + 1) := by omega
  have hindex : Fin.ofNat capacity ((head + 1) % capacity + i) = Fin.ofNat capacity (head + (i + 1)) := by
    apply Fin.ext
    change ((head + 1) % capacity + i) % capacity = (head + (i + 1)) % capacity
    rw [mod_add_mod]
    congr 1
    omega
  rw [hplace, hslot, hindex]

theorem Window.append (h : Window written first slots head count) (hroom : count < capacity) (value : α) :
    Window (written ++ [value]) first (Function.update slots (Fin.ofNat capacity (head + count)) value)
      head (count + 1) := by
  have hall := h.all
  have hhead := h.inside
  refine ⟨h.inside, hroom, ?_, ?_⟩
  · rw [length_append, length_singleton, ← hall]
    omega
  intro i hi
  by_cases hlast : i = count
  · subst hlast
    rw [hall, Function.update_self]
    exact getElem?_concat_length
  · have hslot := h.slots i (by omega)
    have hother : Fin.ofNat capacity (head + i) ≠ Fin.ofNat capacity (head + count) := by
      intro hsame
      have hmod : (head + i) % capacity = (head + count) % capacity := congrArg Fin.val hsame
      have hcases : ∀ k, k < 2 * capacity → k % capacity = if k < capacity then k else k - capacity := by
        intro k hk
        split
        · rename_i hsmall
          exact mod_eq_of_lt hsmall
        · rename_i hlarge
          rw [mod_eq_sub_mod (Nat.not_lt.1 hlarge), mod_eq_of_lt (by omega)]
      rw [hcases (head + i) (by omega), hcases (head + count) (by omega)] at hmod
      split at hmod
      all_goals
        split at hmod
        · omega
        · omega
    rw [Function.update_of_ne hother, getElem?_append_left (by omega)]
    exact hslot

end

/-! ### The values in a ring buffer -/

/-- The values in a ring buffer, from the oldest on. -/
def ringList [NeZero capacity] (slots : Fin capacity → α) (head count : Nat) : List α :=
  (List.range count).map fun i => slots (Fin.ofNat capacity (head + i))

section

variable [NeZero capacity] {written : List α} {first head count : Nat} {slots : Fin capacity → α}

theorem length_ringList : (ringList slots head count).length = count := by
  unfold ringList
  rw [length_map, length_range]

theorem getElem?_ringList {i : Nat} (hi : i < count) :
    (ringList slots head count)[i]? = some (slots (Fin.ofNat capacity (head + i))) := by
  unfold ringList
  rw [getElem?_map, getElem?_range hi]
  rfl

theorem window_ringList (hhead : head < capacity) (hcount : count ≤ capacity) :
    Window (ringList slots head count) 0 slots head count := by
  refine ⟨hhead, hcount, ?_, ?_⟩
  · rw [length_ringList, Nat.zero_add]
  · intro i hi
    rw [Nat.zero_add]
    exact getElem?_ringList hi

theorem Window.ringList_eq (h : Window written first slots head count) :
    ringList slots head count = written.drop first := by
  have hall := h.all
  apply ext_getElem?
  intro i
  rw [getElem?_drop]
  by_cases hi : i < count
  · rw [getElem?_ringList hi, h.slots i hi]
  · rw [getElem?_eq_none (by rw [length_ringList]; omega), getElem?_eq_none (by omega)]

theorem ringList_append (hhead : head < capacity) (hroom : count < capacity) (value : α) :
    ringList (Function.update slots (Fin.ofNat capacity (head + count)) value) head (count + 1) =
      ringList slots head count ++ [value] :=
  ((window_ringList hhead (Nat.le_of_lt hroom)).append hroom value).ringList_eq

theorem ringList_advance (hhead : head < capacity) (hcount : count ≤ capacity) (hsome : count ≠ 0) :
    ringList slots head count =
      slots (Fin.ofNat capacity head) :: ringList slots ((head + 1) % capacity) (count - 1) := by
  have hwindow : Window (ringList slots head count) 0 slots head count := window_ringList hhead hcount
  have hlater := (hwindow.advance hsome).ringList_eq
  have hfirst : (ringList slots head count)[0]? = some (slots (Fin.ofNat capacity head)) :=
    getElem?_ringList (Nat.pos_of_ne_zero hsome)
  rw [hlater]
  cases hlist : ringList slots head count with
  | nil =>
    rw [hlist] at hfirst
    cases hfirst
  | cons value rest =>
    rw [hlist] at hfirst
    rw [← Option.some.inj hfirst]
    rfl

end

/-! ### What a ring buffer keeps for the reader -/

/-- A ring buffer keeps what the reader has still to take. -/
def KeptIn [NeZero capacity] (f : Feed α) (slots : Fin capacity → α) (head count : Nat) : Prop :=
  Window f.written (f.front capacity) slots head count

section

variable [NeZero capacity] {head count : Nat} {slots : Fin capacity → α}

theorem KeptIn.next? (h : f.KeptIn slots head count) :
    f.next? capacity = if count = 0 then none else some (slots (Fin.ofNat capacity head)) := by
  have hall := h.all
  unfold Feed.next?
  split
  · exact getElem?_eq_none (by omega)
  · exact h.slots 0 (by omega)

theorem KeptIn.take (h : f.KeptIn slots head count) (hsome : count ≠ 0) :
    (f.take capacity).KeptIn slots ((head + 1) % capacity) (count - 1) := by
  unfold KeptIn
  rw [front_take]
  exact h.advance hsome

theorem KeptIn.write_full (h : f.KeptIn slots head count) (hfull : count = capacity) (value : α) :
    (f.write value).KeptIn
      (Function.update slots (Fin.ofNat capacity ((head + 1) % capacity + (count - 1))) value)
      ((head + 1) % capacity) (count - 1 + 1) := by
  have hpositive : 0 < capacity := pos_of_neZero capacity
  have hall := h.all
  have hfront : (f.write value).front capacity = f.front capacity + 1 := by
    have hlength : (f.write value).written.length = f.written.length + 1 := length_append
    have hbehind : f.position ≤ f.front capacity := Nat.le_max_left _ _
    unfold front
    rw [hlength, position_write]
    omega
  unfold KeptIn
  rw [hfront]
  exact (h.advance (by omega)).append (by omega) value

theorem KeptIn.write (h : f.KeptIn slots head count) (hroom : count ≠ capacity) (value : α) :
    (f.write value).KeptIn (Function.update slots (Fin.ofNat capacity (head + count)) value) head (count + 1) := by
  have hcount := h.bounded
  have hall := h.all
  have hfront : (f.write value).front capacity = f.front capacity := by
    have hlength : (f.write value).written.length = f.written.length + 1 := length_append
    unfold front at hall ⊢
    rw [hlength, position_write]
    omega
  unfold KeptIn
  rw [hfront]
  exact Window.append h (by omega) value

end

end Feed

end Interaction
