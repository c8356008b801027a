import Bmx.Base.Instances
import Mathlib.Tactic.Ring

/-!
# Orders of a grid

An order visits each cell of a grid once. Orders compose: a grid of blocks, and in each block an order of
its cells.
-/

namespace Bmx

open Nat

/-- `place` visits the cells of a grid, each at its `index`. -/
structure GridOrder (count columns rows : Nat) (place : Nat → Nat × Nat) (index : Nat → Nat → Nat) : Prop where
  visits : ∀ i, i < count → (place i).1 < columns ∧ (place i).2 < rows ∧ index (place i).1 (place i).2 = i
  reaches : ∀ x y, x < columns → y < rows → index x y < count ∧ place (index x y) = (x, y)

namespace GridOrder

variable {count columns rows : Nat} {place : Nat → Nat × Nat} {index : Nat → Nat → Nat}

theorem injective (h : GridOrder count columns rows place index) {x y x' y' : Nat} (hx : x < columns) (hy : y < rows)
    (hx' : x' < columns) (hy' : y' < rows) (hsame : index x y = index x' y') : x = x' ∧ y = y' := by
  have hplace := (h.reaches x y hx hy).2
  rw [hsame, (h.reaches x' y' hx' hy').2] at hplace
  cases hplace
  exact ⟨rfl, rfl⟩

theorem rowMajor (columns rows : Nat) (hcolumns : 0 < columns) :
    GridOrder (rows * columns) columns rows (fun i => (i % columns, i / columns)) (fun x y => y * columns + x) := by
  constructor
  · intro i hi
    refine ⟨mod_lt i hcolumns, Nat.div_lt_of_lt_mul (by rwa [Nat.mul_comm]), ?_⟩
    exact div_add_mod' i columns
  · intro x y hx hy
    have hrow : (y + 1) * columns ≤ rows * columns := Nat.mul_le_mul_right columns hy
    constructor
    · rw [succ_mul] at hrow
      omega
    · rw [Nat.add_comm, add_mul_mod_self_right, add_mul_div_right _ _ hcolumns, mod_eq_of_lt hx,
        div_eq_of_lt hx, Nat.zero_add]

theorem blocks {size width height : Nat} {place' : Nat → Nat × Nat} {index' : Nat → Nat → Nat}
    (h : GridOrder count columns rows place index) (h' : GridOrder size width height place' index') (hsize : 0 < size)
    (hwidth : 0 < width) (hheight : 0 < height) :
    GridOrder (count * size) (columns * width) (rows * height)
      (fun i => ((place (i / size)).1 * width + (place' (i % size)).1,
        (place (i / size)).2 * height + (place' (i % size)).2))
      (fun x y => index (x / width) (y / height) * size + index' (x % width) (y % height)) := by
  have hquotient : ∀ {a b n : Nat}, 0 < n → b < n → (a * n + b) / n = a := by
    intro a b n hn hb
    rw [Nat.add_comm, add_mul_div_right _ _ hn, div_eq_of_lt hb, Nat.zero_add]
  have hremainder : ∀ {a b n : Nat}, b < n → (a * n + b) % n = b := by
    intro a b n hb
    rw [Nat.add_comm, add_mul_mod_self_right, mod_eq_of_lt hb]
  have hbound : ∀ {a b n m : Nat}, a < m → b < n → a * n + b < m * n := by
    intro a b n m ha hb
    have hnext : (a + 1) * n ≤ m * n := Nat.mul_le_mul_right n ha
    rw [succ_mul] at hnext
    omega
  constructor
  · intro i hi
    obtain ⟨hx, hy, hback⟩ := h.visits (i / size) (Nat.div_lt_of_lt_mul (by rwa [Nat.mul_comm]))
    obtain ⟨hx', hy', hback'⟩ := h'.visits (i % size) (mod_lt i hsize)
    refine ⟨hbound hx hx', hbound hy hy', ?_⟩
    rw [hquotient hwidth hx', hquotient hheight hy', hremainder hx', hremainder hy', hback, hback']
    exact div_add_mod' i size
  · intro x y hx hy
    obtain ⟨hcount, hback⟩ := h.reaches (x / width) (y / height) (Nat.div_lt_of_lt_mul (by rwa [Nat.mul_comm]))
      (Nat.div_lt_of_lt_mul (by rwa [Nat.mul_comm]))
    obtain ⟨hcount', hback'⟩ := h'.reaches (x % width) (y % height) (mod_lt x hwidth) (mod_lt y hheight)
    refine ⟨hbound hcount hcount', ?_⟩
    rw [hquotient hsize hcount', hremainder hcount', hback, hback']
    rw [div_add_mod', div_add_mod']

end GridOrder

/-! ### Nested loops -/

/-- The places of two nested loops, where the inner ones are as many. -/
theorem getElem?_flatMap_range {β : Type} {places : Nat → List β} {size : Nat} (hsize : ∀ i, (places i).length = size)
    {n i : Nat} (hi : i < n * size) : ((List.range n).flatMap places)[i]? = (places (i / size))[i % size]? := by
  induction n with
  | zero => omega
  | succ n ih =>
    have hlength : ((List.range n).flatMap places).length = n * size := by
      simp [List.length_flatMap, hsize]
    rw [List.range_succ, List.flatMap_append]
    by_cases hearlier : i < n * size
    · rw [List.getElem?_append_left (by omega)]
      exact ih hearlier
    · rw [succ_mul] at hi
      have hoffset : i - n * size < size := by omega
      have hsplit : i = (i - n * size) + n * size := by omega
      have hquotient : i / size = n := by
        rw [hsplit, add_mul_div_right _ _ (by omega), div_eq_of_lt hoffset, Nat.zero_add]
      have hremainder : i % size = i - n * size := by
        rw [hsplit, add_mul_mod_self_right, mod_eq_of_lt hoffset]
        omega
      rw [List.getElem?_append_right (by omega), hlength, hquotient, hremainder]
      simp

end Bmx
