import Bmx.Base.Instances

/-!
# Tilings of an interval

Ranges of positions laid end to end. A tiling covers every position of its interval exactly once.
-/

namespace Bmx

/-- Ranges laid end to end from `first` to `last`. -/
def Tiles : List (Nat × Nat) → (first last : Nat) → Prop
  | [], first, last => first = last
  | range :: rest, first, last => range.1 = first ∧ range.1 ≤ range.2 ∧ Tiles rest range.2 last

/-! ### Records laid end to end -/

section Laid

variable {α : Type} {record : α → Nat → Nat → Prop}

/-- Records laid end to end, each of which says from where to where it reaches. -/
def Laid (record : α → Nat → Nat → Prop) : List α → (first last : Nat) → Prop
  | [], first, last => first = last
  | a :: rest, first, last => ∃ middle, record a first middle ∧ Laid record rest middle last

variable {records : List α} {a : α} {first last : Nat}

theorem Laid.append {middle : Nat} (h : Laid record records first middle) (hlast : record a middle last) :
    Laid record (records ++ [a]) first last := by
  induction records generalizing first with
  | nil =>
    obtain rfl : first = middle := h
    exact ⟨last, hlast, rfl⟩
  | cons b rest ih =>
    obtain ⟨next, hnext, hrest⟩ := h
    exact ⟨next, hnext, ih hrest⟩

theorem Laid.mono {record' : α → Nat → Nat → Prop}
    (h : Laid record records first last) (hsub : ∀ a m n, record a m n → record' a m n) :
    Laid record' records first last := by
  induction records generalizing first with
  | nil => exact h
  | cons a rest ih =>
    obtain ⟨middle, hmiddle, hrest⟩ := h
    exact ⟨middle, hsub _ _ _ hmiddle, ih hrest⟩

theorem Laid.of_mem (h : Laid record records first last) (hmem : a ∈ records) : ∃ m n, record a m n := by
  induction records generalizing first with
  | nil => cases hmem
  | cons b rest ih =>
    obtain ⟨middle, hmiddle, hrest⟩ := h
    rcases List.mem_cons.1 hmem with rfl | hmem
    · exact ⟨first, middle, hmiddle⟩
    · exact ih hrest hmem

theorem Laid.tiles {range : α → Nat × Nat} (h : Laid record records first last)
    (hrange : ∀ a m n, record a m n → range a = (m, n) ∧ m ≤ n) : Tiles (records.map range) first last := by
  induction records generalizing first with
  | nil => exact h
  | cons a rest ih =>
    obtain ⟨middle, hmiddle, hrest⟩ := h
    obtain ⟨hrange, hle⟩ := hrange a first middle hmiddle
    rw [List.map_cons, hrange]
    exact ⟨rfl, hle, ih hrest⟩

end Laid

end Bmx
