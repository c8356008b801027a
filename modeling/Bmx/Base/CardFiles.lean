import Bmx.Base.Bytes

/-!
# Files of a card

A card finds a file by its path, whatever the case of the letters.
-/

namespace Bmx

/-- `strrchr`: a text before and after the last place of a character. -/
def splitLast (c : UInt8) : Bytes → Option (Bytes × Bytes)
  | [] => none
  | first :: rest =>
    match splitLast c rest with
    | some (before, after) => some (first :: before, after)
    | none => if first = c then some ([], rest) else none

theorem splitLast_none {c : UInt8} {text : Bytes} : splitLast c text = none ↔ c ∉ text := by
  induction text with
  | nil => simp [splitLast]
  | cons first rest ih =>
    cases hrest : splitLast c rest with
    | some split =>
      have hmem : c ∈ rest := by
        by_contra h
        rw [ih.2 h] at hrest
        simp at hrest
      simp [splitLast, hrest, hmem]
    | none =>
      have hmem := ih.1 hrest
      by_cases hfirst : first = c
      · simp [splitLast, hrest, hfirst]
      · simp [splitLast, hrest, hfirst, hmem, Ne.symm hfirst]

theorem splitLast_append {c : UInt8} {after : Bytes} (hafter : c ∉ after) (before : Bytes) :
    splitLast c (before ++ c :: after) = some (before, after) := by
  induction before with
  | nil => simp [splitLast, splitLast_none.2 hafter]
  | cons first before ih => simp [splitLast, ih]

theorem splitLast_some {c : UInt8} {text before after : Bytes} (h : splitLast c text = some (before, after)) :
    text = before ++ c :: after ∧ c ∉ after := by
  induction text generalizing before with
  | nil => simp [splitLast] at h
  | cons first rest ih =>
    unfold splitLast at h
    cases hrest : splitLast c rest with
    | some split =>
      rw [hrest] at h
      obtain ⟨rfl, rfl⟩ := h
      obtain ⟨htext, hafter⟩ := ih hrest
      exact ⟨by rw [htext, List.cons_append], hafter⟩
    | none =>
      rw [hrest] at h
      by_cases hfirst : first = c
      · simp only [hfirst, if_true, Option.some.injEq, Prod.mk.injEq] at h
        obtain ⟨rfl, rfl⟩ := h
        exact ⟨by rw [hfirst, List.nil_append], splitLast_none.1 hrest⟩
      · simp [hfirst] at h

/-- The directory of a path, with its separator, and the name in it. -/
def splitPath (path : Bytes) : Bytes × Bytes :=
  match splitLast slash path with
  | some (dir, base) => (dir ++ [slash], base)
  | none => ([], path)

theorem splitPath_eq (path : Bytes) : (splitPath path).1 ++ (splitPath path).2 = path ∧ slash ∉ (splitPath path).2 := by
  unfold splitPath
  cases hsplit : splitLast slash path with
  | some split =>
    obtain ⟨hpath, hbase⟩ := splitLast_some hsplit
    exact ⟨by rw [hpath, List.append_assoc, List.singleton_append], hbase⟩
  | none => exact ⟨rfl, splitLast_none.1 hsplit⟩

/-- The files of a card by their folded paths. -/
structure Card where
  file : Bytes → Option Bytes

namespace Card

def read (card : Card) (path : Bytes) : Option Bytes := card.file (fold path)

def write (card : Card) (path content : Bytes) : Card where
  file := Function.update card.file (fold path) (some content)

theorem read_write {path other : Bytes} (h : fold other = fold path) (card : Card) (content : Bytes) :
    (card.write path content).read other = some content := by
  show Function.update card.file (fold path) (some content) (fold other) = some content
  rw [h, Function.update_self]

@[simp] theorem read_write_self (card : Card) (path content : Bytes) :
    (card.write path content).read path = some content := read_write rfl card content

theorem read_write_of_ne {path other : Bytes} (h : fold other ≠ fold path) (card : Card) (content : Bytes) :
    (card.write path content).read other = card.read other := Function.update_of_ne h _ _

end Card

end Bmx
