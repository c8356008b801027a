import Bmx.Base.Instances

/-!
# Overwriting a part of a list

A file that is written at a position is a list of which a part is replaced. The list grows where the new
part reaches behind its end.
-/

namespace Bmx

open List

variable {α : Type}

/-- The list with `part` in place of what was at `position`. -/
def overwrite (list : List α) (position : Nat) (part : List α) : List α :=
  list.take position ++ part ++ list.drop (position + part.length)

variable {list part more : List α} {position size : Nat}

theorem length_overwrite (h : position ≤ list.length) :
    (overwrite list position part).length = max list.length (position + part.length) := by
  unfold overwrite
  rw [length_append, length_append, length_take, length_drop]
  omega

@[simp] theorem overwrite_nil : overwrite list position [] = list := by
  unfold overwrite
  rw [append_nil, length_nil, Nat.add_zero, take_append_drop]

theorem getElem?_overwrite (h : position ≤ list.length) (i : Nat) :
    (overwrite list position part)[i]? =
      if position ≤ i ∧ i < position + part.length then part[i - position]? else list[i]? := by
  have htake : (list.take position).length = position := by
    rw [length_take]
    omega
  unfold overwrite
  by_cases hbefore : i < position
  · rw [if_neg (by omega), append_assoc, getElem?_append_left (by omega), getElem?_take_of_lt hbefore]
  by_cases hinside : i < position + part.length
  · rw [if_pos (by omega), append_assoc, getElem?_append_right (by omega), htake,
      getElem?_append_left (by omega)]
  · rw [if_neg (by omega), getElem?_append_right (by rw [length_append]; omega), length_append, htake,
      getElem?_drop]
    congr 1
    omega

theorem overwrite_append (h : position ≤ list.length) :
    overwrite (overwrite list position part) (position + part.length) more = overwrite list position (part ++ more) := by
  have hlength := (length_overwrite h : (overwrite list position part).length = _)
  apply ext_getElem?
  intro i
  rw [getElem?_overwrite (by omega), getElem?_overwrite h, getElem?_overwrite h, length_append]
  by_cases hmore : position + part.length ≤ i ∧ i < position + part.length + more.length
  · rw [if_pos hmore, if_pos (by omega), getElem?_append_right (by omega)]
    congr 1
    omega
  · rw [if_neg hmore]
    by_cases hpart : position ≤ i ∧ i < position + part.length
    · rw [if_pos hpart, if_pos (by omega), getElem?_append_left (by omega)]
    · rw [if_neg hpart, if_neg (by omega)]

theorem take_overwrite (hposition : position ≤ size) (hsize : size ≤ list.length) :
    (overwrite list position part).take (max size (position + part.length)) =
      overwrite (list.take size) position part := by
  have htake : (list.take size).length = size := by
    rw [length_take]
    omega
  apply ext_getElem?
  intro i
  rw [getElem?_overwrite (by omega), getElem?_take, getElem?_overwrite (by omega), getElem?_take]
  by_cases hpart : position ≤ i ∧ i < position + part.length
  · rw [if_pos (by omega), if_pos hpart, if_pos hpart]
  · rw [if_neg hpart, if_neg hpart]
    by_cases hinside : i < size
    · rw [if_pos (by omega), if_pos hinside]
    · rw [if_neg (by omega), if_neg hinside]

theorem take_overwrite_zero : (overwrite list 0 part).take part.length = part := by
  unfold overwrite
  rw [take_zero, nil_append, take_left]

end Bmx
