import Bmx.Base.Instances
import Mathlib.Data.List.Forall2

/-!
# Computations that check

A computation in `Except` is accepted where all that it does on its way is accepted.
-/

namespace Bmx

open List

variable {ε α β : Type}

variable {value : β} {a : α} {items : List α} {values : List β} {relation : α → β → Prop}

theorem bind_eq_ok {result : Except ε α} {next : α → Except ε β} :
    (result >>= next) = .ok value ↔ ∃ a, result = .ok a ∧ next a = .ok value := by
  cases result with
  | error status | ok a => simp [bind, Except.bind]

theorem pure_eq_ok {value : α} : (pure a : Except ε α) = .ok value ↔ value = a := by
  simp [pure, Except.pure, eq_comm]

theorem ok_eq_ok {value : α} : (Except.ok a : Except ε α) = .ok value ↔ value = a := by
  rw [Except.ok.injEq, eq_comm]

theorem forM_eq_ok {check : α → Except ε Unit} :
    items.forM check = .ok () ↔ ∀ item ∈ items, check item = .ok () := by
  induction items with
  | nil => simp [forM_eq_forM, pure, Except.pure]
  | cons item rest ih =>
    rw [forM_eq_forM] at ih ⊢
    rw [forM_cons, bind_eq_ok, forall_mem_cons, ← ih]
    constructor
    · rintro ⟨⟨⟩, hitem, hrest⟩
      exact ⟨hitem, hrest⟩
    · rintro ⟨hitem, hrest⟩
      exact ⟨(), hitem, hrest⟩

theorem mapM_eq_ok {read : α → Except ε β} :
    items.mapM read = .ok values ↔ List.Forall₂ (fun item value => read item = .ok value) items values := by
  induction items generalizing values with
  | nil => simp [pure, Except.pure, eq_comm]
  | cons item rest ih =>
    rw [mapM_cons]
    simp only [bind_eq_ok, pure_eq_ok, forall₂_cons_left_iff, ih]
    grind

theorem mapM_ok_of_forall {read : α → Except ε β} (h : ∀ item ∈ items, ∃ value, read item = .ok value) :
    ∃ values, items.mapM read = .ok values := by
  induction items with
  | nil => exact ⟨[], rfl⟩
  | cons item rest ih =>
    obtain ⟨value, hvalue⟩ := h item mem_cons_self
    obtain ⟨values, hvalues⟩ := ih fun other hother => h other (mem_cons_of_mem _ hother)
    exact ⟨value :: values, mapM_eq_ok.2 (.cons hvalue (mapM_eq_ok.1 hvalues))⟩

theorem exists_of_mem_right (h : List.Forall₂ relation items values) (hvalue : value ∈ values) :
    ∃ item ∈ items, relation item value := by
  induction h with
  | nil => cases hvalue
  | cons hhead _ ih =>
    rcases mem_cons.1 hvalue with rfl | hvalue
    · exact ⟨_, mem_cons_self, hhead⟩
    · obtain ⟨item, hitem, hrelated⟩ := ih hvalue
      exact ⟨item, mem_cons_of_mem _ hitem, hrelated⟩

theorem map_eq_of_forall₂ {γ : Type} {first : α → γ} {second : β → γ} (h : ∀ a b, relation a b → second b = first a)
    (hall : List.Forall₂ relation items values) : values.map second = items.map first := by
  induction hall with
  | nil => rfl
  | cons hhead _ ih => rw [map_cons, map_cons, h _ _ hhead, ih]

/-- What a loop does is what its steps do, as long as each is accepted. -/
theorem foldlM_cons_eq_ok {step : β → α → Except ε β} {start result : β} {item : α} {rest : List α} :
    (item :: rest).foldlM step start = .ok result ↔
      ∃ next, step start item = .ok next ∧ rest.foldlM step next = .ok result := by
  rw [foldlM_cons, bind_eq_ok]

end Bmx
