import Bmx.Base.Instances

/-!
# The words of a line

A line is split at its separators, and what is empty is left out. Words that are joined by a separator are the words
of the joined line.
-/

namespace Bmx

open List

variable {α : Type} {p : α → Bool}

def words (p : α → Bool) (line : List α) : List (List α) := (line.splitOnP p).filter (· ≠ [])

variable {c sep : α} {seps : List α} {before line : List (List α)}

@[simp] theorem words_nil : words p [] = [] := by simp [words, splitOnP_nil]

theorem words_sep (hc : p c) (line : List α) : words p (c :: line) = words p line := by
  rw [words, splitOnP_cons_eq_if_modifyHead, if_pos hc]
  rfl

/-- A word that the line goes on behind with a separator, or not at all. -/
theorem words_word {word line : List α} (hne : word ≠ []) (hword : ∀ c ∈ word, p c = false)
    (hline : ∀ c ∈ line.head?, p c) : words p (word ++ line) = word :: words p line := by
  cases line with
  | nil =>
    rw [append_nil, words, splitOnP_eq_singleton hword]
    simp [hne]
  | cons c line =>
    have hc : p c := hline c rfl
    rw [words, splitOnP_append_cons word line hc, splitOnP_eq_singleton hword, words_sep hc, words]
    simp [hne]

theorem words_append_sep (hc : p c) (before after : List α) :
    words p (before ++ c :: after) = words p before ++ words p after := by
  rw [words, splitOnP_append_cons before after hc, filter_append]
  rfl

theorem words_seps (h : ∀ c ∈ seps, p c) (line : List α) : words p (seps ++ line) = words p line := by
  induction seps with
  | nil => rfl
  | cons c seps ih =>
    rw [cons_append, words_sep (h c mem_cons_self), ih fun d hd => h d (mem_cons_of_mem _ hd)]

theorem words_append_seps (h : ∀ c ∈ seps, p c) (line : List α) : words p (line ++ seps) = words p line := by
  cases seps with
  | nil => rw [append_nil]
  | cons c seps =>
    have hnone := words_seps (fun d hd => h d (mem_cons_of_mem _ hd)) []
    rw [append_nil, words_nil] at hnone
    rw [words_append_sep (h c mem_cons_self), hnone, append_nil]

theorem seps_of_words {line : List α} (h : words p line = []) : ∀ c ∈ line, p c := by
  induction line with
  | nil => simp
  | cons c line ih =>
    by_cases hc : p c
    · rw [words_sep hc] at h
      intro d hd
      rcases mem_cons.1 hd with rfl | hd
      · exact hc
      · exact ih h d hd
    · have hsplit := takeWhile_append_dropWhile (p := fun d => !p d) (l := c :: line)
      have hne : (c :: line).takeWhile (fun d => !p d) ≠ [] := by simp [hc]
      have hword : ∀ d ∈ (c :: line).takeWhile (fun d => !p d), p d = false := fun d hd => by
        have hall := all_eq_true.1 (all_takeWhile (p := fun d => !p d) (l := c :: line)) d hd
        simpa using hall
      have hrest : ∀ d ∈ ((c :: line).dropWhile (fun d => !p d)).head?, p d := fun d hd => by
        have hhead := head?_dropWhile_not (fun d => !p d) (c :: line)
        rw [hd] at hhead
        simpa using hhead
      rw [← hsplit, words_word hne hword hrest] at h
      exact absurd h (by simp)

theorem words_nonempty (line : List α) : ∀ word ∈ words p line, word ≠ [] := fun word hword => by
  simpa using (mem_filter.1 hword).2

theorem splitOnP_pieces (line : List α) : ∀ piece ∈ line.splitOnP p, ∀ c ∈ piece, c ∈ line ∧ p c = false := by
  induction line with
  | nil => simp [splitOnP_nil]
  | cons d line ih =>
    have hlater : ∀ piece ∈ line.splitOnP p, ∀ c ∈ piece, c ∈ d :: line ∧ p c = false := fun piece hpiece c hc =>
      ⟨mem_cons_of_mem _ (ih piece hpiece c hc).1, (ih piece hpiece c hc).2⟩
    intro piece hpiece
    rw [splitOnP_cons_eq_if_modifyHead] at hpiece
    split at hpiece
    · rcases mem_cons.1 hpiece with rfl | hpiece
      · simp
      · exact hlater piece hpiece
    · next hd =>
      obtain ⟨first, rest, hsplit⟩ := exists_cons_of_ne_nil (splitOnP_ne_nil p line)
      rw [hsplit, modifyHead_cons] at hpiece
      rw [hsplit] at hlater
      rcases mem_cons.1 hpiece with rfl | hpiece
      · intro c hc
        rcases mem_cons.1 hc with rfl | hc
        · exact ⟨mem_cons_self .., Bool.eq_false_iff.2 hd⟩
        · exact hlater first (mem_cons_self ..) c hc
      · exact hlater piece (mem_cons_of_mem _ hpiece)

theorem words_chars (line : List α) : ∀ word ∈ words p line, ∀ c ∈ word, c ∈ line ∧ p c = false := fun word hword =>
  splitOnP_pieces line word (mem_filter.1 hword).1

/-- Words with separators between them. -/
def joined (sep : α) : List (List α) → List α
  | [] => []
  | [word] => word
  | word :: words => word ++ sep :: joined sep words

theorem joined_cons_cons (sep : α) (word next : List α) (line : List (List α)) :
    joined sep (word :: next :: line) = word ++ sep :: joined sep (next :: line) := rfl

theorem joined_concat (hbefore : before ≠ []) (word : List α) :
    joined sep (before ++ [word]) = joined sep before ++ sep :: word := by
  induction before with
  | nil => exact absurd rfl hbefore
  | cons first before ih =>
    cases before with
    | nil => rfl
    | cons second before =>
      have hrest := ih (cons_ne_nil _ _)
      rw [cons_append, cons_append, joined_cons_cons, joined_cons_cons, ← cons_append, hrest, append_assoc, cons_append]

theorem mem_joined (hc : c ∈ joined sep line) : c = sep ∨ ∃ word ∈ line, c ∈ word := by
  induction line with
  | nil => simp [joined] at hc
  | cons word line ih =>
    cases line with
    | nil => exact .inr ⟨word, mem_singleton_self word, hc⟩
    | cons next line =>
      rw [joined_cons_cons, mem_append, mem_cons] at hc
      rcases hc with hc | rfl | hc
      · exact .inr ⟨word, mem_cons_self .., hc⟩
      · exact .inl rfl
      · exact (ih hc).imp_right fun ⟨other, hin, hc⟩ => ⟨other, mem_cons_of_mem _ hin, hc⟩

theorem joined_eq_nil (hline : ∀ word ∈ line, word ≠ []) : joined sep line = [] ↔ line = [] := by
  cases line with
  | nil => simp [joined]
  | cons word line => cases line <;> simp [joined, hline word (mem_cons_self ..)]

theorem words_joined (hsep : p sep) (hne : ∀ word ∈ line, word ≠ [])
    (hchars : ∀ word ∈ line, ∀ c ∈ word, p c = false) : words p (joined sep line) = line := by
  induction line with
  | nil => simp [joined]
  | cons word line ih =>
    have hword := fun rest => @words_word α p word rest (hne word (mem_cons_self ..))
      (hchars word (mem_cons_self ..))
    cases line with
    | nil => simpa [joined] using hword []
    | cons next line =>
      have hrest := ih (fun other hin => hne other (mem_cons_of_mem _ hin))
        fun other hin => hchars other (mem_cons_of_mem _ hin)
      rw [joined_cons_cons, hword _ (by simpa using hsep), words_sep hsep, hrest]

theorem joined_append {after : List (List α)} (hbefore : before ≠ []) (hafter : after ≠ []) :
    joined sep (before ++ after) = joined sep before ++ sep :: joined sep after := by
  induction before with
  | nil => exact absurd rfl hbefore
  | cons first before ih =>
    cases before with
    | nil =>
      cases after with
      | nil => exact absurd rfl hafter
      | cons next after => rfl
    | cons second before =>
      have hrest := ih (cons_ne_nil _ _)
      rw [cons_append, cons_append, joined_cons_cons, joined_cons_cons, ← cons_append, hrest, append_assoc, cons_append]

end Bmx
