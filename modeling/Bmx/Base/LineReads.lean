import Bmx.Base.Bytes

/-!
# Reading a file by lines

`fgets` returns a line with its line feed, the last characters of a file, or as many characters as its buffer holds. On
lines that fit the buffer its calls are the lines of the file.
-/

namespace Bmx

open List

/-- The characters that the calls of `fgets` return with a buffer of a size, from a line on that is begun, and whether
each call met the end of the file. -/
def lineReadsFrom (size : Nat) : Bytes → Bytes → List (Bytes × Bool)
  | line, [] => if line = [] then [] else [(line, true)]
  | line, c :: input =>
    if c = lf ∨ line.length + 2 = size then (line ++ [c], false) :: lineReadsFrom size [] input
    else lineReadsFrom size (line ++ [c]) input

def lineReads (size : Nat) (file : Bytes) : List (Bytes × Bool) := lineReadsFrom size [] file

/-- The lines of a file, each with its line feed. The last one may lack it. -/
def fileLines : Bytes → List Bytes
  | [] => []
  | c :: rest =>
    if c = lf then [lf] :: fileLines rest
    else
      match fileLines rest with
      | [] => [[c]]
      | line :: lines => (c :: line) :: lines

/-- How a line that fits is read: the end of the file is met if the buffer has room after a last line. -/
def readOf (size : Nat) (line : Bytes) : Bytes × Bool := (line, decide (lf ∉ line ∧ line.length + 1 < size))

/-- A file is empty, one line without a line feed, or a line and the rest of the file. -/
theorem file_induction {P : Bytes → Prop} (nil : P []) (last : ∀ text, text ≠ [] → lf ∉ text → P text)
    (line : ∀ text rest, lf ∉ text → P rest → P (text ++ lf :: rest)) (file : Bytes) : P file := by
  induction hlength : file.length using Nat.strongRecOn generalizing file with
  | _ n ih =>
    by_cases hlf : lf ∈ file
    · obtain ⟨text, rest, rfl, htext⟩ := eq_append_cons_of_mem hlf
      have hshort : rest.length < n := by
        rw [← hlength, length_append, length_cons]
        omega
      exact line text rest htext (ih rest.length hshort rest rfl)
    · by_cases hempty : file = []
      · rw [hempty]
        exact nil
      · exact last file hempty hlf

variable {text : Bytes} {size : Nat}

theorem fileLines_last (hne : text ≠ []) (htext : lf ∉ text) : fileLines text = [text] := by
  induction text with
  | nil => exact absurd rfl hne
  | cons c rest ih =>
    have hc : c ≠ lf := fun h => htext (h ▸ mem_cons_self)
    have hrest : lf ∉ rest := fun h => htext (mem_cons_of_mem _ h)
    rw [fileLines, if_neg hc]
    by_cases hempty : rest = []
    · rw [hempty, fileLines]
    · rw [ih hempty hrest]

theorem fileLines_line (htext : lf ∉ text) (rest : Bytes) :
    fileLines (text ++ lf :: rest) = (text ++ [lf]) :: fileLines rest := by
  induction text with
  | nil => rw [nil_append, fileLines, if_pos rfl, nil_append]
  | cons c text ih =>
    have hc : c ≠ lf := fun h => htext (h ▸ mem_cons_self)
    have htail : lf ∉ text := fun h => htext (mem_cons_of_mem _ h)
    rw [cons_append, fileLines, if_neg hc, ih htail]
    rfl

/-- Characters before a line feed are gathered as long as the buffer has room. -/
theorem lineReadsFrom_append {size : Nat} {line text : Bytes} (htext : lf ∉ text)
    (hroom : line.length + text.length + 1 < size) (input : Bytes) :
    lineReadsFrom size line (text ++ input) = lineReadsFrom size (line ++ text) input := by
  induction text generalizing line with
  | nil => rw [nil_append, append_nil]
  | cons c text ih =>
    have hc : c ≠ lf := fun h => htext (h ▸ mem_cons_self)
    have htail : lf ∉ text := fun h => htext (mem_cons_of_mem _ h)
    rw [length_cons] at hroom
    have hmore : ¬ (c = lf ∨ line.length + 2 = size) := by
      intro h
      rcases h with h | h
      · exact hc h
      · omega
    have hnext : (line ++ [c]).length + text.length + 1 < size := by
      rw [length_append, length_singleton]
      omega
    rw [cons_append, lineReadsFrom, if_neg hmore, ih htail hnext, append_assoc, singleton_append]

theorem lineReads_line (htext : lf ∉ text) (hroom : text.length + 1 < size) (rest : Bytes) :
    lineReads size (text ++ lf :: rest) = (text ++ [lf], false) :: lineReads size rest := by
  have hgather := @lineReadsFrom_append size [] text htext (by simpa using hroom) (lf :: rest)
  rw [lineReads, hgather, nil_append, lineReadsFrom, if_pos (Or.inl rfl)]
  rfl

theorem lineReads_long (hsize : 2 ≤ size) (htext : lf ∉ text) (hlong : size ≤ text.length + 1) (rest : Bytes) :
    lineReads size (text ++ rest) =
      (text.take (size - 1), false) :: lineReads size (text.drop (size - 1) ++ rest) := by
  obtain ⟨c, hdrop⟩ : ∃ c, text.drop (size - 2) = c :: text.drop (size - 1) := by
    have hlast : size - 2 < text.length := by omega
    have hnext : size - 2 + 1 = size - 1 := by omega
    exact ⟨text[size - 2], by rw [drop_eq_getElem_cons hlast, hnext]⟩
  have hfirst : lf ∉ text.take (size - 2) := fun h => htext (mem_of_mem_take h)
  have hlength : (text.take (size - 2)).length = size - 2 := by
    rw [length_take]
    omega
  have htake : text.take (size - 2) ++ [c] = text.take (size - 1) := by
    have hwhole : text.take (size - 2) ++ (c :: text.drop (size - 1)) = text := by
      rw [← hdrop, take_append_drop]
    have hcount : size - 1 = (text.take (size - 2)).length + 1 := by omega
    conv_rhs => rw [← hwhole, hcount, take_append, take_of_length_le (by omega)]
    simp
  have hsplit : text ++ rest = text.take (size - 2) ++ (c :: (text.drop (size - 1) ++ rest)) := by
    rw [← cons_append, ← hdrop, ← append_assoc, take_append_drop]
  have hgather := @lineReadsFrom_append size [] (text.take (size - 2)) hfirst
    (by rw [hlength, length_nil]; omega) (c :: (text.drop (size - 1) ++ rest))
  rw [lineReads, hsplit, hgather, nil_append, lineReadsFrom, if_pos (Or.inr (by omega)), htake]
  rfl

theorem lineReads_last (hne : text ≠ []) (htext : lf ∉ text) (hroom : text.length + 1 < size) :
    lineReads size text = [(text, true)] := by
  have hgather := @lineReadsFrom_append size [] text htext (by simpa using hroom) []
  rw [append_nil] at hgather
  rw [lineReads, hgather, nil_append, lineReadsFrom, if_neg hne]

/-- The lines are read one by one, up to the first that does not fit: of that a part without its end is read. -/
theorem lineReads_cases (hsize : 2 ≤ size) (file : Bytes) :
    ∃ before after, fileLines file = before ++ after ∧ (∀ line ∈ before, line.length < size) ∧
      ∃ rest, lineReads size file = before.map (readOf size) ++ rest ∧
        (after = [] ∧ rest = [] ∨
          (∃ line more, after = line :: more ∧ size ≤ line.length) ∧
            ∃ part more, rest = (part, false) :: more ∧ lf ∉ part) := by
  induction file using file_induction with
  | nil => exact ⟨[], [], rfl, by simp, [], rfl, Or.inl ⟨rfl, rfl⟩⟩
  | last text hne htext =>
    rw [fileLines_last hne htext]
    rcases Nat.lt_or_ge text.length size with hfits | hlong
    · refine ⟨[text], [], rfl, by simpa using hfits, [], ?_, Or.inl ⟨rfl, rfl⟩⟩
      by_cases hroom : text.length + 1 < size
      · rw [lineReads_last hne htext hroom]
        simp [readOf, htext, hroom]
      · -- the last call fills the buffer and does not meet the end
        have hwhole := lineReads_long hsize htext (by omega) []
        have hcount : text.length = size - 1 := by omega
        rw [append_nil, append_nil, ← hcount, take_length, drop_length] at hwhole
        rw [hwhole]
        simp [readOf, hroom, lineReads, lineReadsFrom]
    · have hpart := lineReads_long hsize htext (by omega) []
      rw [append_nil] at hpart
      exact ⟨[], [text], rfl, by simp, _, by rw [hpart]; rfl,
        Or.inr ⟨⟨text, [], rfl, hlong⟩, _, _, rfl, fun h => htext (mem_of_mem_take h)⟩⟩
  | line text rest htext ih =>
    rw [fileLines_line htext]
    by_cases hroom : text.length + 1 < size
    · obtain ⟨before, after, hlines, hfits, reads, hreads, hend⟩ := ih
      refine ⟨(text ++ [lf]) :: before, after, by rw [hlines, cons_append], ?_, reads, ?_, hend⟩
      · intro line hline
        rcases mem_cons.1 hline with rfl | hline
        · rw [length_append, length_singleton]
          exact hroom
        · exact hfits line hline
      · rw [lineReads_line htext hroom, hreads]
        simp [readOf]
    · have hpart := lineReads_long hsize htext (by omega) (lf :: rest)
      refine ⟨[], (text ++ [lf]) :: fileLines rest, rfl, by simp, _, by rw [hpart]; rfl, Or.inr ⟨?_, ?_⟩⟩
      · refine ⟨_, _, rfl, ?_⟩
        rw [length_append, length_singleton]
        omega
      · exact ⟨_, _, rfl, fun h => htext (mem_of_mem_take h)⟩

theorem lineReads_of_fits (hsize : 2 ≤ size) {file : Bytes} (hfits : ∀ line ∈ fileLines file, line.length < size) :
    lineReads size file = (fileLines file).map (readOf size) := by
  obtain ⟨before, after, hlines, -, rest, hreads, hend⟩ := lineReads_cases hsize file
  rcases hend with ⟨rfl, rfl⟩ | ⟨⟨line, more, rfl, hlong⟩, -⟩
  · rw [hreads, hlines, append_nil, append_nil]
  · have hline := hfits line (hlines ▸ mem_append_right _ mem_cons_self)
    exact absurd hline (Nat.not_lt.2 hlong)

/-- Texts that are written with a line feed after each are the lines of the file. -/
theorem fileLines_texts {texts : List Bytes} (htexts : ∀ text ∈ texts, lf ∉ text) :
    fileLines (texts.map (· ++ [lf])).flatten = texts.map (· ++ [lf]) := by
  induction texts with
  | nil => rfl
  | cons text texts ih =>
    have htext := htexts text mem_cons_self
    rw [map_cons, flatten_cons, append_assoc, singleton_append, fileLines_line htext,
      ih fun other hother => htexts other (mem_cons_of_mem _ hother)]

end Bmx
