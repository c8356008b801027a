import Mathlib.Data.List.Induction
import Bmx.Base.Words
import Bmx.Keymap.KeymapBlock

/-!
# Saving the editor's block

The block of the output is the new one, and the text around the old one stays, up to its blank lines. Saving again gives
the same file exactly if no other block follows the old one, nothing is glued to its last line, and the text after it
does not end in a line end.
-/

namespace Bmx.Keymap

open List Option Bool

/-! ### Marker lines -/

/-- A text at whose end a line starts, after a character before it. -/
def LineStart (previous : Option UInt8) (before : Bytes) : Prop :=
  ∀ last, (previous.toList ++ before).getLast? = some last → last = lf

structure MarkerLine (marker : Bytes) (previous : Option UInt8) (text before rest : Bytes) : Prop where
  text_eq : text = before ++ rest
  start : LineStart previous before
  here : markerAt marker rest = true

structure FirstMarkerLine (marker : Bytes) (previous : Option UInt8) (text before rest : Bytes) : Prop
    extends MarkerLine marker previous text before rest where
  first : ∀ before' rest', MarkerLine marker previous text before' rest' → before.length ≤ before'.length

/-- A marker is a part of a line. -/
structure IsMarker (marker : Bytes) : Prop where
  nonempty : marker ≠ []
  line : lf ∉ marker
  nul : 0 ∉ marker

theorem isMarker_begin : IsMarker blockBegin := ⟨by decide, by decide, by decide⟩

theorem isMarker_end : IsMarker blockEnd := ⟨by decide, by decide, by decide⟩

variable {marker text line before rest before' more tail input suffix : Bytes} {c : UInt8} {previous : Option UInt8}
  {outputSize : Nat}

theorem markerAt_iff :
    markerAt marker text = true ↔ ∃ rest, text = marker ++ rest ∧ rest.head?.all isLineEnd = true := by
  unfold markerAt
  rw [and_eq_true, isPrefixOf_iff_prefix]
  constructor
  · intro h
    obtain ⟨⟨rest, rfl⟩, hrest⟩ := h
    rw [drop_left] at hrest
    exact ⟨rest, rfl, hrest⟩
  · intro h
    obtain ⟨rest, rfl, hrest⟩ := h
    rw [drop_left]
    exact ⟨prefix_append _ _, hrest⟩

/-- Whether a marker stands at the start of a text shows before a character that no marker has. -/
theorem markerAt_append (hc : c ∈ text) (hmarker : c ∉ marker) (rest : Bytes) :
    markerAt marker (text ++ rest) = markerAt marker text := by
  apply Bool.eq_iff_iff.2
  rw [markerAt_iff, markerAt_iff]
  constructor
  · intro h
    obtain ⟨tail, htail, hhead⟩ := h
    rcases append_eq_append_iff.1 htail with ⟨more, hmore, -⟩ | ⟨more, hmore, hrest⟩
    · -- the text would be a part of the marker
      rw [hmore] at hmarker
      exact absurd (mem_append_left _ hc) hmarker
    · refine ⟨more, hmore, ?_⟩
      cases more with
      | nil =>
        rw [append_nil] at hmore
        rw [hmore] at hc
        exact absurd hc hmarker
      | cons first more =>
        rw [hrest] at hhead
        exact hhead
  · intro h
    obtain ⟨tail, htail, hhead⟩ := h
    refine ⟨tail ++ rest, by rw [htail, append_assoc], ?_⟩
    cases tail with
    | nil =>
      rw [append_nil] at htail
      rw [htail] at hc
      exact absurd hc hmarker
    | cons first tail => exact hhead

theorem markerAt_line (hmarker : IsMarker marker) (rest : Bytes) :
    markerAt marker (line ++ lf :: rest) = markerAt marker line := by
  rw [← singleton_append, ← append_assoc, markerAt_append (c := lf) (by simp) hmarker.line]
  apply Bool.eq_iff_iff.2
  rw [markerAt_iff, markerAt_iff]
  constructor
  · intro h
    obtain ⟨tail, htail, hhead⟩ := h
    rcases eq_nil_or_concat tail with rfl | ⟨tail, last, rfl⟩
    · have hlast : lf ∈ marker := by
        rw [append_nil] at htail
        rw [← htail]
        simp
      exact absurd hlast hmarker.line
    · rw [concat_eq_append, ← append_assoc] at htail
      obtain ⟨hline, -⟩ := append_inj' htail rfl
      refine ⟨tail, hline, ?_⟩
      cases tail with
      | nil => rfl
      | cons first tail => simpa using hhead
  · intro h
    obtain ⟨tail, rfl, hhead⟩ := h
    refine ⟨tail ++ [lf], by rw [append_assoc], ?_⟩
    cases tail with
    | nil => decide
    | cons first tail => simpa using hhead

theorem not_markerAt_nil (hmarker : IsMarker marker) : markerAt marker [] = false := by
  rw [eq_false_iff]
  intro h
  obtain ⟨rest, hrest, -⟩ := markerAt_iff.1 h
  exact hmarker.nonempty (append_eq_nil_iff.1 hrest.symm).1

theorem not_markerAt_nul (hmarker : IsMarker marker) (rest : Bytes) : markerAt marker (0 :: rest) = false := by
  rw [eq_false_iff]
  intro h
  obtain ⟨tail, htail, -⟩ := markerAt_iff.1 h
  cases marker with
  | nil => exact hmarker.nonempty rfl
  | cons first marker =>
    exact hmarker.nul (by rw [(cons.inj htail).1]; exact mem_cons_self)

/-! ### `find_marker_line` -/

/-- What the search finds: the first marker line, unless a NUL comes before it. -/
def Finds (marker : Bytes) (previous : Option UInt8) (text : Bytes) : Option (Bytes × Bytes) → Prop
  | some (before, rest) => FirstMarkerLine marker previous text before rest ∧ 0 ∉ before
  | none => ∀ before rest, MarkerLine marker previous text before rest → 0 ∈ before

theorem lineStart_cons : LineStart previous (c :: before) ↔ LineStart (some c) before := by
  unfold LineStart
  have hlast : (previous.toList ++ c :: before).getLast? = ((some c).toList ++ before).getLast? := by
    rw [getLast?_append_cons]
    rfl
  rw [hlast]

theorem markerLine_cons :
    MarkerLine marker previous (c :: text) (c :: before) rest ↔ MarkerLine marker (some c) text before rest := by
  constructor
  · intro h
    refine ⟨?_, lineStart_cons.1 h.start, h.here⟩
    have htext := h.text_eq
    rw [cons_append, cons.injEq] at htext
    exact htext.2
  · intro h
    exact ⟨by rw [h.text_eq, cons_append], lineStart_cons.2 h.start, h.here⟩

/-- The search goes on after a character at which no marker line starts. -/
theorem finds_cons (hc : c ≠ 0)
    (hhere : ¬ (LineStart previous [] ∧ markerAt marker (c :: rest) = true)) {found : Option (Bytes × Bytes)}
    (h : Finds marker (some c) rest found) :
    Finds marker previous (c :: rest) (found.map fun found => (c :: found.1, found.2)) := by
  -- a marker line of the longer text starts after the character
  have hlater : ∀ {before tail}, MarkerLine marker previous (c :: rest) before tail →
      ∃ before', before = c :: before' ∧ MarkerLine marker (some c) rest before' tail := by
    intro before tail hline
    cases before with
    | nil =>
      have htext := hline.text_eq
      exact absurd ⟨hline.start, htext ▸ hline.here⟩ hhere
    | cons first before =>
      have htext := hline.text_eq
      obtain ⟨rfl, -⟩ := htext
      exact ⟨before, rfl, markerLine_cons.1 hline⟩
  cases found with
  | none =>
    intro before tail hline
    obtain ⟨before', rfl, hline'⟩ := hlater hline
    exact mem_cons_of_mem _ (h before' tail hline')
  | some found =>
    obtain ⟨hfirst, hnul⟩ := h
    refine ⟨⟨markerLine_cons.2 hfirst.toMarkerLine, fun before tail hline => ?_⟩, ?_⟩
    · obtain ⟨before', hbefore, hline'⟩ := hlater hline
      rw [hbefore]
      exact Nat.succ_le_succ (hfirst.first before' tail hline')
    · intro hmem
      rcases mem_cons.1 hmem with hzero | hmem
      · exact hc hzero.symm
      · exact hnul hmem

theorem lineStart_nil : LineStart previous [] ↔ previous.all (· = lf) = true := by
  cases previous <;> simp [LineStart]

/-- No marker line starts in the characters that are passed over: they are the rest of a marker. -/
theorem findMarkerLineFrom_finds (hmarker : IsMarker marker) (text : Bytes) (skip : Nat) (previous : Option UInt8)
    (hskip : skip = 0 ∨ ¬ LineStart previous [] ∧ ∀ c ∈ text.take skip, c ∈ marker) :
    Finds marker previous text (findMarkerLineFrom marker skip previous text) := by
  induction text generalizing skip previous with
  | nil =>
    have hnone : findMarkerLineFrom marker skip previous [] = none := by
      cases skip <;> rfl
    intro before rest hline
    obtain ⟨-, hrest⟩ := append_eq_nil_iff.1 hline.text_eq.symm
    have hnot := hline.here
    rw [hrest, not_markerAt_nil hmarker] at hnot
    exact absurd hnot (by simp)
  | cons c rest ih =>
    have hchar : ∀ {c : UInt8}, c ∈ marker → ¬ LineStart (some c) [] := fun {c} hc hstart =>
      hmarker.line (by rw [← hstart c rfl]; exact hc)
    cases skip with
    | succ skip =>
      obtain ⟨hprevious, htake⟩ := hskip.resolve_left (by simp)
      have hc := htake c mem_cons_self
      refine finds_cons (fun hzero => hmarker.nul (hzero ▸ hc)) (fun h => hprevious h.1) (ih skip (some c) ?_)
      exact Or.inr ⟨hchar hc, fun x hx => htake x (mem_cons_of_mem _ hx)⟩
    | zero =>
      rw [findMarkerLineFrom]
      by_cases hzero : c = 0
      · rw [if_pos hzero]
        intro before tail hline
        cases before with
        | nil =>
          have hnot := hline.here
          rw [← nil_append tail, ← hline.text_eq, hzero, not_markerAt_nul hmarker] at hnot
          exact absurd hnot (by simp)
        | cons first before =>
          have htext := hline.text_eq
          rw [cons_append, cons.injEq] at htext
          rw [← htext.1, hzero]
          exact mem_cons_self
      · rw [if_neg hzero]
        by_cases hmatch : marker.isPrefixOf (c :: rest) = true
        · rw [if_pos hmatch]
          by_cases haccept : (previous.all (· = lf) && markerAt marker (c :: rest)) = true
          · rw [if_pos haccept]
            obtain ⟨hprevious, hhere⟩ := and_eq_true_iff.1 haccept
            exact ⟨⟨⟨rfl, lineStart_nil.2 hprevious, hhere⟩, fun _ _ _ => Nat.zero_le _⟩, by simp⟩
          · rw [if_neg haccept]
            refine finds_cons hzero (fun h => haccept ?_) (ih _ (some c) ?_)
            · rw [and_eq_true]
              exact ⟨lineStart_nil.1 h.1, h.2⟩
            · obtain ⟨tail, htail⟩ := isPrefixOf_iff_prefix.1 hmatch
              cases marker with
              | nil => exact absurd rfl hmarker.nonempty
              | cons first marker =>
                rw [cons_append, cons.injEq] at htail
                obtain ⟨rfl, hrest⟩ := htail
                refine Or.inr ⟨hchar mem_cons_self, fun x hx => mem_cons_of_mem _ ?_⟩
                rw [length_cons, Nat.add_sub_cancel, ← hrest, take_left] at hx
                exact hx
        · rw [if_neg hmatch]
          refine finds_cons hzero (fun h => hmatch ?_) (ih 0 (some c) (Or.inl rfl))
          exact (and_eq_true_iff.1 h.2).1

theorem findMarkerLine_finds (hmarker : IsMarker marker) (text : Bytes) :
    Finds marker none text (findMarkerLine marker text) :=
  findMarkerLineFrom_finds hmarker text 0 none (Or.inl rfl)

theorem FirstMarkerLine.unique {rest' : Bytes}
    (h : FirstMarkerLine marker previous text before rest) (h' : FirstMarkerLine marker previous text before' rest') :
    before = before' ∧ rest = rest' := by
  have hlength : before.length = before'.length :=
    Nat.le_antisymm (h.first _ _ h'.toMarkerLine) (h'.first _ _ h.toMarkerLine)
  exact append_inj (h.text_eq.symm.trans h'.text_eq) hlength

theorem findMarkerLine_first (hmarker : IsMarker marker)
    (h : FirstMarkerLine marker none text before rest) (hnul : 0 ∉ before) :
    findMarkerLine marker text = some (before, rest) := by
  have hfinds := findMarkerLine_finds hmarker text
  cases hfound : findMarkerLine marker text with
  | none =>
    rw [hfound] at hfinds
    exact absurd (hfinds before rest h.toMarkerLine) hnul
  | some found =>
    rw [hfound] at hfinds
    obtain ⟨hbefore, hrest⟩ := hfinds.1.unique h
    rw [← hbefore, ← hrest]

def NoLine (marker text : Bytes) : Prop := ∀ before rest, ¬ MarkerLine marker none text before rest

/-- A text whose marker lines are behind a NUL. -/
def Hidden (marker text : Bytes) : Prop := ∀ before rest, MarkerLine marker none text before rest → 0 ∈ before

theorem findMarkerLine_none (hmarker : IsMarker marker) :
    findMarkerLine marker text = none ↔ Hidden marker text := by
  have hfinds := findMarkerLine_finds hmarker text
  constructor
  · intro h
    rw [h] at hfinds
    exact hfinds
  · intro h
    cases hfound : findMarkerLine marker text with
    | none => rfl
    | some found =>
      rw [hfound] at hfinds
      exact absurd (h _ _ hfinds.1.toMarkerLine) hfinds.2

theorem NoLine.hidden (h : NoLine marker text) : Hidden marker text :=
  fun before rest hline => absurd hline (h before rest)

theorem Hidden.noLine (h : Hidden marker text) (hnul : 0 ∉ text) : NoLine marker text :=
  fun before rest hline => hnul (by rw [hline.text_eq]; exact mem_append_left _ (h before rest hline))

/-! ### Texts of lines -/

theorem noLine_nil (hmarker : IsMarker marker) : NoLine marker [] := fun before rest hline => by
  obtain ⟨-, hrest⟩ := append_eq_nil_iff.1 hline.text_eq.symm
  have hnot := hline.here
  rw [hrest, not_markerAt_nil hmarker] at hnot
  exact absurd hnot (by simp)

theorem lineStart_append_lf (text : Bytes) : LineStart none (text ++ [lf]) := fun last hlast => by
  simpa using hlast.symm

theorem lineStart_after (h : LineStart none (text ++ lf :: before)) : LineStart none before := by
  intro last hlast
  cases before with
  | nil => simp at hlast
  | cons first before =>
    apply h last
    have hsame : ((none : Option UInt8).toList ++ (text ++ lf :: first :: before)).getLast? = (first :: before).getLast? := by
      rw [toList_none, nil_append, getLast?_append_cons, getLast?_cons_cons]
    rw [hsame]
    exact hlast

/-- A marker line of a text is in the part before a line feed or in the part after it. -/
theorem markerLine_split (hmarker : IsMarker marker) (h : MarkerLine marker none (text ++ lf :: more) before rest) :
    (∃ tail, MarkerLine marker none text before tail) ∨
      ∃ before', before = text ++ lf :: before' ∧ MarkerLine marker none more before' rest := by
  rcases append_eq_append_iff.1 h.text_eq with ⟨tail, htail, hmore⟩ | ⟨tail, htext, hrest⟩
  · cases tail with
    | nil =>
      rw [nil_append] at hmore
      have hhere := h.here
      rw [← hmore, ← nil_append (lf :: more), markerAt_line hmarker, not_markerAt_nil hmarker] at hhere
      exact absurd hhere (by simp)
    | cons first before' =>
      rw [cons_append, cons.injEq] at hmore
      obtain ⟨rfl, hmore⟩ := hmore
      exact Or.inr ⟨before', htail, hmore, lineStart_after (htail ▸ h.start), h.here⟩
  · have hhere := h.here
    rw [hrest, markerAt_line hmarker] at hhere
    exact Or.inl ⟨tail, htext, h.start, hhere⟩

theorem noLine_line (hmarker : IsMarker marker) (htext : NoLine marker text)
    (hmore : NoLine marker more) : NoLine marker (text ++ lf :: more) := fun before rest hline => by
  rcases markerLine_split hmarker hline with ⟨tail, hline⟩ | ⟨before', -, hline⟩
  · exact htext before tail hline
  · exact hmore before' rest hline

def linesText (lines : List Bytes) : Bytes := (lines.map (· ++ [lf])).flatten

theorem linesText_cons (line : Bytes) (lines : List Bytes) : linesText (line :: lines) = line ++ lf :: linesText lines := by
  simp [linesText]

theorem lineStart_linesText (lines : List Bytes) : LineStart none (linesText lines) := by
  induction lines using List.reverseRecOn with
  | nil => simp [LineStart, linesText]
  | append_singleton lines line _ =>
    have hlines : linesText (lines ++ [line]) = (linesText lines ++ line) ++ [lf] := by
      simp [linesText]
    rw [hlines]
    exact lineStart_append_lf _

def PlainLine (marker line : Bytes) : Prop := lf ∉ line ∧ markerAt marker line = false

theorem PlainLine.noLine (h : PlainLine marker line) : NoLine marker line := fun before rest hline => by
  rcases eq_nil_or_concat before with rfl | ⟨front, last, rfl⟩
  · have hhere := hline.here
    rw [← nil_append rest, ← hline.text_eq, h.2] at hhere
    exact absurd hhere (by simp)
  · have hlast : last = lf := hline.start last (by simp)
    apply h.1
    rw [hline.text_eq, hlast]
    simp

theorem markerLine_linesText (hmarker : IsMarker marker) {lines : List Bytes}
    (hlines : ∀ line ∈ lines, PlainLine marker line)
    (h : MarkerLine marker none (linesText lines ++ tail) before rest) : (linesText lines).length ≤ before.length := by
  induction lines generalizing before with
  | nil => exact Nat.zero_le _
  | cons line lines ih =>
    rw [linesText_cons, append_assoc, cons_append] at h
    rcases markerLine_split hmarker h with ⟨tail', hline⟩ | ⟨before', rfl, hline⟩
    · exact absurd hline ((hlines line mem_cons_self).noLine before tail')
    · have hmore := ih (fun other hother => hlines other (mem_cons_of_mem _ hother)) hline
      rw [linesText_cons, length_append, length_append, length_cons, length_cons]
      omega

/-! ### Blocks -/

/-- A block: its lines stand between the two markers and are none themselves. -/
structure EditorBlock where
  lines : List Bytes
  plain : ∀ line ∈ lines, PlainLine blockBegin line ∧ PlainLine blockEnd line
  nul : ∀ line ∈ lines, 0 ∉ line

namespace EditorBlock

def opening (block : EditorBlock) : Bytes := linesText (blockBegin :: block.lines)

def bytes (block : EditorBlock) : Bytes := block.opening ++ (blockEnd ++ [lf])

theorem markerAt_bytes (block : EditorBlock) : markerAt blockBegin block.bytes = true := by
  exact markerAt_iff.2 ⟨_, rfl, by simp [isLineEnd]⟩

theorem nul_opening (block : EditorBlock) : 0 ∉ block.opening := by
  intro hmem
  obtain ⟨text, htext, hzero⟩ := mem_flatten.1 hmem
  obtain ⟨line, hline, rfl⟩ := mem_map.1 htext
  rcases mem_append.1 hzero with hzero | hzero
  · rcases mem_cons.1 hline with rfl | hline
    · exact absurd hzero (by decide)
    · exact block.nul line hline hzero
  · exact absurd (mem_singleton.1 hzero) (by decide)

theorem find_end (block : EditorBlock) : findMarkerLine blockEnd block.bytes = some (block.opening, blockEnd ++ [lf]) := by
  apply findMarkerLine_first isMarker_end _ block.nul_opening
  refine ⟨⟨rfl, lineStart_linesText _, markerAt_iff.2 ⟨[lf], rfl, by decide⟩⟩, fun before rest hline => ?_⟩
  refine markerLine_linesText isMarker_end (fun line hline => ?_) hline
  rcases mem_cons.1 hline with rfl | hline
  · exact ⟨by decide, by decide⟩
  · exact (block.plain line hline).2

theorem findAfter_end (block : EditorBlock) : findAfterLine blockEnd block.bytes = some [] := by
  have hlast : afterLine (blockEnd ++ [lf]) = [] := by decide
  rw [findAfterLine, block.find_end, map_some, hlast]

theorem find_begin (block : EditorBlock) {kept : Bytes} (hstart : LineStart none kept) (hline : NoLine blockBegin kept)
    (hnul : 0 ∉ kept) : findMarkerLine blockBegin (kept ++ block.bytes) = some (kept, block.bytes) := by
  apply findMarkerLine_first isMarker_begin _ hnul
  refine ⟨⟨rfl, hstart, block.markerAt_bytes⟩, fun before rest hbefore => ?_⟩
  by_contra hshort
  rcases append_eq_append_iff.1 hbefore.text_eq with ⟨tail, htail, -⟩ | ⟨tail, htail, hrest⟩
  · rw [htail, length_append] at hshort
    omega
  · rcases eq_nil_or_concat tail with rfl | ⟨front, last, rfl⟩
    · rw [append_nil] at htail
      rw [htail] at hshort
      omega
    · have hlast : last = lf := hstart last (by rw [htail]; simp)
      have hhere := hbefore.here
      rw [hrest, markerAt_append (c := lf) (by simp [hlast]) isMarker_begin.line] at hhere
      exact hline before _ ⟨htail, hbefore.start, hhere⟩

theorem around (block : EditorBlock) {kept : Bytes} (hstart : LineStart none kept) (hline : NoLine blockBegin kept)
    (hnul : 0 ∉ kept) : aroundBlock (kept ++ block.bytes) = some (kept, []) := by
  unfold aroundBlock
  rw [block.find_begin hstart hline hnul]
  dsimp only
  rw [block.findAfter_end]
  rfl

end EditorBlock

/-! ### Trimming -/

/-- A text that does not end in a line end. -/
def Trimmed (text : Bytes) : Prop := ∀ last, text.getLast? = some last → isLineEnd last = false

theorem trimLineEnds_append (htail : ∀ c ∈ tail, isLineEnd c = true) :
    trimLineEnds (text ++ tail) = trimLineEnds text := by
  have hreverse : ∀ c ∈ tail.reverse, isLineEnd c = true := fun c hc => htail c (mem_reverse.1 hc)
  rw [trimLineEnds, reverse_append, dropWhile_append_of_pos hreverse, trimLineEnds]

theorem trimLineEnds_of_trimmed (h : Trimmed text) : trimLineEnds text = text := by
  rcases eq_nil_or_concat text with rfl | ⟨front, last, rfl⟩
  · rfl
  · have hlast := h last (by simp)
    rw [trimLineEnds, concat_eq_append, reverse_append, reverse_singleton, singleton_append,
      dropWhile_cons_of_neg (by simp [hlast]), reverse_cons, reverse_reverse]

theorem trimLineEnds_spec (text : Bytes) :
    Trimmed (trimLineEnds text) ∧ ∃ tail, text = trimLineEnds text ++ tail ∧ ∀ c ∈ tail, isLineEnd c = true := by
  induction text using List.reverseRecOn with
  | nil => exact ⟨by simp [Trimmed, trimLineEnds], [], rfl, by simp⟩
  | append_singleton text last ih =>
    by_cases hlast : isLineEnd last = true
    · have htrim : trimLineEnds (text ++ [last]) = trimLineEnds text := trimLineEnds_append (by simpa using hlast)
      obtain ⟨htrimmed, tail, htail, hends⟩ := ih
      rw [htrim]
      refine ⟨htrimmed, tail ++ [last], ?_, fun c hc => ?_⟩
      · rw [← append_assoc, ← htail]
      · rcases mem_append.1 hc with hc | hc
        · exact hends c hc
        · rw [mem_singleton.1 hc]
          exact hlast
    · have htrimmed : Trimmed (text ++ [last]) := fun c hc => by
        simp only [getLast?_append, getLast?_singleton, some_or, some.injEq] at hc
        rw [← hc]
        exact eq_false_iff.2 hlast
      rw [trimLineEnds_of_trimmed htrimmed]
      exact ⟨htrimmed, [], (append_nil _).symm, by simp⟩

theorem words_trimLineEnds (text : Bytes) : words isLineEnd (trimLineEnds text) = words isLineEnd text := by
  obtain ⟨-, tail, htail, hends⟩ := trimLineEnds_spec text
  conv_rhs => rw [htail, words_append_seps hends]

theorem words_dropLineEnds (text : Bytes) : words isLineEnd (text.dropWhile isLineEnd) = words isLineEnd text := by
  have hends : ∀ c ∈ text.takeWhile isLineEnd, isLineEnd c = true := fun c hc =>
    all_eq_true.1 all_takeWhile c hc
  conv_rhs => rw [← takeWhile_append_dropWhile (p := isLineEnd) (l := text), words_seps hends]

theorem words_part (text rest : Bytes) : words isLineEnd (part text ++ rest) = words isLineEnd text ++ words isLineEnd rest := by
  unfold part
  split
  · next h => rw [h, nil_append, words_nil, nil_append]
  · rw [append_assoc, cons_append, singleton_append, words_append_sep (by decide), words_sep (by decide)]

theorem nul_part (h : 0 ∉ text) : 0 ∉ part text := by
  unfold part
  split
  · simp
  · intro hmem
    rcases mem_append.1 hmem with hmem | hmem
    · exact h hmem
    · exact absurd hmem (by decide)

theorem lineStart_part (text : Bytes) : LineStart none (part text) := by
  unfold part
  split
  · simp [LineStart]
  · have hends : text ++ [lf, lf] = (text ++ [lf]) ++ [lf] := by simp
    rw [hends]
    exact lineStart_append_lf _

theorem lineStart_append {after : Bytes} (hbefore : LineStart none before) (hafter : LineStart none after) :
    LineStart none (before ++ after) := by
  intro last hlast
  rcases eq_nil_or_concat after with rfl | ⟨front, c, rfl⟩
  · rw [append_nil] at hlast
    exact hbefore last hlast
  · apply hafter last
    simpa using hlast

theorem MarkerLine.append {marker text before rest : Bytes} (h : MarkerLine marker none text before rest) {tail : Bytes}
    (htail : tail.head?.all isLineEnd = true) : MarkerLine marker none (text ++ tail) before (rest ++ tail) := by
  refine ⟨by rw [h.text_eq, append_assoc], h.start, ?_⟩
  obtain ⟨more, hmore, hhead⟩ := markerAt_iff.1 h.here
  refine markerAt_iff.2 ⟨more ++ tail, by rw [hmore, append_assoc], ?_⟩
  cases more with
  | nil => exact htail
  | cons first more => exact hhead

theorem MarkerLine.after (h : MarkerLine marker none text before rest) {front : Bytes}
    (hfront : LineStart none front) : MarkerLine marker none (front ++ text) (front ++ before) rest :=
  ⟨by rw [h.text_eq, append_assoc], lineStart_append hfront h.start, h.here⟩

theorem noLine_part (hmarker : IsMarker marker) (htext : NoLine marker text)
    (hrest : NoLine marker rest) : NoLine marker (part text ++ rest) := by
  unfold part
  split
  · exact hrest
  · rw [append_assoc, cons_append, singleton_append]
    exact noLine_line hmarker htext (noLine_line hmarker (noLine_nil hmarker) hrest)

theorem line_of_trim {P : Bytes → Prop} (h : ∀ before rest, MarkerLine marker none text before rest → P before)
    (before rest : Bytes) (hline : MarkerLine marker none (trimLineEnds text) before rest) : P before := by
  obtain ⟨-, tail, htail, hends⟩ := trimLineEnds_spec text
  refine h before (rest ++ tail) ?_
  rw [htail]
  refine hline.append ?_
  cases tail with
  | nil => rfl
  | cons c tail => exact hends c mem_cons_self

theorem noLine_trim (h : NoLine marker text) : NoLine marker (trimLineEnds text) := line_of_trim h

theorem hidden_trim (h : Hidden marker text) : Hidden marker (trimLineEnds text) := line_of_trim h

theorem hidden_append (hmarker : IsMarker marker) (h : Hidden marker text) (hnul : 0 ∈ text)
    (rest : Bytes) : Hidden marker (text ++ rest) := by
  intro before tail hline
  rcases append_eq_append_iff.1 hline.text_eq with ⟨more, hmore, -⟩ | ⟨more, hmore, htail⟩
  · rw [hmore]
    exact mem_append_left _ hnul
  · by_contra hbefore
    have hzero : 0 ∈ more := by
      rw [hmore] at hnul
      exact (mem_append.1 hnul).resolve_left hbefore
    have hhere := hline.here
    rw [htail, markerAt_append hzero hmarker.nul] at hhere
    exact hbefore (h before more ⟨hmore, hline.start, hhere⟩)

theorem FirstMarkerLine.noLine (hmarker : IsMarker marker)
    (h : FirstMarkerLine marker none text before rest) : NoLine marker before := by
  intro front tail hline
  rcases eq_nil_or_concat tail with rfl | ⟨tail, last, rfl⟩
  · have hhere := hline.here
    rw [not_markerAt_nil hmarker] at hhere
    exact absurd hhere (by simp)
  · have hlast : last = lf := h.start last (by rw [hline.text_eq]; simp)
    have hwhole : MarkerLine marker none text front (tail.concat last ++ rest) := by
      refine ⟨by rw [h.text_eq, hline.text_eq, append_assoc], hline.start, ?_⟩
      rw [markerAt_append (c := lf) (by simp [hlast]) hmarker.line]
      exact hline.here
    have hshort := h.first _ _ hwhole
    rw [hline.text_eq, length_append, length_concat] at hshort
    omega

/-! ### Saving -/

/-- What the output has before the new block. -/
def keptText (before suffix : Bytes) : Bytes := part (trimLineEnds before) ++ part (suffix.dropWhile isLineEnd)

variable {block : EditorBlock}

theorem replace_some {block : Bytes} {output : Bytes} :
    keymapEditorReplaceBlock input block outputSize = some output ↔
      ∃ before suffix, aroundBlock input = some (before, suffix) ∧ output = keptText before suffix ++ block ∧
        output.length < outputSize := by
  unfold keymapEditorReplaceBlock keptText
  cases haround : aroundBlock input with
  | none => simp
  | some around =>
    obtain ⟨before, suffix⟩ := around
    simp only [bind_eq_bind, bind_some, append_assoc, some.injEq, Prod.mk.injEq]
    constructor
    · intro h
      split at h
      · exact absurd h (by simp)
      · next hsize =>
        have houtput := some.inj h
        rw [houtput] at hsize
        exact ⟨before, suffix, ⟨rfl, rfl⟩, houtput.symm, by omega⟩
    · intro h
      obtain ⟨before', suffix', ⟨rfl, rfl⟩, houtput, hsize⟩ := h
      rw [← houtput, if_neg (by omega)]
      rfl

theorem nul_trim (h : 0 ∉ text) : 0 ∉ trimLineEnds text := fun hmem => by
  obtain ⟨-, tail, htail, -⟩ := trimLineEnds_spec text
  exact h (by rw [htail]; exact mem_append_left _ hmem)

theorem trim_suffix_ne_nil (hsuffix : suffix.dropWhile isLineEnd ≠ []) :
    trimLineEnds (suffix.dropWhile isLineEnd) ≠ [] := by
  intro hnil
  obtain ⟨-, tail, htail, hends⟩ := trimLineEnds_spec (suffix.dropWhile isLineEnd)
  rw [hnil, nil_append] at htail
  obtain ⟨c, rest, hcons⟩ := exists_cons_of_ne_nil hsuffix
  have hhead := head?_dropWhile_not isLineEnd suffix
  have hc := hends c (by rw [← htail, hcons]; exact mem_cons_self)
  simp only [hcons, head?_cons] at hhead
  rw [hc] at hhead
  exact absurd hhead (by simp)

theorem trim_keptText (before : Bytes) (hsuffix : suffix.dropWhile isLineEnd ≠ []) :
    trimLineEnds (keptText before suffix) =
      part (trimLineEnds before) ++ trimLineEnds (suffix.dropWhile isLineEnd) := by
  obtain ⟨htrimmed, tail, htail, hends⟩ := trimLineEnds_spec (suffix.dropWhile isLineEnd)
  have hne := trim_suffix_ne_nil hsuffix
  have hwhole : keptText before suffix =
      (part (trimLineEnds before) ++ trimLineEnds (suffix.dropWhile isLineEnd)) ++ (tail ++ [lf, lf]) := by
    rw [keptText, part, part, if_neg hsuffix]
    conv_lhs => rw [htail]
    simp
  rw [hwhole, trimLineEnds_append, trimLineEnds_of_trimmed]
  · intro last hlast
    obtain ⟨front, c, hconcat⟩ := (eq_nil_or_concat _).resolve_left hne
    rw [hconcat] at hlast htrimmed
    exact htrimmed last (by simpa using hlast)
  · intro c hc
    rcases mem_append.1 hc with hc | hc
    · exact hends c hc
    · have hline : ∀ c ∈ [lf, lf], isLineEnd c = true := by decide
      exact hline c hc

/-- The parts of the output are the parts of saving it again if the suffix is trimmed. -/
theorem keptText_again (before suffix : Bytes) :
    keptText (keptText before suffix) [] = keptText before suffix ↔ Trimmed (suffix.dropWhile isLineEnd) := by
  have hagain : keptText (keptText before suffix) [] = part (trimLineEnds (keptText before suffix)) := by
    exact append_nil _
  rw [hagain]
  by_cases hsuffix : suffix.dropWhile isLineEnd = []
  · have htrimmed : Trimmed (suffix.dropWhile isLineEnd) := by
      rw [hsuffix]
      simp [Trimmed]
    refine ⟨fun _ => htrimmed, fun _ => ?_⟩
    have hkept : keptText before suffix = part (trimLineEnds before) := by
      rw [keptText, hsuffix]
      exact append_nil _
    rw [hkept]
    by_cases hbefore : trimLineEnds before = []
    · rw [hbefore]
      rfl
    · have hpart : part (trimLineEnds before) = trimLineEnds before ++ [lf, lf] := if_neg hbefore
      rw [hpart, trimLineEnds_append (by decide), trimLineEnds_of_trimmed (trimLineEnds_spec before).1, hpart]
  · rw [trim_keptText before hsuffix]
    obtain ⟨htrimmed, tail, htail, -⟩ := trimLineEnds_spec (suffix.dropWhile isLineEnd)
    have hne : part (trimLineEnds before) ++ trimLineEnds (suffix.dropWhile isLineEnd) ≠ [] :=
      fun hnil => trim_suffix_ne_nil hsuffix (append_eq_nil_iff.1 hnil).2
    have hleft : part (part (trimLineEnds before) ++ trimLineEnds (suffix.dropWhile isLineEnd)) =
        part (trimLineEnds before) ++ (trimLineEnds (suffix.dropWhile isLineEnd) ++ [lf, lf]) := by
      rw [part, if_neg hne, append_assoc]
    have hright : keptText before suffix = part (trimLineEnds before) ++ (suffix.dropWhile isLineEnd ++ [lf, lf]) := by
      rw [keptText]
      congr 1
      exact if_neg hsuffix
    rw [hleft, hright, append_cancel_left_eq, append_cancel_right_eq]
    constructor
    · intro h
      rw [← h]
      exact htrimmed
    · intro h
      exact trimLineEnds_of_trimmed h

/-- The old block of a text: what stands before its first line and after the marker that ends it. -/
def OldBlock (input before after : Bytes) : Prop :=
  ∃ rest inside, FirstMarkerLine blockBegin none input before rest ∧
    FirstMarkerLine blockEnd none rest inside (blockEnd ++ after)

/-- What saving promises: the output is lines without a block and the new block; the lines that are not blank are those
outside the old block, in order; and saving again gives the same output. -/
def ReplaceExact (input : Bytes) (block : EditorBlock) : Prop :=
  ∀ outputSize output, keymapEditorReplaceBlock input block.bytes outputSize = some output →
    ∃ kept, output = kept ++ block.bytes ∧ LineStart none kept ∧ NoLine blockBegin kept ∧
      (∀ before after, OldBlock input before after →
        words isLineEnd kept = words isLineEnd before ++ words isLineEnd after) ∧
      (NoLine blockBegin input → words isLineEnd kept = words isLineEnd input) ∧
      keymapEditorReplaceBlock output block.bytes outputSize = some output

/-- The text after the marker that ends a block, as far as saving keeps it. -/
def suffixOf (after : Bytes) : Bytes := (afterLine after).dropWhile isLineEnd

/-- What follows an old block can be kept: it has no NUL, nothing is glued to the marker, no other block begins in it, and it
does not end in a line end. -/
structure SuffixKept (after : Bytes) : Prop where
  nul : 0 ∉ after
  glued : ∀ c ∈ after.takeWhile (· ≠ lf), c = cr
  block : findMarkerLine blockBegin (suffixOf after) = none
  trimmed : Trimmed (suffixOf after)

/-- The texts that are saved as promised: those without a block and without a NUL, those whose block has no end, which are
refused, and those with a suffix that can be kept. -/
def Replaceable (input : Bytes) : Prop :=
  match findMarkerLine blockBegin input with
  | none => 0 ∉ input
  | some (_, rest) =>
    match findMarkerLine blockEnd rest with
    | none => True
    | some (_, found) => SuffixKept (found.drop blockEnd.length)

theorem replace_grows {kept : Bytes} (hhidden : Hidden blockBegin (kept ++ block.bytes)) :
    keymapEditorReplaceBlock (kept ++ block.bytes) block.bytes outputSize ≠ some (kept ++ block.bytes) := by
  intro h
  obtain ⟨before, suffix, haround, houtput, -⟩ := replace_some.1 h
  rw [aroundBlock, (findMarkerLine_none isMarker_begin).2 hhidden] at haround
  obtain ⟨hbefore, hsuffix⟩ := Prod.mk.inj (some.inj haround)
  -- the last line feed of the block is trimmed, and two are added
  have hlast : Trimmed (kept ++ (block.opening ++ blockEnd)) := by
    intro last hlast
    have hend : (kept ++ (block.opening ++ blockEnd)).getLast? = blockEnd.getLast? := by
      rw [← append_assoc]
      rw [getLast?_append]
      rfl
    rw [hend] at hlast
    rw [← some.inj hlast]
    decide
  have hwhole : kept ++ block.bytes = (kept ++ (block.opening ++ blockEnd)) ++ [lf] := by
    simp [EditorBlock.bytes]
  have htrim : trimLineEnds (kept ++ block.bytes) = kept ++ (block.opening ++ blockEnd) := by
    rw [hwhole, trimLineEnds_append (by decide), trimLineEnds_of_trimmed hlast]
  have hlength := congrArg List.length houtput
  rw [keptText, ← hbefore, ← hsuffix, htrim] at hlength
  have hpart : (part (kept ++ (block.opening ++ blockEnd))).length = (kept ++ (block.opening ++ blockEnd)).length + 2 := by
    rw [part, if_neg, length_append]
    · rfl
    · intro hnil
      exact absurd (append_eq_nil_iff.1 (append_eq_nil_iff.1 hnil).2).2 (by decide)
  simp only [length_append] at hlength hpart
  omega

theorem replace_again (hline : NoLine blockBegin (keptText before suffix)) (hnul : 0 ∉ keptText before suffix)
    (hsize : (keptText before suffix ++ block.bytes).length < outputSize) :
    keymapEditorReplaceBlock (keptText before suffix ++ block.bytes) block.bytes outputSize =
        some (keptText before suffix ++ block.bytes) ↔ Trimmed (suffix.dropWhile isLineEnd) := by
  have hstart : LineStart none (keptText before suffix) := lineStart_append (lineStart_part _) (lineStart_part _)
  have haround := block.around hstart hline hnul
  rw [replace_some, ← keptText_again before]
  constructor
  · intro h
    obtain ⟨before', suffix', haround', houtput, -⟩ := h
    rw [haround, some.injEq, Prod.mk.injEq] at haround'
    rw [← haround'.1, ← haround'.2] at houtput
    exact (append_cancel_right houtput).symm
  · intro h
    exact ⟨_, _, haround, by rw [h], hsize⟩

theorem words_keptText (before suffix : Bytes) :
    words isLineEnd (keptText before suffix) = words isLineEnd before ++ words isLineEnd suffix := by
  rw [keptText, words_part, words_trimLineEnds]
  have hsuffix := words_part (suffix.dropWhile isLineEnd) []
  rw [append_nil, words_nil, append_nil] at hsuffix
  rw [hsuffix, words_dropLineEnds]

theorem noLine_keptText (hbefore : NoLine blockBegin before)
    (hsuffix : NoLine blockBegin (suffix.dropWhile isLineEnd)) : NoLine blockBegin (keptText before suffix) := by
  have hpart := noLine_part isMarker_begin hsuffix (noLine_nil isMarker_begin)
  rw [append_nil] at hpart
  exact noLine_part isMarker_begin (noLine_trim hbefore) hpart

theorem part_of_ne_nil (h : text ≠ []) : part text = text ++ [lf, lf] := if_neg h

theorem noLine_suffix (h : NoLine blockBegin (keptText before suffix)) :
    NoLine blockBegin (suffix.dropWhile isLineEnd) := by
  by_cases hsuffix : suffix.dropWhile isLineEnd = []
  · rw [hsuffix]
    exact noLine_nil isMarker_begin
  · intro front rest hline
    have hlonger := (@MarkerLine.append _ _ _ _ hline [lf, lf] (by decide)).after (lineStart_part (trimLineEnds before))
    rw [keptText, part_of_ne_nil hsuffix] at h
    exact h _ _ hlonger

theorem nul_dropLineEnds : 0 ∈ text.dropWhile isLineEnd ↔ 0 ∈ text := by
  constructor
  · exact fun h => (dropWhile_sublist _).subset h
  · intro h
    rw [← takeWhile_append_dropWhile (p := isLineEnd) (l := text)] at h
    refine (mem_append.1 h).resolve_left fun htake => ?_
    have hzero := all_eq_true.1 all_takeWhile 0 htake
    exact absurd hzero (by decide)

theorem nul_keptText (hbefore : 0 ∉ before) (hsuffix : 0 ∉ suffix) : 0 ∉ keptText before suffix := by
  intro hmem
  rcases mem_append.1 hmem with hmem | hmem
  · exact nul_part (nul_trim hbefore) hmem
  · exact nul_part (fun h => hsuffix (nul_dropLineEnds.1 h)) hmem

theorem afterLine_spec (hnul : 0 ∉ text.takeWhile (· ≠ lf)) :
    text = text.takeWhile (· ≠ lf) ∧ afterLine text = [] ∨ text = text.takeWhile (· ≠ lf) ++ lf :: afterLine text := by
  have hsame : text.dropWhile (fun c => c ≠ lf && c ≠ 0) = text.dropWhile (· ≠ lf) := by
    induction text with
    | nil => rfl
    | cons c text ih =>
      by_cases hc : c = lf
      · simp [hc]
      · have hzero : c ≠ 0 := fun h => hnul (by rw [h, takeWhile_cons_of_pos (by decide)]; exact mem_cons_self)
        have htail : 0 ∉ text.takeWhile (· ≠ lf) := fun h => hnul (by
          rw [takeWhile_cons_of_pos (by simpa using hc)]
          exact mem_cons_of_mem _ h)
        rw [dropWhile_cons_of_pos (by simp [hc, hzero]), dropWhile_cons_of_pos (by simpa using hc), ih htail]
  have hwhole := takeWhile_append_dropWhile (p := fun c => decide (c ≠ lf)) (l := text)
  unfold afterLine
  rw [hsame]
  cases hdrop : text.dropWhile (· ≠ lf) with
  | nil =>
    rw [hdrop, append_nil] at hwhole
    exact Or.inl ⟨hwhole.symm, rfl⟩
  | cons c rest =>
    have hhead := head?_dropWhile_not (fun c => decide (c ≠ lf)) text
    rw [hdrop] at hhead hwhole
    have hc : c = lf := by simpa using hhead
    rw [hc] at hwhole ⊢
    exact Or.inr hwhole.symm

theorem afterLine_cons (hlf : c ≠ lf) (hnul : c ≠ 0) (text : Bytes) : afterLine (c :: text) = afterLine text := by
  unfold afterLine
  rw [dropWhile_cons_of_pos (by simp [hlf, hnul])]

theorem afterLine_nul (h : 0 ∈ text.takeWhile (· ≠ lf)) : afterLine text = [] := by
  induction text with
  | nil => rfl
  | cons c text ih =>
    by_cases hlf : c = lf
    · simp [hlf] at h
    · rw [takeWhile_cons_of_pos (by simpa using hlf)] at h
      by_cases hzero : c = 0
      · rw [hzero, afterLine, dropWhile_cons_of_neg (by decide)]
        rfl
      · rw [afterLine_cons hlf hzero]
        exact ih ((mem_cons.1 h).resolve_left (Ne.symm hzero))

theorem mem_afterLine (h : c ∈ afterLine text) : c ∈ text := by
  apply (dropWhile_sublist fun c => c ≠ lf && c ≠ 0).subset
  unfold afterLine at h
  split at h
  · exact absurd h (by simp)
  · next hdrop =>
    rw [hdrop]
    split at h
    · exact mem_cons_of_mem _ h
    · exact absurd h (by simp)

/-- If no word is lost with the line of the marker, it has nothing but carriage returns there, and a NUL is kept. -/
theorem suffix_words {after : Bytes} (h : words isLineEnd after = words isLineEnd (afterLine after)) :
    (∀ c ∈ after.takeWhile (· ≠ lf), c = cr) ∧ (0 ∈ after → 0 ∈ afterLine after) := by
  have hzero : isLineEnd 0 = false := by decide
  have hline : ∀ c ∈ after.takeWhile (· ≠ lf), isLineEnd c = true → c = cr := fun c hc hend => by
    have hlf := all_eq_true.1 all_takeWhile c hc
    unfold isLineEnd at hend
    simp only [decide_eq_true_eq] at hend hlf
    exact hend.resolve_left hlf
  by_cases hnul : 0 ∈ after.takeWhile (· ≠ lf)
  · rw [afterLine_nul hnul, words_nil] at h
    have hend := seps_of_words h 0 ((takeWhile_sublist _).subset hnul)
    rw [hzero] at hend
    exact absurd hend (by simp)
  · rcases afterLine_spec hnul with ⟨-, hnone⟩ | hwhole
    · rw [hnone, words_nil] at h
      have hends := seps_of_words h
      refine ⟨fun c hc => hline c hc (hends c ((takeWhile_sublist _).subset hc)), fun hmem => ?_⟩
      have hend := hends 0 hmem
      rw [hzero] at hend
      exact absurd hend (by simp)
    · have hsplit : words isLineEnd after =
          words isLineEnd (after.takeWhile (· ≠ lf)) ++ words isLineEnd (afterLine after) := by
        conv_lhs => rw [hwhole, words_append_sep (by decide)]
      rw [hsplit] at h
      have hnone : words isLineEnd (after.takeWhile (· ≠ lf)) = [] :=
        append_cancel_right (h.trans (nil_append _).symm)
      refine ⟨fun c hc => hline c hc (seps_of_words hnone c hc), fun hmem => ?_⟩
      rw [hwhole] at hmem
      rcases mem_append.1 hmem with hmem | hmem
      · exact absurd hmem hnul
      · exact (mem_cons.1 hmem).resolve_left (by decide)

theorem words_afterLine {after : Bytes} (hglued : ∀ c ∈ after.takeWhile (· ≠ lf), c = cr) :
    words isLineEnd after = words isLineEnd (afterLine after) := by
  have hnul : 0 ∉ after.takeWhile (· ≠ lf) := fun h => absurd (hglued 0 h) (by decide)
  have hends : ∀ c ∈ after.takeWhile (· ≠ lf), isLineEnd c = true := fun c hc => by
    rw [hglued c hc]
    decide
  rcases afterLine_spec hnul with ⟨hwhole, hnone⟩ | hwhole
  · rw [hnone, words_nil]
    conv_lhs => rw [hwhole, ← append_nil (after.takeWhile _), words_seps hends, words_nil]
  · conv_lhs => rw [hwhole, words_seps hends, words_sep (by decide)]

theorem OldBlock.unique {after after' : Bytes} (h : OldBlock input before after)
    (h' : OldBlock input before' after') : before = before' ∧ after = after' := by
  obtain ⟨rest, inside, hbegin, hend⟩ := h
  obtain ⟨rest', inside', hbegin', hend'⟩ := h'
  obtain ⟨hbefore, hrest⟩ := hbegin.unique hbegin'
  rw [← hrest] at hend'
  exact ⟨hbefore, append_cancel_left (hend.unique hend').2⟩

theorem around_cases (input : Bytes) :
    findMarkerLine blockBegin input = none ∧ aroundBlock input = some (input, []) ∨
      (∃ before rest, findMarkerLine blockBegin input = some (before, rest) ∧ findMarkerLine blockEnd rest = none ∧
        aroundBlock input = none) ∨
      ∃ before rest inside after, findMarkerLine blockBegin input = some (before, rest) ∧
        findMarkerLine blockEnd rest = some (inside, blockEnd ++ after) ∧ OldBlock input before after ∧ 0 ∉ before ∧
          NoLine blockBegin before ∧ aroundBlock input = some (before, afterLine after) := by
  have hbegin := findMarkerLine_finds isMarker_begin input
  cases hfound : findMarkerLine blockBegin input with
  | none => exact Or.inl ⟨rfl, by rw [aroundBlock, hfound]⟩
  | some found =>
    obtain ⟨before, rest⟩ := found
    rw [hfound] at hbegin
    have hend := findMarkerLine_finds isMarker_end rest
    cases hlast : findMarkerLine blockEnd rest with
    | none => exact Or.inr (Or.inl ⟨before, rest, rfl, hlast, by rw [aroundBlock, hfound]; simp [findAfterLine, hlast]⟩)
    | some last =>
      obtain ⟨inside, last⟩ := last
      rw [hlast] at hend
      obtain ⟨after, rfl, -⟩ := markerAt_iff.1 hend.1.here
      refine Or.inr (Or.inr ⟨before, rest, inside, after, rfl, hlast, ⟨rest, inside, hbegin.1, hend.1⟩, hbegin.2,
        hbegin.1.noLine isMarker_begin, ?_⟩)
      have hafter : afterLine (blockEnd ++ after) = afterLine after := by
        have hmarker : ∀ c ∈ blockEnd, (c ≠ lf && c ≠ 0) = true := by decide
        unfold afterLine
        rw [dropWhile_append_of_pos hmarker]
      rw [aroundBlock, hfound]
      simp [findAfterLine, hlast, hafter]

/-- Saving is as promised for these texts and no others. -/
theorem replace_exact_iff (input : Bytes) (block : EditorBlock) : ReplaceExact input block ↔ Replaceable input := by
  unfold Replaceable
  rcases around_cases input with ⟨hnone, haround⟩ | ⟨before, rest, hbegin, hend, haround⟩ |
      ⟨before, rest, inside, after, hbegin, hend, hold, hnulBefore, hlineBefore, haround⟩
  · rw [hnone]
    have hhidden := (findMarkerLine_none isMarker_begin).1 hnone
    constructor
    · intro h hnul
      obtain ⟨kept, houtput, -, -, -, -, hagain⟩ := h _ _ (replace_some.2 ⟨_, _, haround, rfl, Nat.lt_succ_self _⟩)
      have hkept : kept = keptText input [] := (append_cancel_right houtput).symm
      have hzero : 0 ∈ trimLineEnds input := by
        obtain ⟨-, tail, htail, hends⟩ := trimLineEnds_spec input
        rw [htail] at hnul
        exact (mem_append.1 hnul).resolve_right fun hmem => absurd (hends 0 hmem) (by decide)
      have hpart : keptText input [] = trimLineEnds input ++ [lf, lf] := by
        have hne : trimLineEnds input ≠ [] := ne_nil_of_mem hzero
        rw [keptText, part, if_neg hne]
        exact append_nil _
      refine replace_grows ?_ hagain
      rw [hpart, append_assoc]
      exact hidden_append isMarker_begin (hidden_trim hhidden) hzero _
    · intro hnul outputSize output hrun
      obtain ⟨before, suffix, haround', rfl, hsize⟩ := replace_some.1 hrun
      rw [haround, some.injEq, Prod.mk.injEq] at haround'
      obtain ⟨rfl, rfl⟩ := haround'
      have hline : NoLine blockBegin (keptText input []) :=
        noLine_keptText (hhidden.noLine hnul) (noLine_nil isMarker_begin)
      refine ⟨_, rfl, lineStart_append (lineStart_part _) (lineStart_part _), hline, fun before after hold => ?_,
        fun _ => ?_, ?_⟩
      · obtain ⟨rest, inside, hfirst, -⟩ := hold
        exact absurd hfirst.toMarkerLine (hhidden.noLine hnul before rest)
      · rw [words_keptText, words_nil, append_nil]
      · exact (replace_again hline (nul_keptText hnul (by simp)) hsize).2 (by simp [Trimmed])
  · rw [hbegin]
    dsimp only
    rw [hend]
    refine ⟨fun _ => trivial, fun _ outputSize output hrun => ?_⟩
    obtain ⟨before, suffix, haround', -⟩ := replace_some.1 hrun
    rw [haround] at haround'
    exact absurd haround' (by simp)
  · rw [hbegin]
    dsimp only
    rw [hend]
    dsimp only
    rw [drop_left]
    constructor
    · intro h
      obtain ⟨kept, houtput, -, hline, hwords, -, hagain⟩ :=
        h _ _ (replace_some.2 ⟨_, _, haround, rfl, Nat.lt_succ_self _⟩)
      have hkept : kept = keptText before (afterLine after) := (append_cancel_right houtput).symm
      rw [hkept] at hline hwords
      have hsame := hwords before after hold
      rw [words_keptText, append_cancel_left_eq] at hsame
      obtain ⟨hglued, hnulAfter⟩ := suffix_words hsame.symm
      have hnul : 0 ∉ keptText before (afterLine after) := fun hzero =>
        replace_grows (hidden_append isMarker_begin hline.hidden hzero _) hagain
      have hsuffix : NoLine blockBegin (suffixOf after) := noLine_suffix hline
      refine ⟨fun hzero => hnul ?_, hglued, (findMarkerLine_none isMarker_begin).2 hsuffix.hidden,
        (replace_again hline hnul (Nat.lt_succ_self _)).1 hagain⟩
      have hkeep := nul_dropLineEnds.2 (hnulAfter hzero)
      rw [keptText, part_of_ne_nil (ne_nil_of_mem hkeep)]
      exact mem_append_right _ (mem_append_left _ hkeep)
    · intro h outputSize output hrun
      obtain ⟨before', suffix, haround', rfl, hsize⟩ := replace_some.1 hrun
      rw [haround, some.injEq, Prod.mk.injEq] at haround'
      obtain ⟨rfl, rfl⟩ := haround'
      have hnulSuffix : 0 ∉ afterLine after := fun hzero => h.nul (mem_afterLine hzero)
      have hline := noLine_keptText hlineBefore
        (((findMarkerLine_none isMarker_begin).1 h.block).noLine fun hzero => hnulSuffix (nul_dropLineEnds.1 hzero))
      refine ⟨_, rfl, lineStart_append (lineStart_part _) (lineStart_part _), hline, fun before' after' hold' => ?_,
        fun hnone => ?_, ?_⟩
      · obtain ⟨rfl, rfl⟩ := hold.unique hold'
        rw [words_keptText, words_afterLine h.glued]
      · obtain ⟨rest, inside, hfirst, -⟩ := hold
        exact absurd hfirst.toMarkerLine (hnone before rest)
      · exact (replace_again hline (nul_keptText hnulBefore hnulSuffix) hsize).2 h.trimmed

/-- A keymap with a line after the old block, and the empty block. -/
def lineAfterBlock : Bytes := ascii "!CLEAR\n# BMX-KEYMAP-EDITOR-BEGIN\n# BMX-KEYMAP-EDITOR-END\na 1 2 8\n"

def emptyBlock : EditorBlock where
  lines := []
  plain := by simp
  nul := by simp

/-- Saving it again takes a blank line away. -/
theorem line_after_block_changes : ¬ ReplaceExact lineAfterBlock emptyBlock := by
  intro h
  have hrun : keymapEditorReplaceBlock lineAfterBlock emptyBlock.bytes 1000 =
      some (ascii "!CLEAR\n\na 1 2 8\n\n\n" ++ emptyBlock.bytes) := by decide
  obtain ⟨kept, -, -, -, -, -, hagain⟩ := h 1000 _ hrun
  exact absurd hagain (by decide)

end Bmx.Keymap
