import Bmx.Base.JsonDocument
import Bmx.Update.JsonParser

/-!
# What the JSON scanners take

Each scanner takes just the texts of its rule of the grammar, except that the list of short escapes
ends in NUL, which `strchr` finds as well.
-/

namespace Bmx.Update

open Json List Option

namespace JsonCursor

/-- From the first place to the second the text is read. -/
structure Reads (c : JsonCursor) (text : Bytes) (c' : JsonCursor) : Prop where
  rest : c.rest = text ++ c'.rest
  position : c'.position = c.position + text.length

theorem reads_nil (c : JsonCursor) : c.Reads [] c := ⟨rfl, rfl⟩

variable {c c' c'' : JsonCursor} {first second text : Bytes}

theorem Reads.trans (h : c.Reads first c') (h' : c'.Reads second c'') : c.Reads (first ++ second) c'' := by
  refine ⟨?_, ?_⟩
  · rw [h.rest, h'.rest, append_assoc]
  · rw [h'.position, h.position, length_append, Nat.add_assoc]

theorem Reads.eq_advance (h : c.Reads text c') : c' = c.advance text.length := by
  unfold advance
  rw [← h.position, h.rest, drop_left]

theorem reads_advance {after : Bytes} (h : c.rest = text ++ after) : c.Reads text (c.advance text.length) := by
  refine ⟨?_, rfl⟩
  unfold advance
  rw [h, drop_left]

theorem Reads.split (h : c.Reads (first ++ second) c') :
    ∃ middle, c.Reads first middle ∧ middle.Reads second c' := by
  have hwhole : c.rest = first ++ (second ++ c'.rest) := h.rest.trans (append_assoc _ _ _)
  have hfirst := reads_advance hwhole
  refine ⟨_, hfirst, ?_, ?_⟩
  · exact (append_cancel_left (hwhole.symm.trans hfirst.rest)).symm
  · rw [h.position, hfirst.position, length_append, Nat.add_assoc]

theorem Reads.split_cons {x : UInt8} (h : c.Reads (x :: text) c') :
    ∃ middle, c.Reads [x] middle ∧ middle.Reads text c' := by
  have hsplit : c.Reads ([x] ++ text) c' := h
  exact hsplit.split

theorem Reads.unique (h : c.Reads text c') (h' : c.Reads text c'') : c' = c'' := h.eq_advance.trans h'.eq_advance.symm

end JsonCursor

open JsonCursor

/-! ### Characters beyond ASCII -/

theorem utf8Tail_iff {c : UInt8} : utf8Tail c = true ↔ Continues c := by
  unfold utf8Tail Continues
  rw [decide_eq_true_iff, UInt8.le_iff_toNat_le, UInt8.le_iff_toNat_le]
  have hlow : (0x80 : UInt8).toNat = 128 := rfl
  have hhigh : (0xbf : UInt8).toNat = 191 := rfl
  omega

/-- A character as the scanner sees it: the first byte, the others, and their code point. -/
structure Consumed (first : UInt8) (tail : Bytes) (count bits : Nat) : Prop where
  lead : utf8Lead first = some (count, bits)
  length : tail.length = count - 1
  continues : ∀ c ∈ tail, Continues c
  codepoint : utf8Rejected count
    (tail.foldl (fun codepoint value => codepoint * 64 + value.toNat % 64) bits) = false

variable {first : UInt8} {bits value : Nat} {tail text after run : Bytes} {c c' : JsonCursor} {p : UInt8 → Bool}
  {objectKey : Bool}

theorem utf8Lead_cases {count : Nat} (h : utf8Lead first = some (count, bits)) :
    (count = 2 ∧ (0xc2 ≤ first ∧ first ≤ 0xdf) ∧ bits = first.toNat % 32) ∨
      (count = 3 ∧ (0xe0 ≤ first ∧ first ≤ 0xef) ∧ bits = first.toNat % 16) ∨
      (count = 4 ∧ (0xf0 ≤ first ∧ first ≤ 0xf4) ∧ bits = first.toNat % 8) := by
  unfold utf8Lead at h
  split at h
  · rename_i hrange
    cases h
    exact .inl ⟨rfl, hrange, rfl⟩
  split at h
  · rename_i hrange
    cases h
    exact .inr (.inl ⟨rfl, hrange, rfl⟩)
  split at h
  · rename_i hrange
    cases h
    exact .inr (.inr ⟨rfl, hrange, rfl⟩)
  · cases h

theorem toNat_bounds {c low high : UInt8} (h : low ≤ c ∧ c ≤ high) :
    low.toNat ≤ c.toNat ∧ c.toNat ≤ high.toNat := h

theorem Consumed.extended {count : Nat} (h : Consumed first tail count bits) : Extended (first :: tail) := by
  obtain ⟨hlead, hlength, htail, hcodepoint⟩ := h
  unfold utf8Rejected at hcodepoint
  rw [decide_eq_false_iff_not] at hcodepoint
  rcases utf8Lead_cases hlead with ⟨rfl, hrange, rfl⟩ | ⟨rfl, hrange, rfl⟩ | ⟨rfl, hrange, rfl⟩
  · obtain ⟨b, rfl⟩ := length_eq_one_iff.1 hlength
    exact .two hrange (htail b mem_cons_self)
  · obtain ⟨b, c, rfl⟩ := length_eq_two.1 hlength
    have hb := htail b mem_cons_self
    have hc := htail c (mem_cons_of_mem _ mem_cons_self)
    have hnb := toNat_bounds hb
    have hnc := toNat_bounds hc
    simp only [foldl_cons, foldl_nil] at hcodepoint
    simp only [UInt8.reduceToNat] at hnb hnc
    refine .three hrange hb hc ?_ ?_
    · intro hfirst
      have hbits : first.toNat = 0xe0 := congrArg UInt8.toNat hfirst
      have hlong := mt (fun h => Or.inl ⟨trivial, h⟩) hcodepoint
      have hgoal : 0xa0 ≤ b.toNat := by omega
      exact hgoal
    · intro hfirst
      have hbits : first.toNat = 0xed := congrArg UInt8.toNat hfirst
      have hgoal : b.toNat ≤ 0x9f := by omega
      exact hgoal
  · obtain ⟨b, c, d, rfl⟩ := length_eq_three.1 hlength
    have hb := htail b mem_cons_self
    have hc := htail c (mem_cons_of_mem _ mem_cons_self)
    have hd := htail d (mem_cons_of_mem _ (mem_cons_of_mem _ mem_cons_self))
    have hnb := toNat_bounds hb
    have hnc := toNat_bounds hc
    have hnd := toNat_bounds hd
    simp only [foldl_cons, foldl_nil] at hcodepoint
    simp only [UInt8.reduceToNat] at hnb hnc hnd
    refine .four hrange hb hc hd ?_ ?_
    · intro hfirst
      have hbits : first.toNat = 0xf0 := congrArg UInt8.toNat hfirst
      have hlong := mt (fun h => Or.inr (Or.inl ⟨trivial, h⟩)) hcodepoint
      have hgoal : 0x90 ≤ b.toNat := by omega
      exact hgoal
    · intro hfirst
      have hbits : first.toNat = 0xf4 := congrArg UInt8.toNat hfirst
      have hgoal : b.toNat ≤ 0x8f := by omega
      exact hgoal

theorem utf8Lead_two (h : 0xc2 ≤ first ∧ first ≤ 0xdf) : utf8Lead first = some (2, first.toNat % 32) := by
  unfold utf8Lead
  rw [if_pos h]

theorem not_below {low high high' : UInt8} (h : low ≤ first) (hbelow : high < low) : ¬ (high' ≤ first ∧ first ≤ high) :=
  fun hother => absurd (UInt8.lt_of_lt_of_le hbelow h) (UInt8.not_lt.2 hother.2)

theorem utf8Lead_three (h : 0xe0 ≤ first ∧ first ≤ 0xef) : utf8Lead first = some (3, first.toNat % 16) := by
  unfold utf8Lead
  rw [if_neg (not_below h.1 (by decide)), if_pos h]

theorem utf8Lead_four (h : 0xf0 ≤ first ∧ first ≤ 0xf4) : utf8Lead first = some (4, first.toNat % 8) := by
  unfold utf8Lead
  rw [if_neg (not_below h.1 (by decide)), if_neg (not_below h.1 (by decide)), if_pos h]

theorem consumed_of_extended (h : Extended text) : ∃ first tail count bits,
    text = first :: tail ∧ Consumed first tail count bits := by
  cases h with
  | @two a b ha hb =>
    refine ⟨a, [b], 2, _, rfl, utf8Lead_two ha, rfl, ?_, ?_⟩
    · exact forall_mem_singleton.2 hb
    · have hna := toNat_bounds ha
      have hnb := toNat_bounds hb
      unfold utf8Rejected
      rw [decide_eq_false_iff_not, foldl_cons, foldl_nil]
      omega
  | @three a b c ha hb hc hshort hsurrogate =>
    refine ⟨a, [b, c], 3, _, rfl, utf8Lead_three ha, rfl, ?_, ?_⟩
    · exact forall_mem_cons.2 ⟨hb, forall_mem_singleton.2 hc⟩
    · have hna := toNat_bounds ha
      have hnb := toNat_bounds hb
      have hnc := toNat_bounds hc
      have hfirst : a.toNat = 0xe0 → 0xa0 ≤ b.toNat := fun heq => hshort (UInt8.toNat_inj.1 heq)
      have hlast : a.toNat = 0xed → b.toNat ≤ 0x9f := fun heq => hsurrogate (UInt8.toNat_inj.1 heq)
      simp only [UInt8.reduceToNat] at hna hnb hnc
      unfold utf8Rejected
      rw [decide_eq_false_iff_not, foldl_cons, foldl_cons, foldl_nil]
      omega
  | @four a b c d ha hb hc hd hshort hlarge =>
    refine ⟨a, [b, c, d], 4, _, rfl, utf8Lead_four ha, rfl, ?_, ?_⟩
    · exact forall_mem_cons.2 ⟨hb, forall_mem_cons.2
        ⟨hc, forall_mem_singleton.2 hd⟩⟩
    · have hna := toNat_bounds ha
      have hnb := toNat_bounds hb
      have hnc := toNat_bounds hc
      have hnd := toNat_bounds hd
      have hfirst : a.toNat = 0xf0 → 0x90 ≤ b.toNat := fun heq => hshort (UInt8.toNat_inj.1 heq)
      have hlast : a.toNat = 0xf4 → b.toNat ≤ 0x8f := fun heq => hlarge (UInt8.toNat_inj.1 heq)
      simp only [UInt8.reduceToNat] at hna hnb hnc hnd
      unfold utf8Rejected
      rw [decide_eq_false_iff_not, foldl_cons, foldl_cons, foldl_cons, foldl_nil]
      omega

theorem Consumed.count {count : Nat} (h : Consumed first tail count bits) : (first :: tail).length = count := by
  rw [length_cons, h.length]
  rcases utf8Lead_cases h.lead with ⟨rfl, -⟩ | ⟨rfl, -⟩ | ⟨rfl, -⟩ <;> rfl

theorem consumeUtf8_iff : consumeUtf8 c = .ok c' ↔ ∃ text, Extended text ∧ c.Reads text c' := by
  constructor
  · intro h
    unfold consumeUtf8 at h
    split at h
    · cases h
    rename_i first more hrest
    split at h
    · cases h
    rename_i count bits hlead
    dsimp only at h
    split at h
    · cases h
    rename_i hlength
    split at h
    · cases h
    rename_i hgood
    split at h
    · cases h
    rename_i hvalue
    cases h
    have hconsumed : Consumed first (more.take (count - 1)) count bits := by
      refine ⟨hlead, ?_, fun b hb => ?_, Bool.eq_false_iff.2 hvalue⟩
      · rw [hrest, length_cons] at hlength
        rw [length_take]
        omega
      · exact utf8Tail_iff.1 (all_eq_true.1 (not_not.1 hgood) b hb)
    refine ⟨first :: more.take (count - 1), hconsumed.extended, ?_⟩
    have hwhole : c.rest = (first :: more.take (count - 1)) ++ more.drop (count - 1) := by
      rw [hrest, cons_append, take_append_drop]
    have hreads := reads_advance hwhole
    rwa [hconsumed.count] at hreads
  · rintro ⟨text, htext, hreads⟩
    obtain ⟨first, tail, count, bits, rfl, hconsumed⟩ := consumed_of_extended htext
    have htake : (tail ++ c'.rest).take (count - 1) = tail := by
      rw [← hconsumed.length, take_left]
    have hall : tail.all utf8Tail = true :=
      all_eq_true.2 fun b hb => utf8Tail_iff.2 (hconsumed.continues b hb)
    have hlength : ¬ c.rest.length < count := by
      rw [hreads.rest, length_append, hconsumed.count]
      omega
    rw [hreads.eq_advance, hconsumed.count]
    unfold consumeUtf8
    rw [hreads.rest, cons_append]
    dsimp only
    rw [hconsumed.lead]
    dsimp only
    rw [htake, if_neg (by rwa [hreads.rest] at hlength), if_neg (not_not.2 hall),
      hconsumed.codepoint, if_neg Bool.false_ne_true]

/-! ### Escapes -/

theorem jsonHexDigit_eq : jsonHexDigit = hexDigit := rfl

theorem parseHex4_iff {a b c d : UInt8} :
    parseHex4 (a :: b :: c :: d :: after) = some value ↔ Hex4 [a, b, c, d] value := by
  unfold parseHex4
  rw [jsonHexDigit_eq]
  simp only [take_succ_cons, take_zero, foldlM_cons, foldlM_nil]
  constructor
  · intro h
    obtain ⟨x, hx, h⟩ := bind_eq_some_iff.1 h
    obtain ⟨y, hy, h⟩ := bind_eq_some_iff.1 h
    obtain ⟨z, hz, h⟩ := bind_eq_some_iff.1 h
    obtain ⟨w, hw, h⟩ := bind_eq_some_iff.1 h
    obtain ⟨va, ha, rfl⟩ := map_eq_some_iff.1 hx
    obtain ⟨vb, hb, rfl⟩ := map_eq_some_iff.1 hy
    obtain ⟨vc, hc, rfl⟩ := map_eq_some_iff.1 hz
    obtain ⟨vd, hd, rfl⟩ := map_eq_some_iff.1 hw
    cases h
    rw [Nat.zero_mul, Nat.zero_add]
    exact .mk ha hb hc hd
  · intro h
    cases h with
    | mk ha hb hc hd =>
      rw [ha, hb, hc, hd, map_some, Nat.zero_mul, Nat.zero_add]
      rfl

theorem exists_four (h : ¬ text.length < 4) : ∃ a b c d after, text = a :: b :: c :: d :: after := by
  match text with
  | a :: b :: c :: d :: after => exact ⟨a, b, c, d, after, rfl⟩
  | [] | [_] | [_, _] | [_, _, _] => exact absurd (by simp) h

theorem parseHex4_sound (hlength : ¬ text.length < 4)
    (h : parseHex4 text = some value) : ∃ digits, Hex4 digits value ∧ text = digits ++ text.drop 4 := by
  obtain ⟨a, b, c, d, after, rfl⟩ := exists_four hlength
  exact ⟨[a, b, c, d], parseHex4_iff.1 h, rfl⟩

theorem parseHex4_complete {digits : Bytes} (h : Hex4 digits value) (after : Bytes) :
    parseHex4 (digits ++ after) = some value := by
  cases h with
  | mk ha hb hc hd => exact parseHex4_iff.2 (.mk ha hb hc hd)

theorem parseEscape_sound (hslash : c.rest.head? = some 92) (h : parseEscape c = .ok c') :
    ∃ text, Escape (fun c => shortEscape c = true) text ∧ c.Reads (92 :: text) c' := by
  obtain ⟨more, hrest⟩ : ∃ more, c.rest = 92 :: more := head?_eq_some_iff.1 hslash
  unfold parseEscape at h
  rw [hrest, drop_succ_cons, drop_zero] at h
  split at h
  · cases h
  rename_i escaped after
  split at h
  · rename_i hshort
    cases h
    exact ⟨[escaped], .single hshort, reads_advance (by rw [hrest]; rfl)⟩
  split at h
  · cases h
  rename_i hunicode
  rw [not_or, not_not] at hunicode
  obtain ⟨rfl, hlength⟩ := hunicode
  split at h
  · cases h
  rename_i codepoint hfirst
  obtain ⟨digits, hdigits, hafter⟩ := parseHex4_sound hlength hfirst
  split at h
  · rename_i hhigh
    dsimp only at h
    split at h
    · cases h
    rename_i hlow
    rw [not_or, not_not] at hlow
    obtain ⟨hlowLength, hstart⟩ := hlow
    split at h
    · cases h
    rename_i value hsecond
    split at h
    · cases h
    cases h
    have hlowLength' : ¬ ((after.drop 4).drop 2).length < 4 := by
      rw [length_drop]
      omega
    obtain ⟨digits', hdigits', hafter'⟩ := parseHex4_sound hlowLength' hsecond
    have hsplit := take_append_drop 2 (after.drop 4)
    rw [hstart, hafter'] at hsplit
    refine ⟨117 :: (digits ++ 92 :: 117 :: digits'), ?_, ?_⟩
    · exact .pair hdigits hhigh hdigits' ⟨by omega, by omega⟩
    · have hreads : c.rest = (92 :: 117 :: (digits ++ 92 :: 117 :: digits')) ++
          ((after.drop 4).drop 2).drop 4 := by
        generalize ((after.drop 4).drop 2).drop 4 = last at hsplit
        rw [← hsplit] at hafter
        rw [hrest, hafter]
        simp
      have hcount := reads_advance hreads
      simpa [hdigits.length, hdigits'.length] using hcount
  · rename_i hhigh
    split at h
    · cases h
    rename_i hlow
    cases h
    refine ⟨117 :: digits, .plain hdigits hhigh hlow, ?_⟩
    have hreads : c.rest = (92 :: 117 :: digits) ++ after.drop 4 := by
      rw [hrest, cons_append, cons_append, ← hafter]
    have hcount := reads_advance hreads
    simpa [hdigits.length] using hcount

theorem parseEscape_complete
    (h : Escape (fun c => shortEscape c = true) text) (hreads : c.Reads (92 :: text) c') :
    parseEscape c = .ok c' := by
  have hend := hreads.eq_advance
  unfold parseEscape
  rw [hreads.rest, cons_append, drop_succ_cons, drop_zero]
  cases h with
  | single hshort =>
    rw [hend, singleton_append]
    dsimp only
    rw [if_pos hshort]
    rfl
  | @plain digits value hdigits hhigh hlow =>
    have hlength := hdigits.length
    have hshort : ¬ shortEscape 117 = true := by decide
    rw [cons_append]
    dsimp only
    rw [if_neg hshort, if_neg (by rw [length_append]; simp; omega),
      parseHex4_complete hdigits]
    dsimp only
    unfold IsHighSurrogate at hhigh
    unfold IsLowSurrogate at hlow
    rw [if_neg hhigh, if_neg hlow, hend]
    simp [hlength]
  | @pair first second high low hfirst hhigh hsecond hlow =>
    have hlength := hfirst.length
    have hlength' := hsecond.length
    have hshort : ¬ shortEscape 117 = true := by decide
    rw [cons_append, append_assoc]
    dsimp only
    rw [if_neg hshort, if_neg (by rw [length_append]; simp; omega),
      parseHex4_complete hfirst]
    dsimp only
    unfold IsHighSurrogate at hhigh
    unfold IsLowSurrogate at hlow
    have hdrop : (first ++ (92 :: 117 :: second ++ c'.rest)).drop 4 =
        92 :: 117 :: second ++ c'.rest := by
      rw [← hlength, drop_left]
    rw [if_pos hhigh, hdrop]
    simp only [cons_append, take_succ_cons, take_zero, drop_succ_cons, drop_zero, ne_eq, not_true_eq_false, or_false]
    rw [if_neg (by simp; omega), parseHex4_complete hsecond]
    dsimp only
    rw [if_neg (by omega), hend]
    simp [hlength, hlength']

/-! ### Runs of whitespace and of digits -/

theorem takeWhile_run (hrun : ∀ c ∈ run, p c = true)
    (hafter : ∀ c ∈ after.head?, p c = false) : (run ++ after).takeWhile p = run := by
  rw [takeWhile_append_of_pos hrun]
  cases after with
  | nil => rw [takeWhile_nil, append_nil]
  | cons c after =>
    rw [takeWhile_cons_of_neg (Bool.eq_false_iff.1 (hafter c rfl)), append_nil]

theorem reads_takeWhile (p : UInt8 → Bool) (c : JsonCursor) :
    ∃ run, (∀ x ∈ run, p x = true) ∧ c.Reads run (c.advance (c.rest.takeWhile p).length) ∧
      ∀ x ∈ (c.advance (c.rest.takeWhile p).length).rest.head?, p x = false := by
  have hreads := reads_advance (takeWhile_append_dropWhile (p := p) (l := c.rest)).symm
  refine ⟨c.rest.takeWhile p, fun x hx => mem_takeWhile_imp hx, hreads, fun x hx => ?_⟩
  have hrest : (c.advance (c.rest.takeWhile p).length).rest = c.rest.dropWhile p := by
    have hwhole := hreads.rest
    exact (append_cancel_left
      ((takeWhile_append_dropWhile (p := p) (l := c.rest)).trans hwhole)).symm
  rw [hrest] at hx
  have hnot := head?_dropWhile_not p c.rest
  rw [hx] at hnot
  exact hnot

theorem exists_of_any {c : Option UInt8} (h : c.any p = true) : ∃ x ∈ c, p x = true := by
  cases c with
  | none => cases h
  | some x => exact ⟨x, rfl, h⟩

theorem advance_takeWhile
    (hrun : ∀ x ∈ run, p x = true) (hreads : c.Reads run c') (hafter : ∀ x ∈ c'.rest.head?, p x = false) :
    c.advance (c.rest.takeWhile p).length = c' := by
  rw [hreads.rest, takeWhile_run hrun hafter]
  exact hreads.eq_advance.symm

/-! ### Numbers -/

theorem requireDigits_sound (h : requireDigits c = .ok c') : ∃ text, Digits text ∧ c.Reads text c' := by
  unfold requireDigits at h
  split at h
  · rename_i hfirst
    cases h
    obtain ⟨run, hrun, hreads, hafter⟩ := reads_takeWhile jsonDigit c
    refine ⟨run, ⟨?_, hrun⟩, hreads⟩
    intro hnil
    obtain ⟨x, hx, hdigit⟩ := exists_of_any hfirst
    have hsame : c.rest = (c.advance (c.rest.takeWhile jsonDigit).length).rest := by
      have hwhole := hreads.rest
      rwa [hnil, nil_append] at hwhole
    have hnot := hafter x (by rw [← hsame]; exact hx)
    rw [hdigit] at hnot
    cases hnot
  · cases h

theorem requireDigits_complete (h : Digits text)
    (hreads : c.Reads text c') (hafter : ∀ x ∈ c'.rest.head?, isDigit x = false) : requireDigits c = .ok c' := by
  obtain ⟨hnonempty, hdigits⟩ := h
  obtain ⟨x, more, rfl⟩ := exists_cons_of_ne_nil hnonempty
  have hfirst : c.rest.head?.any jsonDigit = true := by
    rw [hreads.rest]
    exact hdigits x mem_cons_self
  unfold requireDigits
  rw [if_pos hfirst]
  exact congrArg Except.ok (advance_takeWhile hdigits hreads hafter)

theorem parseInteger_sound (h : parseInteger c = .ok c') : ∃ text, Integer text ∧ c.Reads text c' := by
  unfold parseInteger at h
  split at h
  · rename_i more hrest
    split at h
    · cases h
    cases h
    exact ⟨[48], .zero, reads_advance (by rw [hrest]; rfl)⟩
  · rename_i hnonzero
    obtain ⟨text, ⟨hnonempty, hdigits⟩, hreads⟩ := requireDigits_sound h
    obtain ⟨x, more, rfl⟩ := exists_cons_of_ne_nil hnonempty
    obtain ⟨hx, hmore⟩ := forall_mem_cons.1 hdigits
    refine ⟨x :: more, .digits hx ?_ hmore, hreads⟩
    rintro rfl
    exact hnonzero _ hreads.rest

theorem parseInteger_complete (h : Integer text)
    (hreads : c.Reads text c') (hafter : ∀ x ∈ c'.rest.head?, isDigit x = false) : parseInteger c = .ok c' := by
  cases h with
  | zero =>
    have hdigit : ¬ c'.rest.head?.any jsonDigit = true := by
      intro hany
      obtain ⟨x, hx, hdigit⟩ := exists_of_any hany
      exact Bool.false_ne_true ((hafter x hx).symm.trans hdigit)
    unfold parseInteger
    rw [hreads.rest]
    exact (if_neg hdigit).trans (congrArg Except.ok hreads.eq_advance.symm)
  | @digits digit more hdigit hnonzero hmore =>
    have hall : ∀ x ∈ digit :: more, isDigit x = true := forall_mem_cons.2 ⟨hdigit, hmore⟩
    have hrequire := requireDigits_complete ⟨cons_ne_nil _ _, hall⟩ hreads hafter
    unfold parseInteger
    split
    · rename_i hrest
      rw [hreads.rest, cons_append] at hrest
      exact absurd (cons.inj hrest).1 hnonzero
    · exact hrequire

theorem parseFraction_sound (h : parseFraction c = .ok c') : ∃ text, Fraction text ∧ c.Reads text c' := by
  unfold parseFraction at h
  split at h
  · rename_i more hrest
    obtain ⟨text, hdigits, hreads⟩ := requireDigits_sound h
    have hdot : c.Reads [46] (c.advance 1) := reads_advance (by rw [hrest]; rfl)
    exact ⟨46 :: text, .present hdigits, hdot.trans hreads⟩
  · cases h
    exact ⟨[], .absent, reads_nil c⟩

theorem parseFraction_complete (h : Fraction text)
    (hreads : c.Reads text c') (hafter : ∀ x ∈ c'.rest.head?, isDigit x = false ∧ x ≠ 46) :
    parseFraction c = .ok c' := by
  cases h with
  | absent =>
    unfold parseFraction
    split
    · rename_i hrest
      rw [hreads.rest, nil_append] at hrest
      exact absurd rfl (hafter 46 (by rw [hrest]; rfl)).2
    · exact congrArg Except.ok hreads.eq_advance.symm
  | @present digits hdigits =>
    obtain ⟨middle, hdot, hmore⟩ := hreads.split_cons
    have hcount := requireDigits_complete hdigits hmore fun x hx => (hafter x hx).1
    unfold parseFraction
    rw [hreads.rest]
    rwa [hdot.eq_advance] at hcount

theorem parseExponent_sound (h : parseExponent c = .ok c') : ∃ text, Exponent text ∧ c.Reads text c' := by
  unfold parseExponent at h
  split at h
  · rename_i e more hrest
    split at h
    · rename_i he
      obtain ⟨digits, hdigits, hreads⟩ := requireDigits_sound h
      split at hreads
      · rename_i hsigned
        obtain ⟨sign, hsign, hvalue⟩ := exists_of_any hsigned
        obtain ⟨after, rfl⟩ := head?_eq_some_iff.1 hsign
        have hstart : c.Reads (e :: [sign]) (c.advance 2) := reads_advance (by rw [hrest]; rfl)
        refine ⟨e :: ([sign] ++ digits), .present he ?_ hdigits, hstart.trans hreads⟩
        exact .inr ((of_decide_eq_true hvalue).imp (congrArg ([·])) (congrArg ([·])))
      · have hstart : c.Reads [e] (c.advance 1) := reads_advance (by rw [hrest]; rfl)
        exact ⟨e :: ([] ++ digits), .present he (.inl rfl) hdigits, hstart.trans hreads⟩
    · cases h
      exact ⟨[], .absent, reads_nil c⟩
  · cases h
    exact ⟨[], .absent, reads_nil c⟩

theorem parseExponent_complete (h : Exponent text) (hreads : c.Reads text c')
    (hafter : ∀ x ∈ c'.rest.head?, isDigit x = false ∧ x ≠ 101 ∧ x ≠ 69) : parseExponent c = .ok c' := by
  cases h with
  | absent =>
    have hsame : c.rest = c'.rest := hreads.rest
    unfold parseExponent
    split
    · rename_i e more hrest
      obtain ⟨-, hlower, hupper⟩ := hafter e (by rw [← hsame, hrest]; rfl)
      rw [if_neg (not_or.2 ⟨hlower, hupper⟩)]
      exact congrArg Except.ok hreads.eq_advance.symm
    · exact congrArg Except.ok hreads.eq_advance.symm
  | @present e sign digits he hsign hdigits =>
    have hwhole : c.Reads ((e :: sign) ++ digits) c' := hreads
    obtain ⟨middle, hstart, hmore⟩ := hwhole.split
    have hcount := requireDigits_complete hdigits hmore fun x hx => (hafter x hx).1
    unfold parseExponent
    rw [hstart.rest, cons_append]
    dsimp only
    rw [if_pos he]
    have hlength : (if (sign ++ middle.rest).head?.any fun sign => decide (sign = 43 ∨ sign = 45)
        then 2 else 1) = (e :: sign).length := by
      rcases hsign with rfl | rfl | rfl
      · obtain ⟨x, more, rfl⟩ := exists_cons_of_ne_nil hdigits.1
        have hx : isDigit x = true := hdigits.2 x mem_cons_self
        have hnot : ¬ (x = 43 ∨ x = 45) := by
          rintro (rfl | rfl) <;> exact absurd hx (by decide)
        rw [hmore.rest]
        simpa using hnot
      · rfl
      · rfl
    rwa [hlength, ← hstart.eq_advance]

theorem scanNumber_sound (h : scanNumber c = .ok c') : ∃ text, Number text ∧ c.Reads text c' := by
  have hminus : ∃ minus, (minus = [] ∨ minus = [45]) ∧
      c.Reads minus (if c.rest.head? = some 45 then c.advance 1 else c) := by
    split
    · rename_i hfirst
      obtain ⟨more, hrest⟩ := head?_eq_some_iff.1 hfirst
      exact ⟨[45], .inr rfl, reads_advance hrest⟩
    · exact ⟨[], .inl rfl, reads_nil c⟩
  obtain ⟨minus, hminus, hunsigned⟩ := hminus
  unfold scanNumber at h
  dsimp only at h
  generalize (if c.rest.head? = some 45 then c.advance 1 else c) = unsigned at h hunsigned
  split at h
  · cases h
  split at h
  · cases h
  rename_i afterInteger hinteger
  split at h
  · cases h
  rename_i afterFraction hfraction
  obtain ⟨integer, hinteger, hreads⟩ := parseInteger_sound hinteger
  obtain ⟨fraction, hfraction, hreads'⟩ := parseFraction_sound hfraction
  obtain ⟨exponent, hexponent, hreads''⟩ := parseExponent_sound h
  exact ⟨_, .mk hminus hinteger hfraction hexponent, ((hunsigned.trans hreads).trans hreads').trans hreads''⟩

/-- What may follow a number: nothing that would carry it on. -/
def NumberEnd (rest : Bytes) : Prop :=
  ∀ x ∈ rest.head?, isDigit x = false ∧ x ≠ 46 ∧ x ≠ 101 ∧ x ≠ 69

theorem head?_append {first : Bytes} {p : UInt8 → Prop} (hfirst : ∀ x ∈ first.head?, p x)
    (hafter : ∀ x ∈ after.head?, p x) : ∀ x ∈ (first ++ after).head?, p x := by
  cases first with
  | nil => exact hafter
  | cons x first => exact hfirst

theorem scanNumber_complete (h : Number text)
    (hreads : c.Reads text c') (hend : NumberEnd c'.rest) : scanNumber c = .ok c' := by
  obtain ⟨hminus, hinteger, hfraction, hexponent⟩ := h
  obtain ⟨afterFraction, hreads, hlast⟩ := hreads.split
  obtain ⟨afterInteger, hreads, hmiddle⟩ := hreads.split
  obtain ⟨unsigned, hsign, hfirst⟩ := hreads.split
  have hinteger_end : ∀ x ∈ afterInteger.rest.head?, isDigit x = false := by
    rw [hmiddle.rest, hlast.rest]
    refine head?_append (fun x hx => (hfraction.head x hx).1) ?_
    exact head?_append (fun x hx => (hexponent.head x hx).1) fun x hx => (hend x hx).1
  have hfraction_end : ∀ x ∈ afterFraction.rest.head?, isDigit x = false ∧ x ≠ 46 := by
    rw [hlast.rest]
    exact head?_append hexponent.head fun x hx => ⟨(hend x hx).1, (hend x hx).2.1⟩
  obtain ⟨digit, more, rfl, hdigit⟩ := hinteger.first
  have hunsigned : (if c.rest.head? = some 45 then c.advance 1 else c) = unsigned := by
    rcases hminus with rfl | rfl
    · have hnot : c.rest.head? ≠ some 45 := by
        rw [hsign.rest, hfirst.rest]
        rintro ⟨⟩
        exact absurd hdigit (by decide)
      rw [if_neg hnot]
      exact hsign.eq_advance.symm
    · rw [if_pos (by rw [hsign.rest]; rfl)]
      exact hsign.eq_advance.symm
  have hnonempty : unsigned.rest ≠ [] := by
    rw [hfirst.rest]
    exact cons_ne_nil _ _
  unfold scanNumber
  rw [hunsigned, if_neg fun h => hnonempty h.2,
    parseInteger_complete hinteger hfirst hinteger_end]
  dsimp only
  rw [parseFraction_complete hfraction hmiddle hfraction_end]
  exact parseExponent_complete hexponent hlast fun x hx =>
    ⟨(hend x hx).1, (hend x hx).2.2⟩

/-! ### Strings -/

/-- What stands in an object's key. -/
structure VisibleCharacter (c : UInt8) : Prop where
  visible : 0x21 ≤ c ∧ c ≤ 0x7e
  quote : c ≠ 34
  escape : c ≠ 92

theorem extended_first (h : Extended text) : ∃ first more, text = first :: more ∧ 0x80 ≤ first := by
  obtain ⟨first, tail, count, bits, rfl, hconsumed⟩ := consumed_of_extended h
  refine ⟨first, tail, rfl, ?_⟩
  rcases utf8Lead_cases hconsumed.lead with ⟨-, hrange, -⟩ | ⟨-, hrange, -⟩ | ⟨-, hrange, -⟩
  all_goals exact UInt8.le_trans (by decide) hrange.1

theorem scanString_sound {fuel : Nat} {escaped escaped' : Bool}
    (h : scanString objectKey fuel c escaped = .ok (c', escaped')) :
    ∃ text, Characters (fun c => shortEscape c = true) text ∧ c.Reads text c' ∧
      c'.rest.head? = some 34 ∧ (escaped = true → escaped' = true) ∧
      (objectKey = true → escaped' = false → ∀ x ∈ text, VisibleCharacter x) := by
  induction fuel generalizing c escaped with
  | zero => cases h
  | succ fuel ih =>
    unfold scanString at h
    split at h
    · cases h
    rename_i value more hrest
    split at h
    · rename_i hquote
      cases h
      refine ⟨[], .nil, reads_nil _, ?_, id, fun _ _ x hx => absurd hx not_mem_nil⟩
      rw [hrest, hquote]
      rfl
    rename_i hquote
    split at h
    · cases h
    rename_i hcontrol
    split at h
    · rename_i hescape
      split at h
      · cases h
      rename_i middle hmiddle
      have hslash : c.rest.head? = some 92 := by rw [hrest, hescape]; rfl
      obtain ⟨first, hfirst, hreads⟩ := parseEscape_sound hslash hmiddle
      obtain ⟨rest, hcharacters, hreads', hend, hkept, -⟩ := ih h
      refine ⟨_, .cons (.escaped hfirst) hcharacters, hreads.trans hreads', hend,
        fun _ => hkept rfl, fun _ hplain => ?_⟩
      rw [hkept rfl] at hplain
      cases hplain
    rename_i hescape
    split at h
    · cases h
    rename_i hkey
    split at h
    · rename_i hbeyond
      split at h
      · cases h
      rename_i middle hmiddle
      obtain ⟨first, hfirst, hreads⟩ := consumeUtf8_iff.1 hmiddle
      obtain ⟨rest, hcharacters, hreads', hend, hkept, -⟩ := ih h
      refine ⟨_, .cons (.extended hfirst) hcharacters, hreads.trans hreads', hend, hkept, ?_⟩
      intro hobject
      exact absurd ⟨hobject, .inr (UInt8.lt_of_lt_of_le (show (0x7e : UInt8) < 0x80 by decide) hbeyond)⟩ hkey
    · rename_i hascii
      obtain ⟨rest, hcharacters, hreads', hend, hkept, hvisible⟩ := ih h
      have hreads : c.Reads [value] (c.advance 1) := reads_advance (by rw [hrest]; rfl)
      refine ⟨_, .cons (.plain (UInt8.not_lt.1 hcontrol) (UInt8.not_le.1 hascii) hquote hescape)
        hcharacters, hreads.trans hreads', hend, hkept, ?_⟩
      intro hobject hplain x hx
      rcases mem_cons.1 hx with rfl | hx
      · have hrange := not_or.1 (fun hout => hkey ⟨hobject, hout⟩)
        exact ⟨⟨UInt8.not_lt.1 hrange.1, UInt8.not_lt.1 hrange.2⟩, hquote, hescape⟩
      · exact hvisible hobject hplain x hx

theorem scanString_complete (h : Characters (fun c => shortEscape c = true) text)
    (hkey : objectKey = true → ∀ x ∈ text, VisibleCharacter x) (fuel : Nat) (escaped : Bool)
    (hfuel : text.length < fuel) (hreads : c.Reads text c')
    (hend : c'.rest.head? = some 34) :
    ∃ escaped', scanString objectKey fuel c escaped = .ok (c', escaped') ∧
      (objectKey = true → escaped' = escaped) := by
  induction h generalizing fuel c escaped with
  | nil =>
    obtain ⟨fuel, rfl⟩ := Nat.exists_eq_succ_of_ne_zero (Nat.ne_zero_of_lt hfuel)
    obtain ⟨more, hrest⟩ := head?_eq_some_iff.1 hend
    have hsame : c = c' := (reads_nil c).unique hreads
    subst hsame
    refine ⟨escaped, ?_, fun _ => rfl⟩
    unfold scanString
    rw [hrest]
    exact if_pos rfl
  | @cons first rest hfirst hrest ih =>
    obtain ⟨fuel, rfl⟩ := Nat.exists_eq_succ_of_ne_zero (Nat.ne_zero_of_lt hfuel)
    obtain ⟨middle, hstart, hmore⟩ := hreads.split
    have hvisible : objectKey = true → ∀ x ∈ rest, VisibleCharacter x :=
      fun hobject x hx => hkey hobject x (mem_append_right _ hx)
    cases hfirst with
    | @plain value hcontrol hascii hquote hescape =>
      obtain ⟨escaped', hscan, hkept⟩ :=
        ih hvisible fuel escaped (by simp at hfuel; omega) hmore
      refine ⟨escaped', ?_, hkept⟩
      have hrange : ¬ (objectKey = true ∧ (value < 0x21 ∨ value > 0x7e)) := by
        rintro ⟨hobject, hout⟩
        have hin := (hkey hobject value mem_cons_self).visible
        rcases hout with hout | hout
        · exact UInt8.not_le.2 hout hin.1
        · exact UInt8.not_le.2 hout hin.2
      unfold scanString
      rw [hstart.rest, singleton_append]
      dsimp only
      rw [if_neg hquote, if_neg (UInt8.not_lt.2 hcontrol), if_neg hescape, if_neg hrange,
        if_neg (UInt8.not_le.2 hascii)]
      have hnext : middle = c.advance 1 := hstart.eq_advance
      rw [← hnext]
      exact hscan
    | extended hextended =>
      obtain ⟨value, more, rfl, hbeyond⟩ := extended_first hextended
      obtain ⟨escaped', hscan, hkept⟩ :=
        ih hvisible fuel escaped (by simp at hfuel; omega) hmore
      refine ⟨escaped', ?_, hkept⟩
      have hplain : ¬ (objectKey = true ∧ (value < 0x21 ∨ value > 0x7e)) := by
        rintro ⟨hobject, -⟩
        have hin := (hkey hobject value mem_cons_self).visible
        exact absurd (UInt8.le_trans hbeyond hin.2) (by decide)
      have hquote : value ≠ 34 := by rintro rfl; exact absurd hbeyond (by decide)
      have hescape : value ≠ 92 := by rintro rfl; exact absurd hbeyond (by decide)
      have hcontrol : ¬ value < 0x20 :=
        UInt8.not_lt.2 (UInt8.le_trans (by decide) hbeyond)
      unfold scanString
      rw [hstart.rest, cons_append]
      dsimp only
      rw [if_neg hquote, if_neg hcontrol, if_neg hescape, if_neg hplain, if_pos hbeyond,
        consumeUtf8_iff.2 ⟨_, hextended, hstart⟩]
      exact hscan
    | escaped hescaped =>
      have hobject : objectKey ≠ true := fun hobject =>
        (hkey hobject 92 mem_cons_self).escape rfl
      obtain ⟨escaped', hscan, -⟩ :=
        ih hvisible fuel true (by simp at hfuel; omega) hmore
      refine ⟨escaped', ?_, fun hkey => absurd hkey hobject⟩
      unfold scanString
      rw [hstart.rest, cons_append]
      dsimp only
      rw [if_neg (by decide), if_neg (by decide), if_pos rfl, parseEscape_complete hescaped hstart]
      exact hscan

end Bmx.Update
