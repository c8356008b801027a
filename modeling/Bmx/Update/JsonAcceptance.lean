import Bmx.Update.JsonParserComplete

/-!
# The grammar of the JSON parser

`ParseJson` is meant to take just the documents of RFC 8259 whose keys are printable and distinct,
and `JsonCopyString` to decode every string of them. A NUL after a backslash is let through by the
first and refused by the second.
-/

namespace Bmx.Update

open Json List

/-! ### Decoding strings -/

variable {output text json : Bytes} {outputSize fuel : Nat} {forest : Forest}

theorem appendByte_fits {value : UInt8}
    (h : output.length + 1 < outputSize) : appendByte value output outputSize = some (output ++ [value]) :=
  if_neg (Nat.not_le.2 h)

theorem appendUtf8_fits (codepoint : Nat) (h : output.length + 4 < outputSize) :
    ∃ piece, piece.length ≤ 4 ∧ appendUtf8 codepoint output outputSize = some (output ++ piece) := by
  have hfits : ∀ piece : Bytes, piece.length ≤ 4 →
      (if output.length + piece.length ≥ outputSize then none else some (output ++ piece)) =
        some (output ++ piece) := fun piece hpiece => if_neg (by omega)
  unfold appendUtf8
  split
  · exact ⟨_, by simp, hfits _ (by simp)⟩
  split
  · exact ⟨_, by simp, hfits _ (by simp)⟩
  split
  · exact ⟨_, by simp, hfits _ (by simp)⟩
  · exact ⟨_, by simp, hfits _ (by simp)⟩

theorem copyString_run {run rest : Bytes} (hrun : ∀ c ∈ run, c ≠ 92)
    (hsize : output.length + run.length < outputSize) :
    copyString outputSize (run.length + fuel) (run ++ rest) output =
      copyString outputSize fuel rest (output ++ run) := by
  induction run generalizing output with
  | nil => rw [length_nil, Nat.zero_add, nil_append, append_nil]
  | cons c run ih =>
    obtain ⟨hc, hrun⟩ := forall_mem_cons.1 hrun
    have hfuel : (c :: run).length + fuel = (run.length + fuel) + 1 := by
      rw [length_cons]
      omega
    rw [hfuel, cons_append]
    conv => lhs; unfold copyString
    rw [if_pos hc, appendByte_fits (by omega)]
    dsimp only
    rw [ih hrun (by rw [length_append, length_singleton]; omega), append_assoc,
      singleton_append]

theorem decodeShortEscape_standard {c : UInt8} (h : StandardEscape c) :
    c ≠ 117 ∧ ∃ decoded, decodeShortEscape c = some decoded := by
  have hall : (ascii "\"\\/bfnrt").all (fun x => x ≠ 117 ∧ (decodeShortEscape x).isSome = true) = true := by
    decide
  obtain ⟨hu, hdecoded⟩ := of_decide_eq_true (all_eq_true.1 hall c h)
  exact ⟨hu, Option.isSome_iff_exists.1 hdecoded⟩

theorem decodeUnicodeEscape_plain {digits : Bytes} {value : Nat} (hdigits : Hex4 digits value)
    (hhigh : ¬ IsHighSurrogate value) (rest : Bytes) : decodeUnicodeEscape (digits ++ rest) = some (value, rest) := by
  have hlength := hdigits.length
  unfold decodeUnicodeEscape
  rw [if_neg (by rw [length_append]; omega), parseHex4_complete hdigits, Option.bind_some]
  unfold IsHighSurrogate at hhigh
  rw [if_neg hhigh, ← hlength, drop_left]

theorem decodeUnicodeEscape_pair {first second : Bytes} {high low : Nat} (hfirst : Hex4 first high)
    (hhigh : IsHighSurrogate high) (hsecond : Hex4 second low) (hlow : IsLowSurrogate low) (rest : Bytes) :
    decodeUnicodeEscape (first ++ 92 :: 117 :: second ++ rest) =
      some (0x10000 + (high - 0xd800) * 1024 + (low - 0xdc00), rest) := by
  have hlength := hfirst.length
  have hlength' := hsecond.length
  unfold IsHighSurrogate at hhigh
  unfold IsLowSurrogate at hlow
  have hdrop : (first ++ (92 :: 117 :: second ++ rest)).drop 4 = 92 :: 117 :: (second ++ rest) := by
    rw [← hlength, drop_left]
    rfl
  unfold decodeUnicodeEscape
  rw [append_assoc, if_neg (by rw [length_append]; omega), parseHex4_complete hfirst,
    Option.bind_some, hdrop, if_pos hhigh]
  simp only [take_succ_cons, take_zero, drop_succ_cons, drop_zero, ne_eq, not_true_eq_false, or_false]
  rw [if_neg (by simp; omega), parseHex4_complete hsecond, Option.bind_some, if_neg (by omega),
    ← hlength', drop_left]

theorem decodeUnicodeEscape_taken (h : Escape StandardEscape (117 :: text)) (rest : Bytes) :
    ∃ codepoint, decodeUnicodeEscape (text ++ rest) = some (codepoint, rest) := by
  cases h with
  | single hc => exact absurd rfl (decodeShortEscape_standard hc).1
  | plain hdigits hhigh hlow => exact ⟨_, decodeUnicodeEscape_plain hdigits hhigh rest⟩
  | pair hfirst hhigh hsecond hlow => exact ⟨_, decodeUnicodeEscape_pair hfirst hhigh hsecond hlow rest⟩

theorem copyString_u {more : Bytes} :
    copyString outputSize (fuel + 1) (92 :: 117 :: more) output = match decodeUnicodeEscape more with
      | none => .error .string
      | some (codepoint, rest) =>
        match appendUtf8 codepoint output outputSize with
        | none => .error .outputTooSmall
        | some output => copyString outputSize fuel rest output := by
  exact if_neg (not_not.2 rfl)

theorem copyString_escape (h : Escape StandardEscape text)
    (fuel : Nat) (rest : Bytes) {after : Nat} (hsize : output.length + (text.length + 1 + after) < outputSize) :
    ∃ piece, piece.length ≤ text.length + 1 ∧
      copyString outputSize (fuel + 1) (92 :: text ++ rest) output =
        copyString outputSize fuel rest (output ++ piece) := by
  have hunicode : ∀ {digits : Bytes}, text = 117 :: digits → 3 ≤ digits.length →
      ∃ piece, piece.length ≤ text.length + 1 ∧
        copyString outputSize (fuel + 1) (92 :: text ++ rest) output =
          copyString outputSize fuel rest (output ++ piece) := by
    rintro digits rfl hlength
    rw [length_cons] at hsize
    obtain ⟨codepoint, hdecoded⟩ := decodeUnicodeEscape_taken h rest
    have hroom : output.length + 4 < outputSize := by omega
    obtain ⟨piece, hpiece, hfits⟩ := appendUtf8_fits codepoint hroom
    refine ⟨piece, by rw [length_cons]; omega, ?_⟩
    rw [cons_append, cons_append]
    rw [copyString_u, hdecoded]
    dsimp only
    rw [hfits]
  cases h with
  | @single c hc =>
    obtain ⟨hu, decoded, hdecoded⟩ := decodeShortEscape_standard hc
    refine ⟨[decoded], by simp, ?_⟩
    rw [cons_append, singleton_append]
    conv => lhs; unfold copyString
    rw [if_neg (not_not.2 rfl)]
    split
    · rename_i hrest; cases hrest
    · rename_i hrest; exact absurd (cons.inj hrest).1 hu
    · rename_i hrest
      cases hrest
      rw [hdecoded]
      dsimp only
      rw [appendByte_fits (by rw [length_singleton] at hsize; omega)]
  | plain hdigits hhigh hlow => exact hunicode rfl (by rw [hdigits.length]; omega)
  | pair hfirst hhigh hsecond hlow =>
    exact hunicode rfl (by rw [length_append, hfirst.length]; omega)

theorem copyString_complete (h : Characters StandardEscape text)
     (hfuel : text.length ≤ fuel) (hsize : output.length + text.length < outputSize) :
    ∃ copied, copyString outputSize fuel text output = .ok copied := by
  induction h generalizing fuel output with
  | nil => exact ⟨output, by rw [copyString]⟩
  | @cons first rest hfirst hrest ih =>
    rw [length_append] at hfuel hsize
    have hrun : (∀ c ∈ first, c ≠ 92) →
        ∃ copied, copyString outputSize fuel (first ++ rest) output = .ok copied := by
      intro hplain
      obtain ⟨more, rfl⟩ := Nat.exists_eq_add_of_le (show first.length ≤ fuel by omega)
      rw [copyString_run hplain (by omega)]
      exact ih (by omega) (by rw [length_append]; omega)
    cases hfirst with
    | plain hcontrol hascii hquote hescape => exact hrun (forall_mem_singleton.2 hescape)
    | extended hextended =>
      refine hrun fun c hc => ?_
      rintro rfl
      exact absurd (hextended.beyond 92 hc) (by decide)
    | @escaped text hescaped =>
      rw [length_cons] at hfuel hsize
      obtain ⟨fuel, rfl⟩ := Nat.exists_eq_add_of_le' (show 1 ≤ fuel by omega)
      obtain ⟨piece, hpiece, hstep⟩ := copyString_escape hescaped fuel rest hsize
      rw [hstep]
      exact ih (by omega) (by rw [length_append]; omega)

theorem jsonCopyString_complete {token : JsonToken}
    (htype : token.type = .string) (htext : token.text json = text) (h : Characters StandardEscape text)
    (hsize : text.length < outputSize) : ∃ copied, jsonCopyString json token outputSize = .ok copied := by
  have hroom : ([] : Bytes).length + text.length < outputSize := by rwa [length_nil, Nat.zero_add]
  obtain ⟨copied, hcopied⟩ := copyString_complete h (Nat.le_refl _) hroom
  refine ⟨copied, ?_⟩
  unfold jsonCopyString
  rw [if_neg (Nat.ne_zero_of_lt hsize), if_neg (not_not.2 htype), htext]
  exact hcopied

/-! ### The strings of a document -/

theorem forestTokens_all {p : Kind → Bytes → Prop} (h : forest.All p)
    (hlocated : forest.Located json) (index : Nat) (parent : Int) :
    ∀ token ∈ forestTokens forest index parent,
      ∃ kind, token.type = .ofKind kind ∧ p kind (token.text json) := by
  induction forest generalizing index parent with
  | nil => exact fun token htoken => absurd htoken not_mem_nil
  | cons kind start text children next ih ih' =>
    obtain ⟨hnode, hchildren, hnext⟩ := h
    obtain ⟨hplace, hlocated, hlocated'⟩ := hlocated
    intro token htoken
    rcases mem_cons.1 htoken with rfl | htoken
    · exact ⟨kind, rfl, by rwa [token_text hplace rfl]⟩
    rcases mem_append.1 htoken with htoken | htoken
    · exact ih hchildren hlocated _ _ token htoken
    · exact ih' hnext hlocated' _ _ token htoken

theorem ofKind_string {kind : Kind} (h : JsonTokenType.ofKind kind = .string) : kind = .string := by
  cases kind <;> first | rfl | cases h

theorem text_strings {single : UInt8 → Prop} {shape : Shape} {start : Nat}
    (h : Text single VisibleCharacter shape start text forest) :
    forest.All fun kind text => kind = .string → Characters single text := by
  induction h with
  | literal hword => cases hword <;> exact ⟨nofun, trivial, trivial⟩
  | number hnumber => exact ⟨nofun, trivial, trivial⟩
  | string hcharacters => exact ⟨fun _ => hcharacters, trivial, trivial⟩
  | empty hbrackets hspace => cases hbrackets <;> exact ⟨nofun, trivial, trivial⟩
  | filled hbrackets hspace hitems hkeys ih => cases hbrackets <;> exact ⟨nofun, ih, trivial⟩
  | member hname hbefore hafter hvalue ih => exact ⟨fun _ => visible_characters hname, trivial, ih⟩
  | last hitem hspace ih => exact ih
  | more hitem hbefore hafter hitems ih ih' => exact ih.append ih'

/-! ### The grammar -/

/-- The printable characters of ASCII that a key holds as they are, the space included. -/
structure PrintableCharacter (c : UInt8) : Prop where
  printable : 0x20 ≤ c ∧ c ≤ 0x7e
  quote : c ≠ 34
  escape : c ≠ 92

def DocumentWithin (single key : UInt8 → Prop) (json : Bytes) (tokenCapacity maxDepth : Nat) : Prop :=
  json.length ≤ maximumJsonBytes ∧ ∃ forest, Document single key json forest ∧
    forest.size ≤ tokenCapacity ∧ forest.height ≤ maxDepth

/-- The parser takes a text just if it is a document, and all its strings can be decoded. -/
structure ParsesGrammar (key : UInt8 → Prop) (json : Bytes) (tokenCapacity maxDepth : Nat) : Prop where
  accepts : (parseJson json tokenCapacity maxDepth).error = .ok ↔
    DocumentWithin StandardEscape key json tokenCapacity maxDepth
  decodes : (parseJson json tokenCapacity maxDepth).error = .ok →
    ∀ token ∈ (parseJson json tokenCapacity maxDepth).tokens, token.type = .string →
      ∃ bound, ∀ outputSize, bound ≤ outputSize →
        ∃ copied, jsonCopyString json token outputSize = .ok copied

section

variable {json : Bytes} {tokenCapacity maxDepth : Nat}

theorem parseJson_ok_iff : (parseJson json tokenCapacity maxDepth).error = .ok ↔
    DocumentWithin ShortEscape VisibleCharacter json tokenCapacity maxDepth := by
  constructor
  · intro h
    obtain ⟨hlength, forest, hdocument, hsize, hheight, -⟩ := parseJson_sound h
    exact ⟨hlength, forest, hdocument, hsize, hheight⟩
  · rintro ⟨hlength, forest, hdocument, hsize, hheight⟩
    rw [parseJson_complete hdocument hlength hsize hheight]

theorem shortEscape_iff {c : UInt8} : ShortEscape c ↔ StandardEscape c ∨ c = 0 := by
  unfold ShortEscape shortEscape StandardEscape
  rw [decide_eq_true_iff, mem_append, mem_singleton]

theorem nul_not_standard : ¬ StandardEscape 0 := by
  unfold StandardEscape
  decide

theorem visible_printable (c : UInt8) (h : VisibleCharacter c) : PrintableCharacter c :=
  ⟨⟨UInt8.le_trans (by decide) h.visible.1, h.visible.2⟩, h.quote, h.escape⟩

variable {key : UInt8 → Prop}

theorem DocumentWithin.wider (hvisible : ∀ c, VisibleCharacter c → key c)
    (h : DocumentWithin ShortEscape VisibleCharacter json tokenCapacity maxDepth) :
    DocumentWithin ShortEscape key json tokenCapacity maxDepth := by
  obtain ⟨hlength, forest, hdocument, hsize, hheight⟩ := h
  exact ⟨hlength, forest, hdocument.of_mem (fun c _ hc => hc) hvisible, hsize, hheight⟩

theorem documentWithin_iff (hkey : ¬ key 0) :
    DocumentWithin StandardEscape key json tokenCapacity maxDepth ↔
      DocumentWithin ShortEscape key json tokenCapacity maxDepth ∧ 0 ∉ json := by
  constructor
  · rintro ⟨hlength, forest, hdocument, hsize, hheight⟩
    refine ⟨⟨hlength, forest, ?_, hsize, hheight⟩, fun hnul => ?_⟩
    · exact hdocument.of_mem (fun c _ hc => shortEscape_iff.2 (.inl hc)) fun c hc => hc
    · rcases hdocument.mem 0 hnul with hcontrol | hspace | hsingle | hname
      · exact absurd hcontrol (by decide)
      · exact absurd hspace (by decide)
      · exact absurd hsingle nul_not_standard
      · exact hkey hname
  · rintro ⟨⟨hlength, forest, hdocument, hsize, hheight⟩, hnul⟩
    refine ⟨hlength, forest, hdocument.of_mem (fun c hc hsingle => ?_) fun c hc => hc, hsize, hheight⟩
    rcases shortEscape_iff.1 hsingle with hstandard | rfl
    · exact hstandard
    · exact absurd hc hnul

theorem strings_decode (h : (parseJson json tokenCapacity maxDepth).error = .ok) (hnul : 0 ∉ json) :
    ∀ token ∈ (parseJson json tokenCapacity maxDepth).tokens, token.type = .string →
      ∃ bound, ∀ outputSize, bound ≤ outputSize →
        ∃ copied, jsonCopyString json token outputSize = .ok copied := by
  obtain ⟨-, forest, hdocument, -, -, htokens⟩ := parseJson_sound h
  intro token htoken htype
  rw [htokens] at htoken
  have hstandard : Document StandardEscape VisibleCharacter json forest := by
    refine hdocument.of_mem (fun c hc hsingle => ?_) fun c hc => hc
    rcases shortEscape_iff.1 hsingle with hstandard | rfl
    · exact hstandard
    · exact absurd hc hnul
  have hstrings : forest.All fun kind text => kind = .string → Characters StandardEscape text := by
    obtain ⟨-, hvalue, -⟩ := hstandard
    exact text_strings hvalue
  obtain ⟨kind, hkind, hcharacters⟩ := forestTokens_all hstrings hstandard.located 0 (-1) token htoken
  have htext := hcharacters (ofKind_string (hkind.symm.trans htype))
  exact ⟨(token.text json).length + 1, fun outputSize hsize => jsonCopyString_complete htype rfl htext hsize⟩

/-- With keys between the visible and the printable characters, the parser is right about a text if a
NUL keeps it from being a document just where the parser refuses it. -/
theorem parsesGrammar_iff (hvisible : ∀ c, VisibleCharacter c → key c) (hkey : ∀ c, key c → PrintableCharacter c) :
    ParsesGrammar key json tokenCapacity maxDepth ↔
      (DocumentWithin ShortEscape key json tokenCapacity maxDepth →
        (0 ∉ json ↔ DocumentWithin ShortEscape VisibleCharacter json tokenCapacity maxDepth)) := by
  have hnul : ¬ key 0 := fun h => absurd (hkey 0 h).printable.1 (by decide)
  constructor
  · rintro ⟨haccepts, -⟩ hdocument
    rw [parseJson_ok_iff, documentWithin_iff hnul] at haccepts
    exact ⟨fun hnone => haccepts.2 ⟨hdocument, hnone⟩, fun htaken => (haccepts.1 htaken).2⟩
  · intro h
    refine ⟨?_, fun hok => strings_decode hok ?_⟩
    · rw [parseJson_ok_iff, documentWithin_iff hnul]
      exact ⟨fun htaken => ⟨htaken.wider hvisible, (h (htaken.wider hvisible)).2 htaken⟩,
        fun hdocument => (h hdocument.1).1 hdocument.2⟩
    · have htaken := parseJson_ok_iff.1 hok
      exact (h (htaken.wider hvisible)).2 htaken

end

/-- The parser is right about a text unless it is a document but for a NUL after a backslash. If a key
may hold spaces, it is right about a document just if either no NUL is in it and no key holds a space,
or both are the case. -/
theorem parseJson_grammar (json : Bytes) (tokenCapacity maxDepth : Nat) :
    (ParsesGrammar VisibleCharacter json tokenCapacity maxDepth ↔
      (DocumentWithin ShortEscape VisibleCharacter json tokenCapacity maxDepth → 0 ∉ json)) ∧
    (ParsesGrammar PrintableCharacter json tokenCapacity maxDepth ↔
      (DocumentWithin ShortEscape PrintableCharacter json tokenCapacity maxDepth →
        (0 ∉ json ↔ DocumentWithin ShortEscape VisibleCharacter json tokenCapacity maxDepth))) := by
  refine ⟨(parsesGrammar_iff (fun c hc => hc) visible_printable).trans ?_,
    parsesGrammar_iff visible_printable fun c hc => hc⟩
  exact ⟨fun h hdocument => (h hdocument).2 hdocument, fun h hdocument => iff_of_true (h hdocument) hdocument⟩

/-- A list of one string that is a backslash and a NUL: the parser takes it. -/
theorem escapedNul_accepted : ¬ ParsesGrammar VisibleCharacter [0x5b, 0x22, 0x5c, 0x00, 0x22, 0x5d] 2 2 ∧
    ¬ ParsesGrammar PrintableCharacter [0x5b, 0x22, 0x5c, 0x00, 0x22, 0x5d] 2 2 := by
  have htaken : DocumentWithin ShortEscape VisibleCharacter [0x5b, 0x22, 0x5c, 0x00, 0x22, 0x5d] 2 2 :=
    parseJson_ok_iff.1 (by decide +kernel)
  constructor
  · intro h
    exact ((parsesGrammar_iff (fun c hc => hc) visible_printable).1 h htaken).2 htaken (by decide)
  · intro h
    exact ((parsesGrammar_iff visible_printable fun c hc => hc).1 h
      (htaken.wider visible_printable)).2 htaken (by decide)

end Bmx.Update
