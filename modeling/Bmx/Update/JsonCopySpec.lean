import Bmx.Base.JsonValue
import Bmx.Update.JsonAcceptance

/-!
# Copies of JSON strings

`JsonCopyString` writes the value of a string and a NUL after it, and those who asked for it read it up to the first NUL.
-/

namespace Bmx.Update

open Json

/-! ### One character -/

section

variable {outputSize fuel : Nat} {rest output result : Bytes}

theorem copyString_plain {c : UInt8} (hc : c ≠ 92) (h : copyString outputSize fuel (c :: rest) output = .ok result) :
    ∃ fuel', copyString outputSize fuel' rest (output ++ [c]) = .ok result := by
  cases fuel with
  | zero => cases h
  | succ fuel =>
    unfold copyString at h
    rw [if_pos hc] at h
    unfold appendByte at h
    split at h
    · cases h
    · rename_i hnone
      split at hnone
      · cases hnone
      · cases hnone
        exact ⟨fuel, h⟩

theorem copyString_short {c : UInt8} (hc : c ≠ 117)
    (h : copyString outputSize fuel (92 :: c :: rest) output = .ok result) :
    ∃ decoded, decodeShortEscape c = some decoded ∧
      ∃ fuel', copyString outputSize fuel' rest (output ++ [decoded]) = .ok result := by
  cases fuel with
  | zero => cases h
  | succ fuel =>
    unfold copyString at h
    rw [if_neg (not_not.2 rfl)] at h
    split at h
    · cases h
    · rename_i heq
      exact absurd (List.cons.inj heq).1 hc
    · rename_i heq
      cases heq
      split at h
      · cases h
      rename_i decoded hdecoded
      unfold appendByte at h
      split at h
      · cases h
      rename_i hnone
      split at hnone
      · cases hnone
      cases hnone
      exact ⟨decoded, hdecoded, fuel, h⟩

theorem copyString_unicode {more : Bytes} {codepoint : Nat} (hdecoded : decodeUnicodeEscape more = some (codepoint, rest))
    (hvalid : codepoint.isValidChar) (h : copyString outputSize fuel (92 :: 117 :: more) output = .ok result) :
    ∃ fuel', copyString outputSize fuel' rest (output ++ utf8 codepoint) = .ok result := by
  cases fuel with
  | zero => cases h
  | succ fuel =>
    simp only [copyString_u, hdecoded] at h
    rw [appendUtf8, ← utf8_eq hvalid] at h
    split at h
    · cases h
    rename_i hnone
    split at hnone
    · cases hnone
    cases hnone
    exact ⟨fuel, h⟩

theorem copyString_plains {run : Bytes} (hrun : ∀ c ∈ run, c ≠ 92)
    (h : copyString outputSize fuel (run ++ rest) output = .ok result) :
    ∃ fuel', copyString outputSize fuel' rest (output ++ run) = .ok result := by
  induction run generalizing fuel output with
  | nil => exact ⟨fuel, by rwa [List.append_nil]⟩
  | cons c run ih =>
    obtain ⟨hc, hrun⟩ := List.forall_mem_cons.1 hrun
    obtain ⟨fuel', hrest⟩ := copyString_plain hc h
    obtain ⟨fuel', hrest⟩ := ih hrun hrest
    rw [List.append_assoc, List.singleton_append] at hrest
    exact ⟨fuel', hrest⟩

theorem decodeShortEscape_iff {c value : UInt8} : decodeShortEscape c = some value ↔ ShortValue c value := by
  constructor
  · intro h
    unfold decodeShortEscape at h
    split at h
    · rename_i hsame
      cases h
      rcases hsame with rfl | rfl | rfl
      · exact .quote
      · exact .backslash
      · exact .slash
    split at h
    · rename_i hsame
      cases h
      subst hsame
      exact .backspace
    split at h
    · rename_i hsame
      cases h
      subst hsame
      exact .formFeed
    split at h
    · rename_i hsame
      cases h
      subst hsame
      exact .lineFeed
    split at h
    · rename_i hsame
      cases h
      subst hsame
      exact .carriageReturn
    split at h
    · rename_i hsame
      cases h
      subst hsame
      exact .tab
    · cases h
  · rintro ⟨⟩ <;> rfl

theorem copyString_character {first piece : Bytes} (hfirst : CharacterValue first piece)
    (h : copyString outputSize fuel (first ++ rest) output = .ok result) :
    ∃ fuel', copyString outputSize fuel' rest (output ++ piece) = .ok result := by
  cases hfirst with
  | plain hcontrol hascii hquote hescape => exact copyString_plain hescape h
  | extended hextended =>
    refine copyString_plains (fun c hc => ?_) h
    rintro rfl
    exact absurd (hextended.beyond 92 hc) (by decide)
  | short hshort =>
    have hdecoded := decodeShortEscape_iff.2 hshort
    obtain ⟨hu, -⟩ := decodeShortEscape_standard (shortValue_iff.2 ⟨_, hshort⟩)
    obtain ⟨decoded, hsame, hrest⟩ := copyString_short hu h
    cases hdecoded.symm.trans hsame
    exact hrest
  | unicode hdigits hhigh hlow =>
    exact copyString_unicode (decodeUnicodeEscape_plain hdigits hhigh rest) (isValidChar_of_hex4 hdigits hhigh hlow) h
  | pair hfirst hhigh hsecond hlow =>
    exact copyString_unicode (decodeUnicodeEscape_pair hfirst hhigh hsecond hlow rest)
      (isValidChar_fromSurrogates hhigh hlow) h

/-! ### Whole strings -/

theorem copyString_value {text value : Bytes} (htext : Decodes text value)
    (h : copyString outputSize fuel text output = .ok result) : result = output ++ value := by
  induction htext generalizing fuel output with
  | nil =>
    cases fuel <;> cases h <;> exact (List.append_nil _).symm
  | cons hfirst hrest ih =>
    obtain ⟨fuel', hcopied⟩ := copyString_character hfirst h
    rw [ih hcopied, List.append_assoc]

/-- Where a copy is made, no NUL follows a backslash, and the string has a value. -/
theorem characters_of_copied {text : Bytes} (htext : Characters ShortEscape text)
    (h : copyString outputSize fuel text output = .ok result) : Characters StandardEscape text := by
  induction htext generalizing fuel output with
  | nil => exact .nil
  | @cons first rest hfirst hrest ih =>
    have hstandard : Character StandardEscape first := by
      cases hfirst with
      | plain hcontrol hascii hquote hescape => exact .plain hcontrol hascii hquote hescape
      | extended hextended => exact .extended hextended
      | escaped hescaped =>
        cases hescaped with
        | @single c hc =>
          rcases shortEscape_iff.1 hc with hc | rfl
          · exact .escaped (.single hc)
          · obtain ⟨decoded, hdecoded, -⟩ := copyString_short (by decide) h
            cases hdecoded
        | plain hdigits hhigh hlow => exact .escaped (.plain hdigits hhigh hlow)
        | pair hfirst hhigh hsecond hlow => exact .escaped (.pair hfirst hhigh hsecond hlow)
    obtain ⟨piece, hpiece⟩ := hstandard.value
    obtain ⟨fuel', hcopied⟩ := copyString_character hpiece h
    exact .cons hstandard (ih hcopied)

end

theorem token_characters {json : Bytes} {tokenCapacity maxDepth : Nat} {token : JsonToken}
    (h : (parseJson json tokenCapacity maxDepth).error = .ok)
    (htoken : token ∈ (parseJson json tokenCapacity maxDepth).tokens) (htype : token.type = .string) :
    Characters ShortEscape (token.text json) := by
  obtain ⟨-, forest, hdocument, -, -, htokens⟩ := parseJson_sound h
  rw [htokens] at htoken
  have hlocated := hdocument.located
  obtain ⟨-, hvalue, -⟩ := hdocument
  obtain ⟨kind, hkind, hcharacters⟩ := forestTokens_all (text_strings hvalue) hlocated 0 (-1) token htoken
  exact hcharacters (ofKind_string (hkind.symm.trans htype))

theorem jsonCopyString_value {json : Bytes} {token : JsonToken} {outputSize : Nat} {output : Bytes}
    (hcharacters : Characters ShortEscape (token.text json)) (hcopied : jsonCopyString json token outputSize = .ok output) :
    Decodes (token.text json) output ∧ ∀ value, Decodes (token.text json) value → value = output := by
  unfold jsonCopyString at hcopied
  split at hcopied
  · cases hcopied
  split at hcopied
  · cases hcopied
  have hsame (value : Bytes) (hvalue : Decodes (token.text json) value) : value = output :=
    (copyString_value hvalue hcopied).symm
  obtain ⟨value, hvalue⟩ := (characters_of_copied hcharacters hcopied).decodes
  rw [hsame value hvalue] at hvalue
  exact ⟨hvalue, hsame⟩

/-- The C string is the whole value just if no character of the string is the escape of U+0000. -/
theorem jsonCopyString_text {json : Bytes} {tokenCapacity maxDepth : Nat} {token : JsonToken} {outputSize : Nat}
    {output : Bytes} (h : (parseJson json tokenCapacity maxDepth).error = .ok)
    (htoken : token ∈ (parseJson json tokenCapacity maxDepth).tokens) (htype : token.type = .string)
    (hcopied : jsonCopyString json token outputSize = .ok output) :
    Decodes (token.text json) (cText output) ↔ ¬ EscapesNul (token.text json) := by
  obtain ⟨hvalue, honly⟩ := jsonCopyString_value (token_characters h htoken htype) hcopied
  constructor
  · intro hcopy hescapes
    obtain ⟨value, hvalue, hzero⟩ := hescapes.decodes
    rw [honly value hvalue] at hzero
    exact cText_eq_iff.1 (honly _ hcopy) hzero
  · intro hnone
    have hall : cText output = output := cText_eq_iff.2 fun hzero => hnone (hvalue.escapesNul hzero)
    rwa [hall]

/-- A line feed in place of the escape. -/
theorem jsonCopyString_text_plain :
    Decodes (JsonToken.text (ascii "[\"a\\nb\"]") ⟨.string, 2, 6, 0, 0⟩) (cText [97, 10, 98]) ∧
      ¬ EscapesNul (JsonToken.text (ascii "[\"a\\nb\"]") ⟨.string, 2, 6, 0, 0⟩) := by
  have hok : (parseJson (ascii "[\"a\\nb\"]") 8 8).error = .ok := by decide +kernel
  have htoken : (⟨.string, 2, 6, 0, 0⟩ : JsonToken) ∈ (parseJson (ascii "[\"a\\nb\"]") 8 8).tokens := by
    decide +kernel
  have hcopied : jsonCopyString (ascii "[\"a\\nb\"]") ⟨.string, 2, 6, 0, 0⟩ 16 = .ok [97, 10, 98] := by decide +kernel
  have hvalue : Decodes (JsonToken.text (ascii "[\"a\\nb\"]") ⟨.string, 2, 6, 0, 0⟩) (cText [97, 10, 98]) :=
    (jsonCopyString_value (token_characters hok htoken rfl) hcopied).1
  exact ⟨hvalue, (jsonCopyString_text hok htoken rfl hcopied).1 hvalue⟩

/-- A list of one string whose middle character is written as an escape: the reader of the copy sees only the first. -/
theorem nulEscape_ends_copy :
    ¬ ∀ (json : Bytes) (tokenCapacity maxDepth : Nat) (token : JsonToken) (outputSize : Nat) (output : Bytes),
      (parseJson json tokenCapacity maxDepth).error = .ok → token ∈ (parseJson json tokenCapacity maxDepth).tokens →
        token.type = .string → jsonCopyString json token outputSize = .ok output →
          Decodes (token.text json) (cText output) := by
  intro h
  have hok : (parseJson (ascii "[\"a\\u0000b\"]") 8 8).error = .ok := by decide +kernel
  have htoken : (⟨.string, 2, 10, 0, 0⟩ : JsonToken) ∈ (parseJson (ascii "[\"a\\u0000b\"]") 8 8).tokens := by
    decide +kernel
  have hcopied : jsonCopyString (ascii "[\"a\\u0000b\"]") ⟨.string, 2, 10, 0, 0⟩ 16 = .ok [97, 0, 98] := by decide
  obtain ⟨-, honly⟩ := jsonCopyString_value (token_characters hok htoken rfl) hcopied
  exact absurd (honly _ (h _ _ _ _ _ _ hok htoken rfl hcopied)) (by decide)

end Bmx.Update
