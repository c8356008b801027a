import Bmx.Base.JsonGrammar
import Bmx.Base.Utf8

/-!
# The values of JSON strings

What the characters between the quotes of a string stand for, in UTF-8.
-/

namespace Bmx.Json

open List

/-- The character that a short escape stands for. -/
inductive ShortValue : UInt8 → UInt8 → Prop
  | quote : ShortValue 34 34
  | backslash : ShortValue 92 92
  | slash : ShortValue 47 47
  | backspace : ShortValue 98 8
  | formFeed : ShortValue 102 12
  | lineFeed : ShortValue 110 10
  | carriageReturn : ShortValue 114 13
  | tab : ShortValue 116 9

def fromSurrogates (high low : Nat) : Nat := 0x10000 + (high - 0xd800) * 1024 + (low - 0xdc00)

inductive CharacterValue : Bytes → Bytes → Prop
  | plain {c : UInt8} (hcontrol : 0x20 ≤ c) (hascii : c < 0x80) (hquote : c ≠ 34) (hescape : c ≠ 92) :
      CharacterValue [c] [c]
  | extended {text : Bytes} (h : Extended text) : CharacterValue text text
  | short {c value : UInt8} (h : ShortValue c value) : CharacterValue [92, c] [value]
  | unicode {digits : Bytes} {value : Nat} (hdigits : Hex4 digits value) (hhigh : ¬ IsHighSurrogate value)
      (hlow : ¬ IsLowSurrogate value) : CharacterValue (92 :: 117 :: digits) (utf8 value)
  | pair {first second : Bytes} {high low : Nat} (hfirst : Hex4 first high) (hhigh : IsHighSurrogate high)
      (hsecond : Hex4 second low) (hlow : IsLowSurrogate low) :
      CharacterValue (92 :: 117 :: (first ++ 92 :: 117 :: second)) (utf8 (fromSurrogates high low))

/-- A text between quotes and its value. -/
inductive Decodes : Bytes → Bytes → Prop
  | nil : Decodes [] []
  | cons {first rest piece value : Bytes} (hfirst : CharacterValue first piece) (hrest : Decodes rest value) :
      Decodes (first ++ rest) (piece ++ value)

def nulEscape : Bytes := ascii "\\u0000"

/-- One of the characters of a text is the escape of U+0000. -/
def EscapesNul (text : Bytes) : Prop :=
  ∃ before after, Characters StandardEscape before ∧ Characters StandardEscape after ∧
    text = before ++ (nulEscape ++ after)

/-! ### Values and characters -/

variable {c : UInt8} {first piece text digits : Bytes}

theorem shortValue_iff : StandardEscape c ↔ ∃ value, ShortValue c value := by
  constructor
  · intro h
    have hlist : c ∈ [(34 : UInt8), 92, 47, 98, 102, 110, 114, 116] := h
    simp only [mem_cons, not_mem_nil, or_false] at hlist
    rcases hlist with rfl | rfl | rfl | rfl | rfl | rfl | rfl | rfl
    · exact ⟨_, .quote⟩
    · exact ⟨_, .backslash⟩
    · exact ⟨_, .slash⟩
    · exact ⟨_, .backspace⟩
    · exact ⟨_, .formFeed⟩
    · exact ⟨_, .lineFeed⟩
    · exact ⟨_, .carriageReturn⟩
    · exact ⟨_, .tab⟩
  · rintro ⟨value, h⟩
    unfold StandardEscape
    cases h <;> decide

theorem CharacterValue.character (h : CharacterValue first piece) : Character StandardEscape first := by
  cases h with
  | plain hcontrol hascii hquote hescape => exact .plain hcontrol hascii hquote hescape
  | extended h => exact .extended h
  | short h => exact .escaped (.single (shortValue_iff.2 ⟨_, h⟩))
  | unicode hdigits hhigh hlow => exact .escaped (.plain hdigits hhigh hlow)
  | pair hfirst hhigh hsecond hlow => exact .escaped (.pair hfirst hhigh hsecond hlow)

theorem Character.value (h : Character StandardEscape first) : ∃ piece, CharacterValue first piece := by
  cases h with
  | plain hcontrol hascii hquote hescape => exact ⟨_, .plain hcontrol hascii hquote hescape⟩
  | extended h => exact ⟨_, .extended h⟩
  | escaped h =>
    cases h with
    | single h =>
      obtain ⟨value, hvalue⟩ := shortValue_iff.1 h
      exact ⟨_, .short hvalue⟩
    | plain hdigits hhigh hlow => exact ⟨_, .unicode hdigits hhigh hlow⟩
    | pair hfirst hhigh hsecond hlow => exact ⟨_, .pair hfirst hhigh hsecond hlow⟩

theorem Decodes.characters {value : Bytes} (h : Decodes text value) : Characters StandardEscape text := by
  induction h with
  | nil => exact .nil
  | cons hfirst hrest ih => exact .cons hfirst.character ih

theorem Characters.decodes (h : Characters StandardEscape text) : ∃ value, Decodes text value := by
  induction h with
  | nil => exact ⟨[], .nil⟩
  | cons hfirst hrest ih =>
    obtain ⟨piece, hpiece⟩ := hfirst.value
    obtain ⟨value, hvalue⟩ := ih
    exact ⟨piece ++ value, .cons hpiece hvalue⟩

theorem Decodes.append {first second value value' : Bytes} (h : Decodes first value) (h' : Decodes second value') :
    Decodes (first ++ second) (value ++ value') := by
  induction h with
  | nil => exact h'
  | cons hfirst hrest ih =>
    rw [append_assoc, append_assoc]
    exact .cons hfirst ih

/-! ### U+0000 -/

theorem isValidChar_of_hex4 {value : Nat} (hdigits : Hex4 digits value)
    (hhigh : ¬ IsHighSurrogate value) (hlow : ¬ IsLowSurrogate value) : value.isValidChar := by
  have hlt := hdigits.lt
  unfold IsHighSurrogate at hhigh
  unfold IsLowSurrogate at hlow
  unfold Nat.isValidChar
  omega

theorem isValidChar_fromSurrogates {high low : Nat} (hhigh : IsHighSurrogate high) (hlow : IsLowSurrogate low) :
    (fromSurrogates high low).isValidChar := by
  unfold IsHighSurrogate at hhigh
  unfold IsLowSurrogate at hlow
  unfold Nat.isValidChar fromSurrogates
  omega

theorem hexDigit_zero (h : hexDigit c = some 0) : c = 48 := by
  unfold hexDigit at h
  split at h
  · rename_i hdigit
    have hlow : 48 ≤ c.toNat := hdigit.1
    have hvalue : c.toNat - 48 = 0 := Option.some.inj h
    exact UInt8.toNat_inj.1 (show c.toNat = 48 by omega)
  split at h
  · exact absurd (Option.some.inj h) (by omega)
  split at h
  · exact absurd (Option.some.inj h) (by omega)
  · cases h

theorem hex4_zero {value : Nat} (h : Hex4 digits value) (hzero : value = 0) : digits = ascii "0000" := by
  obtain @⟨a, b, c, d, va, vb, vc, vd, ha, hb, hc, hd⟩ := h
  obtain ⟨rfl, rfl, rfl, rfl⟩ : va = 0 ∧ vb = 0 ∧ vc = 0 ∧ vd = 0 := by omega
  rw [hexDigit_zero ha, hexDigit_zero hb, hexDigit_zero hc, hexDigit_zero hd]
  rfl

theorem CharacterValue.zero_mem (h : CharacterValue first piece) (hzero : 0 ∈ piece) : first = nulEscape := by
  cases h with
  | @plain c hcontrol hascii hquote hescape =>
    obtain rfl := mem_singleton.1 hzero
    exact absurd hcontrol (by decide)
  | extended h => exact absurd (h.beyond 0 hzero) (by decide)
  | short h => cases h <;> exact absurd hzero (by decide)
  | unicode hdigits hhigh hlow =>
    have hvalue := (utf8_zero_mem (isValidChar_of_hex4 hdigits hhigh hlow)).1 hzero
    rw [hex4_zero hdigits hvalue]
    rfl
  | pair hfirst hhigh hsecond hlow =>
    have hvalue := (utf8_zero_mem (isValidChar_fromSurrogates hhigh hlow)).1 hzero
    unfold fromSurrogates at hvalue
    omega

theorem Decodes.escapesNul {value : Bytes} (h : Decodes text value) (hzero : 0 ∈ value) : EscapesNul text := by
  induction h with
  | nil => exact absurd hzero not_mem_nil
  | @cons first rest piece value hfirst hrest ih =>
    rcases mem_append.1 hzero with hzero | hzero
    · exact ⟨[], rest, .nil, hrest.characters, by rw [hfirst.zero_mem hzero, nil_append]⟩
    · obtain ⟨before, after, hbefore, hafter, htext⟩ := ih hzero
      exact ⟨first ++ before, after, .cons hfirst.character hbefore, hafter, by rw [htext, append_assoc]⟩

theorem EscapesNul.decodes (h : EscapesNul text) : ∃ value, Decodes text value ∧ 0 ∈ value := by
  obtain ⟨before, after, hbefore, hafter, rfl⟩ := h
  obtain ⟨value, hvalue⟩ := hbefore.decodes
  obtain ⟨value', hvalue'⟩ := hafter.decodes
  have hdigits : Hex4 (ascii "0000") 0 :=
    @Hex4.mk 48 48 48 48 0 0 0 0 (by decide) (by decide) (by decide) (by decide)
  have hnul : CharacterValue nulEscape (utf8 0) :=
    .unicode hdigits (fun hhigh => absurd hhigh.1 (by decide)) fun hlow => absurd hlow.1 (by decide)
  refine ⟨value ++ (utf8 0 ++ value'), hvalue.append (.cons hnul hvalue'), ?_⟩
  apply mem_append_right
  apply mem_append_left
  exact (utf8_zero_mem (by decide)).2 rfl

end Bmx.Json
