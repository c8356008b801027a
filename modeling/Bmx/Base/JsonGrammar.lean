import Bmx.Base.Bytes

/-!
# The grammar of JSON texts

The lexical rules of RFC 8259 over bytes, with the characters of RFC 3629 beyond ASCII. What may
follow a backslash by itself is a parameter.
-/

namespace Bmx.Json

open List

/-! ### Whitespace and numbers -/

def isWhitespace (c : UInt8) : Bool := c = 0x20 ∨ c = 0x09 ∨ c = 0x0d ∨ c = 0x0a

def isDigit (c : UInt8) : Bool := 48 ≤ c ∧ c ≤ 57

def Spaces (text : Bytes) : Prop := ∀ c ∈ text, isWhitespace c = true

def Digits (text : Bytes) : Prop := text ≠ [] ∧ ∀ c ∈ text, isDigit c = true

inductive Integer : Bytes → Prop
  | zero : Integer [48]
  | digits {digit : UInt8} {more : Bytes} (hdigit : isDigit digit = true) (hnonzero : digit ≠ 48)
      (hmore : ∀ c ∈ more, isDigit c = true) : Integer (digit :: more)

inductive Fraction : Bytes → Prop
  | absent : Fraction []
  | present {digits : Bytes} (h : Digits digits) : Fraction (46 :: digits)

inductive Exponent : Bytes → Prop
  | absent : Exponent []
  | present {e : UInt8} {sign digits : Bytes} (he : e = 101 ∨ e = 69)
      (hsign : sign = [] ∨ sign = [43] ∨ sign = [45]) (h : Digits digits) :
      Exponent (e :: (sign ++ digits))

inductive Number : Bytes → Prop
  | mk {minus integer fraction exponent : Bytes} (hminus : minus = [] ∨ minus = [45])
      (hinteger : Integer integer) (hfraction : Fraction fraction) (hexponent : Exponent exponent) :
      Number (minus ++ integer ++ fraction ++ exponent)

/-! ### Strings -/

/-- A byte that continues a character. -/
def Continues (c : UInt8) : Prop := 0x80 ≤ c ∧ c ≤ 0xbf

/-- A character beyond ASCII. -/
inductive Extended : Bytes → Prop
  | two {a b : UInt8} (ha : 0xc2 ≤ a ∧ a ≤ 0xdf) (hb : Continues b) : Extended [a, b]
  | three {a b c : UInt8} (ha : 0xe0 ≤ a ∧ a ≤ 0xef) (hb : Continues b) (hc : Continues c)
      (hshort : a = 0xe0 → 0xa0 ≤ b) (hsurrogate : a = 0xed → b ≤ 0x9f) : Extended [a, b, c]
  | four {a b c d : UInt8} (ha : 0xf0 ≤ a ∧ a ≤ 0xf4) (hb : Continues b) (hc : Continues c)
      (hd : Continues d) (hshort : a = 0xf0 → 0x90 ≤ b) (hlarge : a = 0xf4 → b ≤ 0x8f) :
      Extended [a, b, c, d]

def hexDigit (c : UInt8) : Option Nat :=
  if 48 ≤ c ∧ c ≤ 57 then some (c.toNat - 48)
  else if 97 ≤ c ∧ c ≤ 102 then some (c.toNat - 97 + 10)
  else if 65 ≤ c ∧ c ≤ 70 then some (c.toNat - 65 + 10)
  else none

/-- Four hexadecimal digits and their value. -/
inductive Hex4 : Bytes → Nat → Prop
  | mk {a b c d : UInt8} {va vb vc vd : Nat} (ha : hexDigit a = some va) (hb : hexDigit b = some vb)
      (hc : hexDigit c = some vc) (hd : hexDigit d = some vd) :
      Hex4 [a, b, c, d] (((va * 16 + vb) * 16 + vc) * 16 + vd)

def IsHighSurrogate (value : Nat) : Prop := 0xd800 ≤ value ∧ value ≤ 0xdbff

def IsLowSurrogate (value : Nat) : Prop := 0xdc00 ≤ value ∧ value ≤ 0xdfff

/-- What follows a backslash. -/
inductive Escape (single : UInt8 → Prop) : Bytes → Prop
  | single {c : UInt8} (h : single c) : Escape single [c]
  | plain {digits : Bytes} {value : Nat} (hdigits : Hex4 digits value) (hhigh : ¬ IsHighSurrogate value)
      (hlow : ¬ IsLowSurrogate value) : Escape single (117 :: digits)
  | pair {first second : Bytes} {high low : Nat} (hfirst : Hex4 first high) (hhigh : IsHighSurrogate high)
      (hsecond : Hex4 second low) (hlow : IsLowSurrogate low) :
      Escape single (117 :: (first ++ 92 :: 117 :: second))

inductive Character (single : UInt8 → Prop) : Bytes → Prop
  | plain {c : UInt8} (hcontrol : 0x20 ≤ c) (hascii : c < 0x80) (hquote : c ≠ 34) (hescape : c ≠ 92) :
      Character single [c]
  | extended {text : Bytes} (h : Extended text) : Character single text
  | escaped {text : Bytes} (h : Escape single text) : Character single (92 :: text)

/-- What stands between the quotes of a string. -/
inductive Characters (single : UInt8 → Prop) : Bytes → Prop
  | nil : Characters single []
  | cons {first rest : Bytes} (hfirst : Character single first) (hrest : Characters single rest) :
      Characters single (first ++ rest)

/-- The characters that are escaped by a backslash alone. -/
def StandardEscape (c : UInt8) : Prop := c ∈ ascii "\"\\/bfnrt"

/-! ### Facts -/

variable {text digits : Bytes} {c : UInt8} {value : Nat} {single single' : UInt8 → Prop}

theorem Integer.first (h : Integer text) : ∃ digit more, text = digit :: more ∧ isDigit digit = true := by
  cases h with
  | zero => exact ⟨48, [], rfl, by decide⟩
  | digits hdigit hnonzero hmore => exact ⟨_, _, rfl, hdigit⟩

theorem Fraction.head (h : Fraction text) : ∀ x ∈ text.head?, isDigit x = false ∧ x ≠ 45 := by
  cases h with
  | absent => exact fun x hx => absurd hx (Option.not_mem_none x)
  | present hdigits =>
    intro x hx
    obtain rfl := Option.mem_some_iff.1 hx
    decide

theorem Exponent.head (h : Exponent text) : ∀ x ∈ text.head?, isDigit x = false ∧ x ≠ 46 := by
  cases h with
  | absent => exact fun x hx => absurd hx (Option.not_mem_none x)
  | present he hsign hdigits =>
    intro x hx
    obtain rfl := Option.mem_some_iff.1 hx
    rcases he with rfl | rfl <;> decide

theorem hexDigit_lt (h : hexDigit c = some value) : value < 16 := by
  unfold hexDigit at h
  split at h
  · rename_i hrange
    cases h
    have hle : c.toNat ≤ 57 := hrange.2
    omega
  split at h
  · rename_i hrange
    cases h
    have hle : c.toNat ≤ 102 := hrange.2
    omega
  split at h
  · rename_i hrange
    cases h
    have hle : c.toNat ≤ 70 := hrange.2
    omega
  · cases h

theorem Hex4.lt (h : Hex4 digits value) : value < 65536 := by
  obtain ⟨ha, hb, hc, hd⟩ := h
  have hla := hexDigit_lt ha
  have hlb := hexDigit_lt hb
  have hlc := hexDigit_lt hc
  have hld := hexDigit_lt hd
  omega

theorem Hex4.length (h : Hex4 digits value) : digits.length = 4 := by
  obtain ⟨-, -, -, -⟩ := h
  rfl

theorem Character.of_mem (h : Character single text)
    (hsingle : ∀ c ∈ text, single c → single' c) : Character single' text := by
  cases h with
  | plain hcontrol hascii hquote hescape => exact .plain hcontrol hascii hquote hescape
  | extended hextended => exact .extended hextended
  | escaped hescaped =>
    refine .escaped ?_
    cases hescaped with
    | @single c hc => exact .single (hsingle c (mem_cons_of_mem _ mem_cons_self) hc)
    | plain hdigits hhigh hlow => exact .plain hdigits hhigh hlow
    | pair hfirst hhigh hsecond hlow => exact .pair hfirst hhigh hsecond hlow

theorem Characters.of_mem (h : Characters single text)
    (hsingle : ∀ c ∈ text, single c → single' c) : Characters single' text := by
  induction h with
  | nil => exact .nil
  | cons hfirst hrest ih =>
    refine .cons (hfirst.of_mem fun c hc => ?_) (ih fun c hc => ?_)
    · exact hsingle c (mem_append_left _ hc)
    · exact hsingle c (mem_append_right _ hc)

/-! ### The bytes of a text -/

theorem isDigit_printable (h : isDigit c = true) : 0x20 ≤ c :=
  UInt8.le_trans (by decide) (of_decide_eq_true h).1

theorem Integer.printable (h : Integer text) : ∀ c ∈ text, 0x20 ≤ c := by
  cases h with
  | zero => exact forall_mem_singleton.2 (by decide)
  | digits hdigit hnonzero hmore =>
    exact forall_mem_cons.2 ⟨isDigit_printable hdigit, fun c hc => isDigit_printable (hmore c hc)⟩

theorem Fraction.printable (h : Fraction text) : ∀ c ∈ text, 0x20 ≤ c := by
  cases h with
  | absent => exact fun c hc => absurd hc not_mem_nil
  | present hdigits =>
    exact forall_mem_cons.2 ⟨by decide, fun c hc => isDigit_printable (hdigits.2 c hc)⟩

theorem Exponent.printable (h : Exponent text) : ∀ c ∈ text, 0x20 ≤ c := by
  cases h with
  | absent => exact fun c hc => absurd hc not_mem_nil
  | @present e sign digits he hsign hdigits =>
    have hfirst : 0x20 ≤ e := by rcases he with rfl | rfl <;> decide
    have hsecond : ∀ c ∈ sign, 0x20 ≤ c := by
      rcases hsign with rfl | rfl | rfl
      · exact fun c hc => absurd hc not_mem_nil
      all_goals exact forall_mem_singleton.2 (by decide)
    refine forall_mem_cons.2 ⟨hfirst, forall_mem_append.2 ⟨hsecond, ?_⟩⟩
    exact fun c hc => isDigit_printable (hdigits.2 c hc)

theorem Number.printable (h : Number text) : ∀ c ∈ text, 0x20 ≤ c := by
  obtain ⟨hminus, hinteger, hfraction, hexponent⟩ := h
  rename_i minus integer fraction exponent
  have hfirst : ∀ c ∈ minus, 0x20 ≤ c := by
    rcases hminus with rfl | rfl
    · exact fun c hc => absurd hc not_mem_nil
    · exact forall_mem_singleton.2 (by decide)
  exact forall_mem_append.2 ⟨forall_mem_append.2 ⟨forall_mem_append.2
    ⟨hfirst, hinteger.printable⟩, hfraction.printable⟩, hexponent.printable⟩

theorem Extended.beyond (h : Extended text) : ∀ c ∈ text, 0x80 ≤ c := by
  have hcontinues : ∀ {c : UInt8}, Continues c → 0x80 ≤ c := fun h => h.1
  cases h with
  | two ha hb =>
    exact forall_mem_cons.2 ⟨UInt8.le_trans (by decide) ha.1,
      forall_mem_singleton.2 (hcontinues hb)⟩
  | three ha hb hc hshort hsurrogate =>
    exact forall_mem_cons.2 ⟨UInt8.le_trans (by decide) ha.1, forall_mem_cons.2
      ⟨hcontinues hb, forall_mem_singleton.2 (hcontinues hc)⟩⟩
  | four ha hb hc hd hshort hlarge =>
    exact forall_mem_cons.2 ⟨UInt8.le_trans (by decide) ha.1, forall_mem_cons.2
      ⟨hcontinues hb, forall_mem_cons.2 ⟨hcontinues hc, forall_mem_singleton.2 (hcontinues hd)⟩⟩⟩

theorem hexDigit_printable (h : hexDigit c = some value) : 0x20 ≤ c := by
  by_contra hnot
  have hlow : c < 48 := UInt8.lt_trans (UInt8.not_le.1 hnot) (by decide)
  have hrange : ∀ {first last : UInt8}, 48 ≤ first → ¬ (first ≤ c ∧ c ≤ last) := fun hle hin =>
    UInt8.not_le.2 hlow (UInt8.le_trans hle hin.1)
  unfold hexDigit at h
  rw [if_neg (hrange (by decide)), if_neg (hrange (by decide)), if_neg (hrange (by decide))] at h
  cases h

theorem Hex4.printable (h : Hex4 digits value) : ∀ c ∈ digits, 0x20 ≤ c := by
  obtain ⟨ha, hb, hc, hd⟩ := h
  exact forall_mem_cons.2 ⟨hexDigit_printable ha, forall_mem_cons.2
    ⟨hexDigit_printable hb, forall_mem_cons.2 ⟨hexDigit_printable hc, forall_mem_singleton.2 (hexDigit_printable hd)⟩⟩⟩

theorem Escape.mem (h : Escape single text) : ∀ c ∈ text, 0x20 ≤ c ∨ single c := by
  cases h with
  | single hc => exact forall_mem_singleton.2 (.inr hc)
  | plain hdigits hhigh hlow =>
    exact forall_mem_cons.2 ⟨.inl (by decide), fun c hc => .inl (hdigits.printable c hc)⟩
  | pair hfirst hhigh hsecond hlow =>
    refine fun c hc => .inl ?_
    refine (forall_mem_cons (p := fun c => 0x20 ≤ c)).2 ⟨by decide, forall_mem_append.2
      ⟨hfirst.printable, forall_mem_cons.2 ⟨by decide, forall_mem_cons.2
        ⟨by decide, hsecond.printable⟩⟩⟩⟩ c hc

theorem Characters.mem (h : Characters single text) : ∀ c ∈ text, 0x20 ≤ c ∨ single c := by
  induction h with
  | nil => exact fun c hc => absurd hc not_mem_nil
  | cons hfirst hrest ih =>
    refine forall_mem_append.2 ⟨?_, ih⟩
    cases hfirst with
    | plain hcontrol hascii hquote hescape => exact forall_mem_singleton.2 (.inl hcontrol)
    | extended hextended => exact fun c hc => .inl (UInt8.le_trans (by decide) (hextended.beyond c hc))
    | escaped hescaped => exact forall_mem_cons.2 ⟨.inl (by decide), hescaped.mem⟩

end Bmx.Json
