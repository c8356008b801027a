import Mathlib.Data.List.Forall2
import Mathlib.Data.List.Induction
import Bmx.Switch.NetworkReaders

/-!
# The numbers of boot options

The addresses that the kernel understands are those of four numbers with dots between them. A decimal number is
summed up in 32 bits, and a check after each digit is to find the numbers that are too large.
-/

namespace Bmx.Switch

open List Option

/-! ### Addresses -/

/-- The digits of a number of an address. -/
def Octet (digits : Bytes) (value : UInt8) : Prop :=
  digits ≠ [] ∧ (∀ c ∈ digits, isDigit c) ∧ digitsValue digits = value.toNat

/-- Four numbers with dots between them. -/
def Dotted (text : Bytes) (address : Ipv4) : Prop :=
  ∃ numbers : List Bytes, numbers.length = 4 ∧ text = joined 46 numbers ∧ List.Forall₂ Octet numbers address

def digitsFrom (value : Nat) (digits : Bytes) : Nat := digits.foldl (fun value c => value * 10 + (c.toNat - 48)) value

theorem le_digitsFrom (value : Nat) (digits : Bytes) : value ≤ digitsFrom value digits := by
  induction digits generalizing value with
  | nil => exact le_refl value
  | cons c digits ih =>
    have hnext := ih (value * 10 + (c.toNat - 48))
    exact le_trans (by omega) hnext

theorem parseNumber_eq {value : Nat} (hvalue : value ≤ 255) (text : Bytes) :
    parseNumber value text =
      if digitsFrom value (text.takeWhile isDigit) ≤ 255 then
        some (digitsFrom value (text.takeWhile isDigit), text.dropWhile isDigit)
      else none := by
  induction text generalizing value with
  | nil => simp [parseNumber, digitsFrom, hvalue]
  | cons c rest ih =>
    rw [parseNumber]
    by_cases hdigit : isDigit c
    · rw [if_pos hdigit, takeWhile_cons_of_pos hdigit, dropWhile_cons_of_pos hdigit]
      have hnext : digitsFrom value (c :: rest.takeWhile isDigit) =
          digitsFrom (value * 10 + (c.toNat - 48)) (rest.takeWhile isDigit) := rfl
      split
      next hlarge =>
        have hle := le_digitsFrom (value * 10 + (c.toNat - 48)) (rest.takeWhile isDigit)
        rw [if_neg (by omega)]
      next hsmall => exact ih (by omega)
    · rw [if_neg hdigit, takeWhile_cons_of_neg hdigit, dropWhile_cons_of_neg hdigit]
      simp [digitsFrom, hvalue]

/-- The digits at the begin of a text make a number of an address. -/
def StartsWithOctet (text : Bytes) : Prop :=
  text.takeWhile isDigit ≠ [] ∧ digitsValue (text.takeWhile isDigit) ≤ 255

instance (text : Bytes) : Decidable (StartsWithOctet text) := inferInstanceAs (Decidable (_ ∧ _))

theorem parseNumber_start {c : UInt8} {rest : Bytes} (hdigit : isDigit c) :
    parseNumber 0 (c :: rest) =
      if StartsWithOctet (c :: rest) then
        some (digitsValue ((c :: rest).takeWhile isDigit), (c :: rest).dropWhile isDigit)
      else none := by
  have hne : (c :: rest).takeWhile isDigit ≠ [] := by simp [hdigit]
  have hnumber := @parseNumber_eq 0 (by omega) (c :: rest)
  have hvalue : digitsFrom 0 ((c :: rest).takeWhile isDigit) = digitsValue ((c :: rest).takeWhile isDigit) := rfl
  rw [hvalue] at hnumber
  rw [hnumber]
  by_cases hsmall : digitsValue ((c :: rest).takeWhile isDigit) ≤ 255
  · have hstarts : StartsWithOctet (c :: rest) := ⟨hne, hsmall⟩
    rw [if_pos hsmall, if_pos hstarts]
  · have hstarts : ¬ StartsWithOctet (c :: rest) := fun h => hsmall h.2
    rw [if_neg hsmall, if_neg hstarts]

variable {text : Bytes} {address : Ipv4} {dots : Nat}

theorem not_startsWithOctet (h : ∀ c ∈ text.head?, isDigit c = false) : ¬ StartsWithOctet text := by
  intro hstarts
  cases text with
  | nil => exact hstarts.1 rfl
  | cons c rest =>
    have hc := h c rfl
    exact hstarts.1 (takeWhile_cons_of_neg (by simp [hc]))

theorem parseIpv4From_zero_eq (text : Bytes) :
    parseIpv4From 0 text =
      if StartsWithOctet text ∧ text.dropWhile isDigit = [] then
        some [UInt8.ofNat (digitsValue (text.takeWhile isDigit))]
      else none := by
  cases text with
  | nil =>
    rfl
  | cons c rest =>
    rw [parseIpv4From.eq_def]
    by_cases hdigit : isDigit c
    · simp only [if_pos hdigit, parseNumber_start hdigit]
      by_cases hstarts : StartsWithOctet (c :: rest)
      · simp [hstarts]
      · simp [hstarts]
    · rw [if_neg fun h => not_startsWithOctet (by simpa using hdigit) h.1]
      simp only [if_neg hdigit]

theorem parseIpv4From_succ_eq (dots : Nat) (text : Bytes) :
    parseIpv4From (dots + 1) text =
      if StartsWithOctet text then
        match text.dropWhile isDigit with
        | 46 :: cursor =>
          (parseIpv4From dots cursor).map fun parts => UInt8.ofNat (digitsValue (text.takeWhile isDigit)) :: parts
        | _ => none
      else none := by
  cases text with
  | nil =>
    rfl
  | cons c rest =>
    conv => lhs; rw [parseIpv4From.eq_def]
    by_cases hdigit : isDigit c
    · simp only [if_pos hdigit, parseNumber_start hdigit]
      by_cases hstarts : StartsWithOctet (c :: rest)
      · simp only [if_pos hstarts]
        rfl
      · simp only [if_neg hstarts]
    · rw [if_neg (not_startsWithOctet (by simpa using hdigit))]
      simp only [if_neg hdigit]

theorem octet_takeWhile {value : UInt8} :
    Octet (text.takeWhile isDigit) value ↔
      StartsWithOctet text ∧ value = UInt8.ofNat (digitsValue (text.takeWhile isDigit)) := by
  constructor
  · rintro ⟨hne, -, hvalue⟩
    have hlt := value.toNat_lt
    refine ⟨⟨hne, by omega⟩, ?_⟩
    rw [hvalue, UInt8.ofNat_toNat]
  · rintro ⟨⟨hne, hsmall⟩, hvalue⟩
    have hdigits : ∀ c ∈ text.takeWhile isDigit, isDigit c := fun c hc => mem_takeWhile_imp hc
    refine ⟨hne, hdigits, ?_⟩
    rw [hvalue, UInt8.toNat_ofNat', Nat.mod_eq_of_lt (by omega)]

theorem digits_split {digits rest : Bytes} (hdigits : ∀ c ∈ digits, isDigit c)
    (hrest : ∀ c ∈ rest.head?, isDigit c = false) :
    (digits ++ rest).takeWhile isDigit = digits ∧ (digits ++ rest).dropWhile isDigit = rest := by
  have hstop : rest.takeWhile isDigit = [] ∧ rest.dropWhile isDigit = rest := by
    cases rest with
    | nil => exact ⟨rfl, rfl⟩
    | cons c rest =>
      have hc := hrest c rfl
      exact ⟨takeWhile_cons_of_neg (by simp [hc]), dropWhile_cons_of_neg (by simp [hc])⟩
  rw [takeWhile_append_of_pos hdigits, dropWhile_append_of_pos hdigits, hstop.1, hstop.2]
  exact ⟨append_nil _, rfl⟩

theorem parseIpv4From_zero :
    parseIpv4From 0 text = some address ↔ ∃ value, Octet text value ∧ address = [value] := by
  rw [parseIpv4From_zero_eq]
  constructor
  · intro h
    split at h
    next hnumber =>
      have hoctet := octet_takeWhile.2 ⟨hnumber.1, rfl⟩
      have htext := @takeWhile_append_dropWhile _ isDigit text
      rw [hnumber.2, append_nil] at htext
      rw [htext] at hoctet h
      exact ⟨_, hoctet, (some.inj h).symm⟩
    next => exact absurd h (by simp)
  · rintro ⟨value, hoctet, rfl⟩
    obtain ⟨htake, hdrop⟩ := @digits_split text [] hoctet.2.1 (by simp)
    rw [append_nil] at htake hdrop
    have hnumber := octet_takeWhile.1 (htake.symm ▸ hoctet)
    rw [if_pos ⟨hnumber.1, hdrop⟩, hnumber.2]

theorem parseIpv4From_succ :
    parseIpv4From (dots + 1) text = some address ↔
      ∃ digits cursor value parts, text = digits ++ 46 :: cursor ∧ Octet digits value ∧
        parseIpv4From dots cursor = some parts ∧ address = value :: parts := by
  rw [parseIpv4From_succ_eq]
  constructor
  · intro h
    split at h
    next hnumber =>
      have hoctet := octet_takeWhile.2 ⟨hnumber, rfl⟩
      have htext := @takeWhile_append_dropWhile _ isDigit text
      split at h
      next cursor hdrop =>
        obtain ⟨parts, hparts, haddress⟩ := map_eq_some_iff.1 h
        rw [hdrop] at htext
        exact ⟨_, cursor, _, parts, htext.symm, hoctet, hparts, haddress.symm⟩
      next => exact absurd h (by simp)
    next => exact absurd h (by simp)
  · rintro ⟨digits, cursor, value, parts, rfl, hoctet, hparts, rfl⟩
    obtain ⟨htake, hdrop⟩ := @digits_split digits (46 :: cursor) hoctet.2.1 (by simp [isDigit])
    have hnumber := octet_takeWhile.1 (htake.symm ▸ hoctet)
    rw [if_pos hnumber.1, ← hnumber.2]
    simp only [hdrop, hparts, map_some]

theorem parseIpv4From_iff :
    parseIpv4From dots text = some address ↔
      ∃ numbers : List Bytes, numbers.length = dots + 1 ∧ text = joined 46 numbers ∧
        List.Forall₂ Octet numbers address := by
  induction dots generalizing text address with
  | zero =>
    rw [parseIpv4From_zero]
    constructor
    · rintro ⟨value, hoctet, rfl⟩
      exact ⟨[text], rfl, rfl, .cons hoctet .nil⟩
    · rintro ⟨numbers, hlength, rfl, hoctets⟩
      obtain ⟨digits, rfl⟩ := length_eq_one_iff.1 hlength
      obtain ⟨value, rest, hoctet, hnil, rfl⟩ := forall₂_cons_left_iff.1 hoctets
      rw [forall₂_nil_left_iff.1 hnil]
      exact ⟨value, hoctet, rfl⟩
  | succ dots ih =>
    rw [parseIpv4From_succ]
    constructor
    · rintro ⟨digits, cursor, value, parts, rfl, hoctet, hparts, rfl⟩
      obtain ⟨numbers, hlength, rfl, hoctets⟩ := ih.1 hparts
      refine ⟨digits :: numbers, by rw [length_cons, hlength], ?_, .cons hoctet hoctets⟩
      cases numbers with
      | nil => cases hlength
      | cons next numbers => rfl
    · rintro ⟨numbers, hlength, rfl, hoctets⟩
      cases hoctets with
      | nil => cases hlength
      | @cons digits value numbers parts hoctet hoctets =>
        rw [length_cons, Nat.add_right_cancel_iff] at hlength
        refine ⟨digits, joined 46 numbers, value, parts, ?_, hoctet, ih.2 ⟨numbers, hlength, rfl, hoctets⟩, rfl⟩
        cases numbers with
        | nil => cases hlength
        | cons next numbers => rfl

theorem parseIpv4_iff : parseIpv4 text = some address ↔ Dotted text address :=
  parseIpv4From_iff

/-- The addresses are taken over, and nothing else. -/
def StoresAddress (text : Bytes) (out : Ipv4) : Prop :=
  (∀ address, Dotted text address → storeIpv4 text out = (true, address)) ∧
    ((¬ ∃ address, Dotted text address) → storeIpv4 text out = (false, out))

theorem storesAddress (text : Bytes) (out : Ipv4) : StoresAddress text out := by
  constructor
  · intro address hdotted
    have hparse := parseIpv4_iff.2 hdotted
    rw [storeIpv4, hparse]
  · intro hnone
    have hparse : parseIpv4 text = none := by
      by_contra hsome
      obtain ⟨address, haddress⟩ := ne_none_iff_exists'.1 hsome
      exact hnone ⟨address, parseIpv4_iff.1 haddress⟩
    rw [storeIpv4, hparse]

/-! ### Decimal numbers -/

theorem digitsValue_concat (digits : Bytes) (c : UInt8) :
    digitsValue (digits ++ [c]) = digitsValue digits * 10 + (c.toNat - 48) := by
  rw [digitsValue, digitsValue, foldl_append]
  rfl

theorem digitsValue_le_append (before after : Bytes) : digitsValue before ≤ digitsValue (before ++ after) := by
  have hvalue : digitsValue (before ++ after) = digitsFrom (digitsValue before) after := foldl_append
  rw [hvalue]
  exact le_digitsFrom _ _

/-- The check after a digit stops: the 32-bit sum fell, or it is the invalid value. -/
def Stops (before : Bytes) (c : UInt8) : Prop :=
  digitsValue (before ++ [c]) % 2 ^ 32 < digitsValue before % 2 ^ 32 ∨ digitsValue (before ++ [c]) % 2 ^ 32 = 2 ^ 32 - 1

/-- The check stops at a digit of the text. -/
def WrapSeen (text : Bytes) : Prop := ∃ before c after, text = before ++ c :: after ∧ Stops before c

/-- The exact number, none where there is none below the invalid value. -/
def DecimalExact (text : Bytes) : Prop :=
  getDecimal text =
    if text ≠ [] ∧ (∀ c ∈ text, isDigit c) ∧ digitsValue text < 2 ^ 32 - 1 then some (digitsValue text) else none

theorem getDecimalFrom_some {before after : Bytes} {result : Nat} :
    getDecimalFrom (digitsValue before % 2 ^ 32) after = some result ↔
      (∀ c ∈ after, isDigit c) ∧ (∀ first c rest, after = first ++ c :: rest → ¬ Stops (before ++ first) c) ∧
        result = digitsValue (before ++ after) % 2 ^ 32 := by
  induction after generalizing before with
  | nil =>
    rw [append_nil, getDecimalFrom, some_inj]
    constructor
    · intro h
      exact ⟨fun c hc => absurd hc not_mem_nil, fun first c rest hsplit => by simp at hsplit, h.symm⟩
    · rintro ⟨-, -, hresult⟩
      exact hresult.symm
  | cons c rest ih =>
    have hnext : (digitsValue before % 2 ^ 32 * 10 + (c.toNat - 48)) % 2 ^ 32 =
        digitsValue (before ++ [c]) % 2 ^ 32 := by
      rw [digitsValue_concat]
      omega
    have hrest := @ih (before ++ [c])
    rw [append_assoc, singleton_append] at hrest
    rw [getDecimalFrom]
    simp only [hnext]
    by_cases hdigit : isDigit c
    · rw [if_neg (not_not.2 hdigit)]
      by_cases hstops : Stops before c
      · have hchecked := hstops
        unfold Stops at hchecked
        rw [if_pos hchecked]
        constructor
        · intro h
          cases h
        · rintro ⟨-, hnone, -⟩
          have hfirst := hnone [] c rest rfl
          rw [append_nil] at hfirst
          exact absurd hstops hfirst
      · have hchecked := hstops
        unfold Stops at hchecked
        rw [if_neg hchecked, hrest]
        constructor
        · rintro ⟨hdigits, hnone, hresult⟩
          refine ⟨fun d hd => ?_, fun first d later hsplit => ?_, hresult⟩
          · rcases mem_cons.1 hd with rfl | hd
            · exact hdigit
            · exact hdigits d hd
          · cases first with
            | nil =>
              cases hsplit
              rw [append_nil]
              exact hstops
            | cons d' first =>
              cases hsplit
              have hlater := hnone first d later rfl
              rwa [append_assoc, singleton_append] at hlater
        · rintro ⟨hdigits, hnone, hresult⟩
          refine ⟨fun d hd => hdigits d (mem_cons_of_mem _ hd), fun first d later hsplit => ?_, hresult⟩
          have hlater := hnone (c :: first) d later (by rw [hsplit, cons_append])
          rwa [append_assoc, singleton_append]
    · rw [if_pos hdigit]
      constructor
      · intro h
        cases h
      · rintro ⟨hdigits, -, -⟩
        exact absurd (hdigits c (mem_cons_self ..)) hdigit

theorem getDecimal_some {result : Nat} :
    getDecimal text = some result ↔
      text ≠ [] ∧ (∀ c ∈ text, isDigit c) ∧ ¬ WrapSeen text ∧ result = digitsValue text % 2 ^ 32 := by
  by_cases hempty : text = []
  · simp [getDecimal, hempty]
  · have hloop := @getDecimalFrom_some [] text result
    have hzero : digitsValue [] % 2 ^ 32 = 0 := rfl
    rw [hzero] at hloop
    rw [getDecimal, if_neg hempty, hloop]
    constructor
    · rintro ⟨hdigits, hnone, hresult⟩
      refine ⟨hempty, hdigits, ?_, hresult⟩
      rintro ⟨before, c, after, hsplit, hstops⟩
      exact hnone before c after hsplit hstops
    · rintro ⟨-, hdigits, hnone, hresult⟩
      exact ⟨hdigits, fun first c rest hsplit hstops => hnone ⟨first, c, rest, hsplit, hstops⟩, hresult⟩

theorem not_wrapSeen (hsmall : digitsValue text < 2 ^ 32 - 1) : ¬ WrapSeen text := by
  rintro ⟨before, c, after, rfl, hstops⟩
  have hbefore := digitsValue_le_append before [c]
  have hall := digitsValue_le_append (before ++ [c]) after
  rw [append_assoc, singleton_append] at hall
  unfold Stops at hstops
  omega

/-! ### The ranges in which a number slips through -/

/-- With this digit behind it the number lies between a ninth of a multiple of 2^32 and a tenth of the next one. -/
def Blind (number digit : Nat) : Prop := ∃ q, q * 2 ^ 32 ≤ 9 * number + digit ∧ 10 * number + digit + 1 < (q + 1) * 2 ^ 32

/-- All leading parts of the number lie in such ranges, modulo 2^32 and with the digits behind them. -/
def SlipsThrough (number : Nat) : Prop := ∀ places, Blind (number / 10 ^ (places + 1) % 2 ^ 32) (number / 10 ^ places % 10)

/-- The check is blind exactly in these ranges. -/
theorem blind_iff {number digit : Nat} (hnumber : number < 2 ^ 32) (hdigit : digit < 10) :
    Blind number digit ↔
      ¬ ((10 * number + digit) % 2 ^ 32 < number ∨ (10 * number + digit) % 2 ^ 32 = 2 ^ 32 - 1) := by
  constructor
  · rintro ⟨q, hninth, htenth⟩
    omega
  · intro hnone
    exact ⟨(10 * number + digit) / 2 ^ 32, by omega, by omega⟩

/-- A number of which only the last digit is too much slips through in these ranges. -/
theorem slipsThrough_iff {number : Nat} (hlast : number / 10 < 2 ^ 32 - 1) :
    SlipsThrough number ↔ ∃ q, q * 2 ^ 32 ≤ number - number / 10 ∧ number + 1 < (q + 1) * 2 ^ 32 := by
  have hfirst : Blind (number / 10 % 2 ^ 32) (number % 10) ↔
      ∃ q, q * 2 ^ 32 ≤ number - number / 10 ∧ number + 1 < (q + 1) * 2 ^ 32 := by
    have hninth : 9 * (number / 10) + number % 10 = number - number / 10 := by omega
    have htenth : 10 * (number / 10) + number % 10 = number := by omega
    rw [Nat.mod_eq_of_lt (by omega), Blind, hninth, htenth]
  rw [← hfirst]
  constructor
  · intro h
    have hplace := h 0
    rwa [Nat.zero_add, pow_one, pow_zero, Nat.div_one] at hplace
  · intro h places
    cases places with
    | zero => rwa [Nat.zero_add, pow_one, pow_zero, Nat.div_one]
    | succ places =>
      have hpart : number / 10 ^ (places + 1) ≤ number / 10 := by
        rw [pow_succ', ← Nat.div_div_eq_div_mul]
        exact Nat.div_le_self _ _
      have hnext : number / 10 ^ (places + 1 + 1) = number / 10 ^ (places + 1) / 10 := by
        rw [pow_succ _ (places + 1), Nat.div_div_eq_div_mul]
      rw [hnext]
      generalize number / 10 ^ (places + 1) = part at hpart
      exact ⟨0, (Nat.zero_mul _).trans_le (Nat.zero_le _), by omega⟩

/-- The check finds every number that is too large, up to this one. -/
theorem not_slipsThrough {number : Nat} (hlarge : 2 ^ 32 - 1 ≤ number) (hnumber : number < 4772185884) :
    ¬ SlipsThrough number := by
  rw [slipsThrough_iff (by omega)]
  rintro ⟨q, hninth, htenth⟩
  omega

theorem digit_lt {c : UInt8} (hdigit : isDigit c) : c.toNat - 48 < 10 := by
  unfold isDigit at hdigit
  have hrange : c ≤ 57 := by simp_all
  have hle : c.toNat ≤ 57 := hrange
  omega

theorem digitsValue_append {before after : Bytes} (hafter : ∀ c ∈ after, isDigit c) :
    digitsValue (before ++ after) / 10 ^ after.length = digitsValue before := by
  induction after using List.reverseRecOn with
  | nil => rw [append_nil, length_nil, pow_zero, Nat.div_one]
  | append_singleton after c ih =>
    have hdigit := digit_lt (hafter c (by simp))
    have hrest := ih fun d hd => hafter d (by simp [hd])
    rw [← append_assoc, digitsValue_concat, length_append, length_singleton, pow_succ',
      ← Nat.div_div_eq_div_mul, ← hrest]
    congr 1
    omega

/-- The check stops at no digit where all leading parts lie in the ranges. -/
theorem slipsThrough_digits (hdigits : ∀ c ∈ text, isDigit c) : SlipsThrough (digitsValue text) ↔ ¬ WrapSeen text := by
  have hplace : ∀ before c after, text = before ++ c :: after →
      (Stops before c ↔ ¬ Blind (digitsValue text / 10 ^ (after.length + 1) % 2 ^ 32)
        (digitsValue text / 10 ^ after.length % 10)) := by
    rintro before c after rfl
    have hc := digit_lt (hdigits c (by simp))
    have hbehind := @digitsValue_append before (c :: after) fun d hd => hdigits d (by simp at hd ⊢; tauto)
    have hwith := @digitsValue_append (before ++ [c]) after fun d hd => hdigits d (by simp [hd])
    rw [append_assoc, singleton_append] at hwith
    rw [length_cons] at hbehind
    rw [hbehind, hwith, digitsValue_concat, blind_iff (Nat.mod_lt _ (by decide)) (Nat.mod_lt _ (by decide)), not_not, Stops,
      digitsValue_concat]
    have hdigit : (digitsValue before * 10 + (c.toNat - 48)) % 10 = c.toNat - 48 := by omega
    have hsum : (10 * (digitsValue before % 2 ^ 32) + (c.toNat - 48)) % 2 ^ 32 =
        (digitsValue before * 10 + (c.toNat - 48)) % 2 ^ 32 := by omega
    rw [hdigit, hsum]
  constructor
  · rintro h ⟨before, c, after, hsplit, hstops⟩
    exact (hplace before c after hsplit).1 hstops (h after.length)
  · intro hnone places
    by_cases hlength : places < text.length
    · have hindex : text.length - (places + 1) < text.length := by omega
      have hsplit : text = text.take (text.length - (places + 1)) ++ text[text.length - (places + 1)] ::
          text.drop (text.length - (places + 1) + 1) := by
        rw [getElem_cons_drop, take_append_drop]
      have hdrop : (text.drop (text.length - (places + 1) + 1)).length = places := by
        rw [length_drop]
        omega
      by_contra hblind
      rw [← hdrop, ← hplace _ _ _ hsplit] at hblind
      exact hnone ⟨_, _, _, hsplit, hblind⟩
    · have hsmall : digitsValue text / 10 ^ places = 0 := by
        have hwhole := @digitsValue_append [] text hdigits
        rw [nil_append] at hwhole
        obtain ⟨more, rfl⟩ := Nat.exists_eq_add_of_le (Nat.not_lt.1 hlength)
        rw [pow_add, ← Nat.div_div_eq_div_mul, hwhole]
        exact Nat.zero_div _
      rw [pow_succ, ← Nat.div_div_eq_div_mul, hsmall]
      exact ⟨0, by decide, by decide⟩

/-- A number is read exactly, or is refused, unless it is too large and slips through. -/
theorem decimalExact_iff (text : Bytes) :
    DecimalExact text ↔
      ((∀ c ∈ text, isDigit c) → digitsValue text < 2 ^ 32 - 1 ∨ ¬ SlipsThrough (digitsValue text)) := by
  unfold DecimalExact
  by_cases hnumber : text ≠ [] ∧ ∀ c ∈ text, isDigit c
  · obtain ⟨hne, hdigits⟩ := hnumber
    by_cases hsmall : digitsValue text < 2 ^ 32 - 1
    · have hread : getDecimal text = some (digitsValue text) :=
        getDecimal_some.2 ⟨hne, hdigits, not_wrapSeen hsmall, (Nat.mod_eq_of_lt (by omega)).symm⟩
      rw [if_pos ⟨hne, hdigits, hsmall⟩]
      exact iff_of_true hread fun _ => .inl hsmall
    · rw [if_neg fun h => hsmall h.2.2]
      by_cases hseen : WrapSeen text
      · have hnone : getDecimal text = none := eq_none_iff_forall_ne_some.2 fun result h =>
          (getDecimal_some.1 h).2.2.1 hseen
        exact iff_of_true hnone fun _ => .inr fun hslips => (slipsThrough_digits hdigits).1 hslips hseen
      · have hread : getDecimal text = some (digitsValue text % 2 ^ 32) := getDecimal_some.2 ⟨hne, hdigits, hseen, rfl⟩
        rw [hread]
        refine iff_of_false (by simp) fun h => ?_
        rcases h hdigits with h | h
        · exact hsmall h
        · exact h ((slipsThrough_digits hdigits).2 hseen)
  · have hnone : getDecimal text = none := eq_none_iff_forall_ne_some.2 fun result h =>
      hnumber ⟨(getDecimal_some.1 h).1, (getDecimal_some.1 h).2.1⟩
    rw [hnone, if_neg fun h => hnumber ⟨h.1, h.2.1⟩]
    refine iff_of_true rfl fun hdigits => .inl ?_
    have hempty : text = [] := by_contra fun hne => hnumber ⟨hne, hdigits⟩
    rw [hempty]
    decide

/-! ### The numbers of an option -/

/-- Addresses are read as they are written. Decimal numbers are, too, unless they are too large and slip through, which
no number below 4772185884 does. -/
theorem option_numbers_exact_iff (text : Bytes) (out : Ipv4) :
    ((DecimalExact text ∧ StoresAddress text out) ↔
      ((∀ c ∈ text, isDigit c) → digitsValue text < 2 ^ 32 - 1 ∨ ¬ SlipsThrough (digitsValue text))) ∧
    (digitsValue text < 4772185884 → DecimalExact text) := by
  have haddress := storesAddress text out
  rw [← decimalExact_iff]
  refine ⟨and_iff_left haddress, fun hbound => (decimalExact_iff text).2 fun _ => ?_⟩
  by_cases hsmall : digitsValue text < 2 ^ 32 - 1
  · exact .inl hsmall
  · exact .inr (not_slipsThrough (Nat.not_lt.1 hsmall) hbound)

/-- The least number that is wrapped and taken. -/
theorem wrapped_number_taken : ¬ ∀ text out, DecimalExact text ∧ StoresAddress text out := by
  intro h
  have hexact : DecimalExact (ascii "4772185884") := (h (ascii "4772185884") [0, 0, 0, 0]).1
  have hread : getDecimal (ascii "4772185884") = some 477218588 := by decide
  have hlarge : ¬ digitsValue (ascii "4772185884") < 2 ^ 32 - 1 := by decide
  rw [DecimalExact, hread, if_neg fun h => hlarge h.2.2] at hexact
  cases hexact

end Bmx.Switch
