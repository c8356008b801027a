import Bmx.Base.Bytes

/-!
# Numbers in texts

`strtol` and the `%d` of `sscanf` read a number from the start of a text and leave the rest of it. A number that `printf`
writes with `%d` is read back.
-/

namespace Bmx

open List Nat

def isSpace (c : UInt8) : Bool := c = 32 ∨ (9 ≤ c ∧ c ≤ 13)

/-- What a character is worth as a digit, if it is one in a base. -/
def digitValue (base : Nat) (c : UInt8) : Option Nat :=
  let value :=
    if 48 ≤ c ∧ c ≤ 57 then c.toNat - 48
    else if 97 ≤ c ∧ c ≤ 122 then c.toNat - 87
    else if 65 ≤ c ∧ c ≤ 90 then c.toNat - 55
    else base
  if value < base then some value else none

/-- The digits that a text starts with are added to a value. -/
def scanDigits (base value : Nat) : Bytes → Nat × Bytes
  | [] => (value, [])
  | c :: rest =>
    match digitValue base c with
    | some digit => scanDigits base (base * value + digit) rest
    | none => (value, c :: rest)

/-- The sign that a text starts with. -/
def scanSign : Bytes → Bool × Bytes
  | 45 :: rest => (true, rest)
  | 43 :: rest => (false, rest)
  | text => (false, text)

/-- `0x` before a hexadecimal digit. -/
def skipHexPrefix : Bytes → Bytes
  | 48 :: x :: c :: rest => if (x = 120 ∨ x = 88) ∧ (digitValue 16 c).isSome then c :: rest else 48 :: x :: c :: rest
  | text => text

/-- The number that a text starts with after blanks, and the rest of the text. A number that is too large for its type is
given as it is. -/
def scanNumber (base : Nat) (text : Bytes) : Option (Int × Bytes) :=
  let (negative, text) := scanSign (text.dropWhile isSpace)
  let text := if base = 16 then skipHexPrefix text else text
  if (text.head?.bind (digitValue base)).isSome then
    let (value, rest) := scanDigits base 0 text
    some (if negative then -value else value, rest)
  else none

def decimalDigits (n : Nat) : Bytes := (Nat.toDigits 10 n).map fun c => UInt8.ofNat c.toNat

/-- `%d` -/
def formatDecimal (n : Int) : Bytes := if n < 0 then 45 :: decimalDigits n.natAbs else decimalDigits n.natAbs

/-! ### Reading back -/

theorem digitChar_byte {digit : Nat} (h : digit < 10) :
    UInt8.ofNat (Nat.digitChar digit).toNat = UInt8.ofNat (48 + digit) := by
  rw [toNat_digitChar_of_lt_ten h, Nat.add_comm]

theorem decimalDigits_eq (n : Nat) :
    decimalDigits n = (if n < 10 then [] else decimalDigits (n / 10)) ++ [UInt8.ofNat (48 + n % 10)] := by
  unfold decimalDigits
  rw [toDigits_eq_if (by omega)]
  split
  · rename_i hsmall
    rw [map_singleton, digitChar_byte hsmall, mod_eq_of_lt hsmall, nil_append]
  · rw [map_append, map_singleton, digitChar_byte (mod_lt _ (by omega))]

theorem digitValue_digit {digit : Nat} (h : digit < 10) : digitValue 10 (UInt8.ofNat (48 + digit)) = some digit := by
  have hall : ∀ digit < 10, digitValue 10 (UInt8.ofNat (48 + digit)) = some digit := by decide
  exact hall digit h

theorem scanDigits_decimal (n : Nat) (rest : Bytes) : scanDigits 10 0 (decimalDigits n ++ rest) = scanDigits 10 n rest := by
  induction n using Nat.strongRecOn generalizing rest with
  | _ n ih =>
    have hlast := digitValue_digit (mod_lt n (by omega : 0 < 10))
    rw [decimalDigits_eq]
    split
    · rename_i hsmall
      rw [nil_append, singleton_append, scanDigits, hlast]
      dsimp only
      rw [mod_eq_of_lt hsmall, Nat.mul_zero, Nat.zero_add]
    · rw [append_assoc, ih (n / 10) (by omega), singleton_append, scanDigits, hlast]
      dsimp only
      rw [div_add_mod]

theorem decimalDigits_chars (n : Nat) : ∀ c ∈ decimalDigits n, 48 ≤ c ∧ c ≤ 57 := by
  have hdigit : ∀ digit < 10, 48 ≤ UInt8.ofNat (48 + digit) ∧ UInt8.ofNat (48 + digit) ≤ 57 := by decide
  induction n using Nat.strongRecOn with
  | _ n ih =>
    intro c hc
    rw [decimalDigits_eq] at hc
    rcases mem_append.1 hc with hc | hc
    · split at hc
      · cases hc
      · exact ih (n / 10) (by omega) c hc
    · rw [mem_singleton.1 hc]
      exact hdigit _ (mod_lt n (by omega))

theorem decimalDigits_ne_nil (n : Nat) : decimalDigits n ≠ [] := by
  rw [decimalDigits_eq]
  simp

theorem formatDecimal_chars (n : Int) : ∀ c ∈ formatDecimal n, c = 45 ∨ (48 ≤ c ∧ c ≤ 57) := by
  intro c hc
  unfold formatDecimal at hc
  split at hc
  · rcases mem_cons.1 hc with rfl | hc
    · exact Or.inl rfl
    · exact Or.inr (decimalDigits_chars _ c hc)
  · exact Or.inr (decimalDigits_chars _ c hc)

theorem scanNumber_space (base : Nat) (text : Bytes) : scanNumber base (32 :: text) = scanNumber base text := rfl

theorem scanNumber_formatDecimal (n : Int) {rest : Bytes} (hrest : ∀ c ∈ rest.head?, digitValue 10 c = none) :
    scanNumber 10 (formatDecimal n ++ rest) = some (n, rest) := by
  have hstop : scanDigits 10 n.natAbs rest = (n.natAbs, rest) := by
    cases rest with
    | nil => rfl
    | cons c rest => rw [scanDigits, hrest c rfl]
  have hscan : scanDigits 10 0 (decimalDigits n.natAbs ++ rest) = (n.natAbs, rest) := by
    rw [scanDigits_decimal, hstop]
  obtain ⟨first, digits, hdigits⟩ := exists_cons_of_ne_nil (decimalDigits_ne_nil n.natAbs)
  have hfirst := decimalDigits_chars n.natAbs first (by rw [hdigits]; exact mem_cons_self)
  have hbyte : ∀ c : UInt8, 48 ≤ c ∧ c ≤ 57 → isSpace c = false ∧ c ≠ 45 ∧ c ≠ 43 ∧ (digitValue 10 c).isSome = true :=
    forall_byte (by decide +kernel)
  obtain ⟨hspace, hminus, hplus, hdigit⟩ := hbyte first hfirst
  have hhead : ((decimalDigits n.natAbs ++ rest).head?.bind (digitValue 10)).isSome = true := by
    rw [hdigits]
    exact hdigit
  unfold formatDecimal
  split
  · rename_i hneg
    have hsign : scanSign ((45 :: decimalDigits n.natAbs ++ rest).dropWhile isSpace) = (true, decimalDigits n.natAbs ++ rest) := rfl
    have hvalue : -(n.natAbs : Int) = n := by omega
    simp only [scanNumber, hsign, hhead, hscan, Nat.reduceEqDiff, if_true, if_false, hvalue]
  · rename_i hneg
    have hsign : scanSign ((decimalDigits n.natAbs ++ rest).dropWhile isSpace) = (false, decimalDigits n.natAbs ++ rest) := by
      rw [hdigits, cons_append, dropWhile_cons_of_neg (by simp [hspace])]
      unfold scanSign
      split
      · rename_i heq
        exact absurd (cons.inj heq).1 hminus
      · rename_i heq
        exact absurd (cons.inj heq).1 hplus
      · rfl
    have hvalue : (n.natAbs : Int) = n := by omega
    simp only [scanNumber, hsign, hhead, hscan, Nat.reduceEqDiff, if_true, if_false, Bool.false_eq_true, hvalue]

end Bmx
