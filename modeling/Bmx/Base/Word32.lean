import Bmx.Base.Instances
import Mathlib.Data.Nat.Bitwise
import Mathlib.Tactic.NormNum

/-!
# Arithmetic of 32-bit words

Words are natural numbers below `2 ^ 32`. Each operation wraps where it has to, and tells that it did:
a computation that equals a pure value computes it without a wrap.
-/

namespace Bmx

open Nat

/-- A computation that tells whether an operation has wrapped. -/
abbrev Wrapping := StateM Bool

def maxWord32 : Nat := 2 ^ 32 - 1

def add32 (a b : Nat) : Wrapping Nat := fun wrapped => ((a + b) % 2 ^ 32, wrapped || decide (2 ^ 32 ≤ a + b))

def mul32 (a b : Nat) : Wrapping Nat := fun wrapped => ((a * b) % 2 ^ 32, wrapped || decide (2 ^ 32 ≤ a * b))

def sub32 (a b : Nat) : Wrapping Nat := fun wrapped => ((a + 2 ^ 32 - b) % 2 ^ 32, wrapped || decide (a < b))

/-- `~a`. -/
def not32 (a : Nat) : Nat := 2 ^ 32 - (a + 1)

section

variable {a b : Nat}

theorem add32_eq (h : a + b < 2 ^ 32) : add32 a b = pure (a + b) := by
  funext wrapped
  change ((a + b) % 2 ^ 32, wrapped || decide (2 ^ 32 ≤ a + b)) = (a + b, wrapped)
  rw [mod_eq_of_lt h, decide_eq_false (Nat.not_le.2 h), Bool.or_false]

theorem mul32_eq (h : a * b < 2 ^ 32) : mul32 a b = pure (a * b) := by
  funext wrapped
  change ((a * b) % 2 ^ 32, wrapped || decide (2 ^ 32 ≤ a * b)) = (a * b, wrapped)
  rw [mod_eq_of_lt h, decide_eq_false (Nat.not_le.2 h), Bool.or_false]

theorem sub32_eq (h : b ≤ a) (ha : a < 2 ^ 32) : sub32 a b = pure (a - b) := by
  funext wrapped
  have hmod : (a + 2 ^ 32 - b) % 2 ^ 32 = a - b := by
    have hsplit : a + 2 ^ 32 - b = (a - b) + 2 ^ 32 := by omega
    rw [hsplit, add_mod_right, mod_eq_of_lt (by omega)]
  change ((a + 2 ^ 32 - b) % 2 ^ 32, wrapped || decide (a < b)) = (a - b, wrapped)
  rw [hmod, decide_eq_false (Nat.not_lt.2 h), Bool.or_false]

theorem and_not32_low (a k : Nat) (hk : k ≤ 32) (ha : a < 2 ^ 32) : a &&& not32 (2 ^ k - 1) = a / 2 ^ k * 2 ^ k := by
  have hlow : 2 ^ k - 1 < 2 ^ 32 := by
    have hpow := Nat.pow_le_pow_right (n := 2) (by decide) hk
    omega
  apply eq_of_testBit_eq
  intro i
  rw [testBit_and, not32, testBit_two_pow_sub_succ hlow, testBit_two_pow_sub_one, Nat.mul_comm,
    testBit_two_pow_mul, testBit_div_two_pow]
  by_cases hi : k ≤ i
  · have hsame : i - k + k = i := by omega
    by_cases hword : i < 32
    · simp [hi, hword, hsame]
    · have hbig : a.testBit i = false :=
        testBit_lt_two_pow (Nat.lt_of_lt_of_le ha (Nat.pow_le_pow_right (by decide) (by omega)))
      simp [hi, hsame, hbig]
  · have hsmall : i < k := by omega
    simp [hi, hsmall]

end

end Bmx
