import Bmx.Base.Bytes

/-!
# UTF-8

The bytes of a code point, which show whether it is NUL and whether it is a character of ASCII.
-/

namespace Bmx

open List

def utf8 (codepoint : Nat) : Bytes := String.utf8EncodeChar (Char.ofNat codepoint)

theorem toNat_charOfNat {value : Nat} (h : value.isValidChar) : (Char.ofNat value).val.toNat = value := by
  unfold Char.ofNat
  rw [dif_pos h]
  rfl

theorem utf8_eq {value : Nat} (h : value.isValidChar) :
    utf8 value =
      if value ≤ 0x7f then [UInt8.ofNat value]
      else if value ≤ 0x7ff then [UInt8.ofNat (0xc0 + value / 64), UInt8.ofNat (0x80 + value % 64)]
      else if value ≤ 0xffff then
        [UInt8.ofNat (0xe0 + value / 4096), UInt8.ofNat (0x80 + value / 64 % 64), UInt8.ofNat (0x80 + value % 64)]
      else
        [UInt8.ofNat (0xf0 + value / 262144), UInt8.ofNat (0x80 + value / 4096 % 64),
          UInt8.ofNat (0x80 + value / 64 % 64), UInt8.ofNat (0x80 + value % 64)] := by
  simp only [utf8, String.utf8EncodeChar, toNat_charOfNat h]
  split
  · rfl
  split
  · rw [Nat.mod_eq_of_lt (show value / 64 < 0x20 by omega), Nat.add_comm (value / 64), Nat.add_comm (value % 0x40)]
  split
  · rw [Nat.mod_eq_of_lt (show value / 4096 < 0x10 by omega), Nat.add_comm (value / 4096), Nat.add_comm (value / 64 % 0x40),
      Nat.add_comm (value % 0x40)]
  · rw [Nat.mod_eq_of_lt (show value / 262144 < 0x08 by omega), Nat.add_comm (value / 262144),
      Nat.add_comm (value / 4096 % 0x40), Nat.add_comm (value / 64 % 0x40), Nat.add_comm (value % 0x40)]

theorem zero_eq_ofNat {n : Nat} (hn : n < 256) : (0 : UInt8) = UInt8.ofNat n ↔ n = 0 := by
  constructor
  · intro h
    have htoNat := congrArg UInt8.toNat h
    rw [UInt8.toNat_ofNat_of_lt' hn] at htoNat
    exact htoNat.symm
  · rintro rfl
    rfl

theorem utf8_zero_mem {value : Nat} (h : value.isValidChar) : 0 ∈ utf8 value ↔ value = 0 := by
  rw [utf8_eq h]
  split
  · rw [mem_singleton, zero_eq_ofNat (by omega)]
  split
  · rw [mem_cons, mem_singleton, zero_eq_ofNat (by omega), zero_eq_ofNat (by omega)]
    omega
  split
  · rw [mem_cons, mem_cons, mem_singleton, zero_eq_ofNat (by omega), zero_eq_ofNat (by omega),
      zero_eq_ofNat (by omega)]
    omega
  · rw [mem_cons, mem_cons, mem_cons, mem_singleton, zero_eq_ofNat (by omega),
      zero_eq_ofNat (by omega), zero_eq_ofNat (by omega), zero_eq_ofNat (by omega)]
    omega

theorem utf8_ascii {value : Nat} (h : value < 0x80) : utf8 value = [UInt8.ofNat value] := by
  rw [utf8_eq (.inl (by omega)), if_pos (by omega)]

theorem le_ofNat {n : Nat} (hlow : 0x80 ≤ n) (hn : n < 256) : 0x80 ≤ UInt8.ofNat n := by
  rw [UInt8.le_iff_toNat_le, UInt8.toNat_ofNat_of_lt' hn]
  exact hlow

theorem utf8_beyond {value : Nat} (h : value.isValidChar) (hbeyond : 0x80 ≤ value) : ∀ byte ∈ utf8 value, 0x80 ≤ byte := by
  rw [utf8_eq h, if_neg (by omega)]
  split
  · exact forall_mem_cons.2 ⟨le_ofNat (by omega) (by omega), forall_mem_singleton.2 (le_ofNat (by omega) (by omega))⟩
  split
  · exact forall_mem_cons.2 ⟨le_ofNat (by omega) (by omega), forall_mem_cons.2
      ⟨le_ofNat (by omega) (by omega), forall_mem_singleton.2 (le_ofNat (by omega) (by omega))⟩⟩
  · exact forall_mem_cons.2 ⟨le_ofNat (by omega) (by omega), forall_mem_cons.2
      ⟨le_ofNat (by omega) (by omega), forall_mem_cons.2
        ⟨le_ofNat (by omega) (by omega), forall_mem_singleton.2 (le_ofNat (by omega) (by omega))⟩⟩⟩

theorem utf8_ne_nil {value : Nat} : utf8 value ≠ [] := String.utf8EncodeChar_ne_nil

end Bmx
