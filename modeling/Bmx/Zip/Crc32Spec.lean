import Bmx.Base.Word32
import Bmx.Zip.Format

/-!
# CRC-32 bit by bit

The check sequence is defined on the bits of a message, the low bit of each byte first. The reader takes a byte
at a time and looks its eight steps up in a table. A bit step is linear, so the part of the register that the
table does not see only moves down.
-/

namespace Bmx.Zip

open List
open UInt32 (toNat_shiftRight xor_zero)

/-- The bits of a byte in the order in which they are sent. -/
def bitsOf (byte : UInt8) : List Bool := (List.range 8).map byte.toNat.testBit

/-- A bit goes out of the register and is compared with the bit that comes in. -/
def crcBit (register : UInt32) (bit : Bool) : UInt32 :=
  if (register &&& 1 == 1) = bit then register >>> 1 else (register >>> 1) ^^^ 0xedb88320

def crcBits (register : UInt32) (bits : List Bool) : UInt32 := bits.foldl crcBit register

def reflectedCrc32 (message : Bytes) : UInt32 := crcBits 0xffffffff (message.flatMap bitsOf) ^^^ 0xffffffff

section Linear

variable (a b register : UInt32)

theorem low_bit : register &&& 1 = 0 ∨ register &&& 1 = 1 := by
  have hmod := Nat.and_two_pow_sub_one_eq_mod register.toNat 1
  rw [← UInt32.toNat_inj, ← UInt32.toNat_inj, UInt32.toNat_and]
  simp at hmod ⊢
  omega

theorem xor_and (mask : UInt32) : (a ^^^ b) &&& mask = (a &&& mask) ^^^ (b &&& mask) := by
  apply UInt32.eq_of_toBitVec_eq
  ext i
  simp [Bool.and_xor_distrib_right]

theorem xor_middle (c d : UInt32) : (a ^^^ b) ^^^ (c ^^^ d) = (a ^^^ c) ^^^ (b ^^^ d) := by
  rw [UInt32.xor_assoc, UInt32.xor_assoc, ← UInt32.xor_assoc b c, UInt32.xor_comm b c, UInt32.xor_assoc c b]

theorem crcBit_xor (x y : Bool) : crcBit (a ^^^ b) (x ^^ y) = crcBit a x ^^^ crcBit b y := by
  have hcancel (p q : UInt32) : (p ^^^ 0xedb88320) ^^^ (q ^^^ 0xedb88320) = p ^^^ q := by
    rw [xor_middle, UInt32.xor_self, xor_zero]
  have hright (p q r : UInt32) : (p ^^^ r) ^^^ q = (p ^^^ q) ^^^ r := by
    rw [UInt32.xor_assoc, UInt32.xor_comm r, UInt32.xor_assoc]
  unfold crcBit
  rw [xor_and, UInt32.shiftRight_xor]
  rcases low_bit a with ha | ha <;> rcases low_bit b with hb | hb <;> rw [ha, hb] <;> cases x <;> cases y <;>
    simp [hcancel, hright, UInt32.xor_assoc]

theorem crcBits_xor (bits : List Bool) :
    crcBits (a ^^^ b) bits = crcBits a (bits.map fun _ => false) ^^^ crcBits b bits := by
  induction bits generalizing a b with
  | nil => rfl
  | cons bit rest ih =>
    have hstep := crcBit_xor a b false bit
    rw [Bool.false_xor] at hstep
    simp only [crcBits, foldl_cons, map_cons, hstep] at ih ⊢
    exact ih _ _

theorem crc32Shift_eq : crc32Shift register = crcBit register false := by
  unfold crc32Shift crcBit
  rcases low_bit register with h | h <;> simp [h]

theorem crc32TableEntry_eq : crc32TableEntry register = crcBits register (List.replicate 8 false) := by
  simp only [crc32TableEntry, crc32Shift_eq]
  rfl

theorem crcBits_high {count : Nat} (h : 2 ^ count ∣ register.toNat) :
    (crcBits register (List.replicate count false)).toNat = register.toNat / 2 ^ count := by
  induction count generalizing register with
  | zero => simp [crcBits]
  | succ count ih =>
    rw [pow_succ'] at h ⊢
    have heven : register &&& 1 = 0 := by
      have htwo := Nat.mod_eq_zero_of_dvd ((Nat.dvd_mul_right 2 _).trans h)
      rw [← UInt32.toNat_inj, UInt32.toNat_and]
      simp [htwo]
    have hshift : (register >>> 1).toNat = register.toNat / 2 := by
      simp [toNat_shiftRight, Nat.shiftRight_eq_div_pow]
    have hstep : crcBit register false = register >>> 1 := by simp [crcBit, heven]
    have hrest := ih (register >>> 1) (by rw [hshift]; exact Nat.dvd_div_of_mul_dvd h)
    rw [hshift, Nat.div_div_eq_div_mul] at hrest
    simpa [crcBits, replicate_succ, hstep] using hrest

/-- The byte that comes in is added to the low byte of the register, whose bits go out. -/
theorem crcBits_byte (byte : UInt8) :
    crcBits register (bitsOf byte) = crcBits (register ^^^ byte.toUInt32) (List.replicate 8 false) := by
  have hbyte : crcBits 0 (bitsOf byte) = crcBits byte.toUInt32 (List.replicate 8 false) :=
    forall_byte (P := fun byte => crcBits 0 (bitsOf byte) = crcBits byte.toUInt32 (List.replicate 8 false))
      (by decide +kernel) byte
  have hzero : (bitsOf byte).map (fun _ => false) = List.replicate 8 false := by simp [bitsOf]
  calc crcBits register (bitsOf byte)
      = crcBits (register ^^^ 0) (bitsOf byte) := by rw [xor_zero]
    _ = crcBits register (List.replicate 8 false) ^^^ crcBits 0 (bitsOf byte) := by rw [crcBits_xor, hzero]
    _ = crcBits (register ^^^ byte.toUInt32) (List.replicate 8 false) := by
        rw [hbyte, crcBits_xor, map_replicate]

theorem crc32Byte_eq (byte : UInt8) : crc32Byte register byte = crcBits register (bitsOf byte) := by
  have hsplit (sum : UInt32) : (sum &&& 0xff) ^^^ (sum &&& 0xffffff00) = sum := by
    rw [UInt32.and_comm, UInt32.and_comm sum, ← xor_and]
    exact UInt32.neg_one_and
  have hhigh (sum : UInt32) : crcBits (sum &&& 0xffffff00) (List.replicate 8 false) = sum >>> 8 := by
    have hmask : (sum &&& 0xffffff00).toNat = sum.toNat / 2 ^ 8 * 2 ^ 8 :=
      and_not32_low sum.toNat 8 (by decide) sum.toNat_lt
    rw [← UInt32.toNat_inj, crcBits_high _ (hmask ▸ Nat.dvd_mul_left _ _), hmask, Nat.mul_div_cancel _ (by decide)]
    simp [toNat_shiftRight, Nat.shiftRight_eq_div_pow]
  have hout : (register ^^^ byte.toUInt32) >>> 8 = register >>> 8 := by
    have hbyte : byte.toUInt32 >>> 8 = 0 := by
      rw [← UInt32.toNat_inj]
      simp [toNat_shiftRight, Nat.shiftRight_eq_div_pow, byte.toNat_lt]
    rw [UInt32.shiftRight_xor, hbyte, xor_zero]
  rw [crcBits_byte, crc32Byte, crc32TableEntry_eq, ← hout, ← hhigh]
  conv_rhs => rw [← hsplit (register ^^^ byte.toUInt32)]
  rw [crcBits_xor, map_replicate]

end Linear

/-- The table-driven sum of the pieces of a message is the one that is defined bit by bit. -/
theorem updateCrc32_bitwise (crc : UInt32) (chunks : List Bytes) :
    chunks.foldl updateCrc32 crc = crcBits crc (chunks.flatten.flatMap bitsOf) ∧
      chunks.foldl updateCrc32 0xffffffff ^^^ 0xffffffff = reflectedCrc32 chunks.flatten := by
  have hbytes (register : UInt32) (bytes : Bytes) :
      updateCrc32 register bytes = crcBits register (bytes.flatMap bitsOf) := by
    induction bytes generalizing register with
    | nil => rfl
    | cons byte rest ih =>
      rw [updateCrc32, foldl_cons, flatMap_cons, crcBits, foldl_append, crc32Byte_eq]
      exact ih _
  have hchunks (register : UInt32) :
      chunks.foldl updateCrc32 register = crcBits register (chunks.flatten.flatMap bitsOf) := by
    induction chunks generalizing register with
    | nil => rfl
    | cons chunk rest ih =>
      rw [foldl_cons, ih, hbytes, flatten_cons, flatMap_append, crcBits, crcBits, crcBits,
        foldl_append]
  exact ⟨hchunks crc, by rw [hchunks, reflectedCrc32]⟩

end Bmx.Zip
