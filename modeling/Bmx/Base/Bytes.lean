import Bmx.Base.Instances
import Mathlib.Data.List.TakeWhile

/-!
# Bytes, C strings and 64-bit sums

A buffer is the list of its bytes and a C string the list of its characters before the terminating
NUL. Comparisons of FAT names fold ASCII case and nothing else, which is what every copy of the
comparison in the updater does.
-/

namespace Bmx

abbrev Bytes := List UInt8

def ascii (text : String) : Bytes := text.toList.map fun c => UInt8.ofNat c.toNat

/-- What a function that is given a C string takes of a buffer. -/
def cText (buffer : Bytes) : Bytes := buffer.takeWhile (· ≠ 0)

theorem cText_eq_iff {buffer : Bytes} : cText buffer = buffer ↔ 0 ∉ buffer := by
  unfold cText
  rw [List.takeWhile_eq_self_iff]
  constructor
  · intro h hzero
    exact absurd (h 0 hzero) (by decide)
  · intro h c hc
    apply decide_eq_true
    rintro rfl
    exact h hc

def slash : UInt8 := 47

def cr : UInt8 := 13

def lf : UInt8 := 10

theorem forall_byte {P : UInt8 → Prop} (h : ∀ n < 256, P (UInt8.ofNat n)) (byte : UInt8) : P byte := by
  have hbyte := h byte.toNat byte.toNat_lt
  rwa [UInt8.ofNat_toNat] at hbyte

def uint64Max : Nat := 2 ^ 64 - 1

/-- `AddWithoutOverflow` and `CheckedAdd`: the sum of two `uint64_t`, unless it overflows. -/
def addWithoutOverflow (left right : Nat) : Option Nat :=
  if right > uint64Max - left then none else some (left + right)

theorem addWithoutOverflow_eq_some {left right sum : Nat}
    (hsum : addWithoutOverflow left right = some sum) : sum = left + right := by
  unfold addWithoutOverflow at hsum
  split at hsum
  · cases hsum
  · exact (Option.some.inj hsum).symm

def asciiLower (value : UInt8) : UInt8 :=
  if 65 ≤ value ∧ value ≤ 90 then value + (97 - 65) else value

/-- The name under which FAT finds a path. -/
def fold (path : Bytes) : Bytes := path.map asciiLower

/-- The loop of every case-insensitive path comparison: both strings end together and agree
before that up to ASCII case. -/
def foldEqual : Bytes → Bytes → Bool
  | [], [] => true
  | a :: as, b :: bs => asciiLower a == asciiLower b && foldEqual as bs
  | _, _ => false

theorem foldEqual_iff {left right : Bytes} : foldEqual left right = true ↔ fold left = fold right := by
  induction left generalizing right with
  | nil => cases right <;> simp [foldEqual, fold]
  | cons a as ih =>
    cases right with
    | nil => simp [foldEqual, fold]
    | cons b bs =>
      have hrest := @ih bs
      simp [foldEqual, fold, hrest]

@[simp] theorem fold_nil : fold [] = [] := rfl

@[simp] theorem fold_append (left right : Bytes) : fold (left ++ right) = fold left ++ fold right :=
  List.map_append

@[simp] theorem length_fold (path : Bytes) : (fold path).length = path.length := List.length_map _

def littleEndian : Bytes → Nat
  | [] => 0
  | value :: rest => value.toNat + 256 * littleEndian rest

end Bmx
