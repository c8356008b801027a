import Bmx.Base.Bytes

/-!
# FAT path policy

The portable subset of FAT long names shared by the manifest parser, the archive reader and the
installer, with the wider developer and media policies of the same file system adapter.
-/

namespace Bmx.Update

open List

inductive FatPathValidationStatus
  | ok
  | invalidArgument
  | pathTooLong
  | invalidPath
  deriving DecidableEq

def isReservedStem (component : Bytes) : Bool :=
  let stem := component.takeWhile (· != 46)
  [ascii "CON", ascii "PRN", ascii "AUX", ascii "NUL"].any (foldEqual stem) ||
    (stem.length == 4 &&
      (foldEqual (stem.take 3) (ascii "COM") || foldEqual (stem.take 3) (ascii "LPT")) &&
      49 ≤ stem.getD 3 0 && stem.getD 3 0 ≤ 57)

def isForbidden (value : UInt8) : Bool := value ∈ ascii "\"*:<>?\\|"

/-- The checks every policy makes on one component, between two separators. -/
def componentShapeValid (component : Bytes) : Bool :=
  component.length != 0 && component.length ≤ 255 &&
    component.getLast? != some 32 && component.getLast? != some 46

def portableComponentValid (component : Bytes) : Bool :=
  componentShapeValid component && component.head? != some 32 && !isReservedStem component

/-- The scan over a path, with the component read so far: every character is allowed and every
component passes its check when its separator, or the end, is reached. -/
def scanComponents (characterAllowed : UInt8 → Bool) (componentValid : Bytes → Bool) :
    Bytes → Bytes → Bool
  | component, [] => componentValid component
  | component, value :: rest =>
    if value = slash then
      componentValid component && scanComponents characterAllowed componentValid [] rest
    else
      characterAllowed value &&
        scanComponents characterAllowed componentValid (component ++ [value]) rest

def portableCharacter (value : UInt8) : Bool := 0x20 ≤ value && value ≤ 0x7e && !isForbidden value

def validateFatRelativePathBytes (path : Bytes) (maximumPathBytes : Nat) :
    FatPathValidationStatus :=
  if maximumPathBytes = 0 then .invalidArgument
  else if path.length = 0 then .invalidPath
  else if path.length > maximumPathBytes then .pathTooLong
  else if path.head? = some slash ∨ path.getLast? = some slash then .invalidPath
  else if scanComponents portableCharacter portableComponentValid [] path then .ok
  else .invalidPath

/-- The NUL-terminated wrapper: a string longer than the bound is too long whatever it holds. -/
def validateFatRelativePath (path : Bytes) (maximumPathBytes : Nat) : FatPathValidationStatus :=
  if maximumPathBytes = 0 then .invalidArgument
  else if path.length > maximumPathBytes then .pathTooLong
  else validateFatRelativePathBytes path maximumPathBytes

def developerCharacter (value : UInt8) : Bool := 0x20 ≤ value && value != 0x7f && !isForbidden value

/-- Developer paths: the whole OEM range, and one byte less than the bound. -/
def validateDeveloperFatRelativePath (path : Bytes) (maximumPathBytes : Nat) :
    FatPathValidationStatus :=
  if maximumPathBytes = 0 then .invalidArgument
  else if path.length ≥ maximumPathBytes then .pathTooLong
  else if path.length = 0 ∨ path.head? = some slash ∨ path.getLast? = some slash then .invalidPath
  else if scanComponents developerCharacter componentShapeValid [] path then .ok
  else .invalidPath

def mediaRoots : List Bytes := [ascii "disks", ascii "tapes", ascii "carts", ascii "snapshots"]

def validateMediaFatRelativePath (path : Bytes) (maximumPathBytes : Nat) :
    FatPathValidationStatus :=
  match validateDeveloperFatRelativePath path maximumPathBytes with
  | .ok => if mediaRoots.any (foldEqual (path.takeWhile (· != slash))) then .ok else .invalidPath
  | status => status

/-- A path the portable policy accepts, in the form the ZIP reader and the manifest use. -/
def FatRelativePath (path : Bytes) (maximumPathBytes : Nat) : Prop :=
  validateFatRelativePathBytes path maximumPathBytes = .ok

variable {path component : Bytes} {maximumPathBytes : Nat} {characterAllowed : UInt8 → Bool}
  {componentValid : Bytes → Bool}

theorem FatRelativePath.length_pos (hpath : FatRelativePath path maximumPathBytes) :
    0 < path.length ∧ path.length ≤ maximumPathBytes := by
  unfold FatRelativePath validateFatRelativePathBytes at hpath
  split at hpath
  · cases hpath
  split at hpath
  · cases hpath
  split at hpath
  · cases hpath
  omega

theorem FatRelativePath.scan (hpath : FatRelativePath path maximumPathBytes) :
    scanComponents portableCharacter portableComponentValid [] path = true := by
  unfold FatRelativePath validateFatRelativePathBytes at hpath
  by_contra hscan
  split at hpath
  · cases hpath
  split at hpath
  · cases hpath
  split at hpath
  · cases hpath
  split at hpath <;> simp at hpath

/-- The scan looks at every component, and in the first one also at what was read before. -/
theorem scanComponents_iff {first : Bytes} {rest : List Bytes} (hsplit : path.splitOn slash = first :: rest) :
    scanComponents characterAllowed componentValid component path = true ↔
      ((∀ c ∈ first, characterAllowed c = true) ∧ componentValid (component ++ first) = true) ∧
        ∀ piece ∈ rest, (∀ c ∈ piece, characterAllowed c = true) ∧ componentValid piece = true := by
  induction path generalizing component first rest with
  | nil =>
    obtain ⟨rfl, rfl⟩ := hsplit
    simp [scanComponents]
  | cons value path ih =>
    obtain ⟨next, later, hlater⟩ := exists_cons_of_ne_nil (splitOn_ne_nil slash path)
    rw [splitOn_cons_eq_if_modifyHead, hlater] at hsplit
    by_cases hslash : value = slash
    · rw [if_pos (beq_iff_eq.2 hslash), cons.injEq] at hsplit
      obtain ⟨rfl, rfl⟩ := hsplit
      rw [scanComponents, if_pos hslash, Bool.and_eq_true, ih hlater, forall_mem_cons, append_nil]
      simp
    · rw [if_neg (by simpa using hslash), modifyHead_cons, cons.injEq] at hsplit
      obtain ⟨rfl, rfl⟩ := hsplit
      rw [scanComponents, if_neg hslash, Bool.and_eq_true, ih hlater, forall_mem_cons, append_assoc,
        singleton_append, and_assoc, and_assoc, and_assoc]

theorem scanComponents_characters (hscan : scanComponents characterAllowed componentValid component path)
    {value : UInt8} (hvalue : value ∈ path) : value = slash ∨ characterAllowed value = true := by
  induction path generalizing component with
  | nil => cases hvalue
  | cons first rest ih =>
    rw [scanComponents] at hscan
    by_cases hslash : first = slash
    · rw [if_pos hslash, Bool.and_eq_true] at hscan
      rcases mem_cons.1 hvalue with rfl | hrest
      · exact .inl hslash
      · exact ih hscan.2 hrest
    · rw [if_neg hslash, Bool.and_eq_true] at hscan
      rcases mem_cons.1 hvalue with rfl | hrest
      · exact .inr hscan.1
      · exact ih hscan.2 hrest

example : validateFatRelativePathBytes (ascii "kernel8-rpi4.img") 240 = .ok := by decide
example : validateFatRelativePathBytes (ascii "a/../b") 240 = .invalidPath := by decide

end Bmx.Update
