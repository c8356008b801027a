import Bmx.Base.Bytes

/-!
# SHA-256

The streaming hash of the updater: a state of eight words, a partial block and a running length.
Feeding a message in pieces is feeding it whole, which is all the installer and the archive reader
rely on.
-/

namespace Bmx.Update

open List

def sha256DigestBytes : Nat := 32

/-- A digest buffer has exactly `kSha256DigestBytes` bytes. -/
abbrev Digest := { bytes : Bytes // bytes.length = sha256DigestBytes }

def rotateRight (value : UInt32) (count : UInt32) : UInt32 :=
  (value >>> count) ||| (value <<< (32 - count))

def loadBigEndian32 : Bytes → UInt32
  | b0 :: b1 :: b2 :: b3 :: _ =>
    (b0.toUInt32 <<< 24) ||| (b1.toUInt32 <<< 16) ||| (b2.toUInt32 <<< 8) ||| b3.toUInt32
  | _ => 0

def storeBigEndian32 (value : UInt32) : Bytes :=
  [(value >>> 24).toUInt8, (value >>> 16).toUInt8, (value >>> 8).toUInt8, value.toUInt8]

def roundConstants : List UInt32 := [
  0x428a2f98, 0x71374491, 0xb5c0fbcf, 0xe9b5dba5, 0x3956c25b, 0x59f111f1, 0x923f82a4, 0xab1c5ed5,
  0xd807aa98, 0x12835b01, 0x243185be, 0x550c7dc3, 0x72be5d74, 0x80deb1fe, 0x9bdc06a7, 0xc19bf174,
  0xe49b69c1, 0xefbe4786, 0x0fc19dc6, 0x240ca1cc, 0x2de92c6f, 0x4a7484aa, 0x5cb0a9dc, 0x76f988da,
  0x983e5152, 0xa831c66d, 0xb00327c8, 0xbf597fc7, 0xc6e00bf3, 0xd5a79147, 0x06ca6351, 0x14292967,
  0x27b70a85, 0x2e1b2138, 0x4d2c6dfc, 0x53380d13, 0x650a7354, 0x766a0abb, 0x81c2c92e, 0x92722c85,
  0xa2bfe8a1, 0xa81a664b, 0xc24b8b70, 0xc76c51a3, 0xd192e819, 0xd6990624, 0xf40e3585, 0x106aa070,
  0x19a4c116, 0x1e376c08, 0x2748774c, 0x34b0bcb5, 0x391c0cb3, 0x4ed8aa4a, 0x5b9cca4f, 0x682e6ff3,
  0x748f82ee, 0x78a5636f, 0x84c87814, 0x8cc70208, 0x90befffa, 0xa4506ceb, 0xbef9a3f7, 0xc67178f2]

/-- The eight working words, `a` to `h`. -/
structure Words where
  a : UInt32
  b : UInt32
  c : UInt32
  d : UInt32
  e : UInt32
  f : UInt32
  g : UInt32
  h : UInt32
  deriving DecidableEq

def initialWords : Words :=
  ⟨0x6a09e667, 0xbb67ae85, 0x3c6ef372, 0xa54ff53a, 0x510e527f, 0x9b05688c, 0x1f83d9ab, 0x5be0cd19⟩

/-- The next word of the message schedule from the ones before it, newest first. -/
def scheduleWord (words : List UInt32) : UInt32 :=
  let w15 := words.getD 14 0
  let w2 := words.getD 1 0
  let s0 := rotateRight w15 7 ^^^ rotateRight w15 18 ^^^ (w15 >>> 3)
  let s1 := rotateRight w2 17 ^^^ rotateRight w2 19 ^^^ (w2 >>> 10)
  words.getD 15 0 + s0 + words.getD 6 0 + s1

def extendSchedule : Nat → List UInt32 → List UInt32
  | 0, words => words
  | count + 1, words => extendSchedule count (scheduleWord words :: words)

def loadWords : Nat → Bytes → List UInt32
  | 0, _ => []
  | count + 1, block => loadBigEndian32 block :: loadWords count (block.drop 4)

def schedule (block : Bytes) : List UInt32 := (extendSchedule 48 (loadWords 16 block).reverse).reverse

def round (s : Words) (constant word : UInt32) : Words :=
  let sum1 := rotateRight s.e 6 ^^^ rotateRight s.e 11 ^^^ rotateRight s.e 25
  let choice := (s.e &&& s.f) ^^^ (~~~s.e &&& s.g)
  let temporary1 := s.h + sum1 + choice + constant + word
  let sum0 := rotateRight s.a 2 ^^^ rotateRight s.a 13 ^^^ rotateRight s.a 22
  let majority := (s.a &&& s.b) ^^^ (s.a &&& s.c) ^^^ (s.b &&& s.c)
  let temporary2 := sum0 + majority
  ⟨temporary1 + temporary2, s.a, s.b, s.c, s.d + temporary1, s.e, s.f, s.g⟩

def rounds : List UInt32 → List UInt32 → Words → Words
  | constant :: constants, word :: words, s => rounds constants words (round s constant word)
  | _, _, s => s

def transform (state : Words) (block : Bytes) : Words :=
  let s := rounds roundConstants (schedule block) state
  ⟨state.a + s.a, state.b + s.b, state.c + s.c, state.d + s.d,
    state.e + s.e, state.f + s.f, state.g + s.g, state.h + s.h⟩

structure Sha256 where
  state : Words
  totalBytes : Nat
  buffer : Bytes
  finalized : Bool

namespace Sha256

def reset : Sha256 := ⟨initialWords, 0, [], false⟩

/-- One byte copied into the block buffer, which is transformed when full. -/
def absorbByte (s : Words × Bytes) (value : UInt8) : Words × Bytes :=
  let buffer := s.2 ++ [value]
  if buffer.length = 64 then (transform s.1 buffer, []) else (s.1, buffer)

def update (hash : Sha256) (data : Bytes) : Option Sha256 :=
  if hash.finalized ∨ data.length > uint64Max - hash.totalBytes then none
  else
    let s := data.foldl absorbByte (hash.state, hash.buffer)
    some { hash with state := s.1, buffer := s.2, totalBytes := hash.totalBytes + data.length }

/-- The length field at the end of the last block. -/
def bigEndian64 (value : Nat) : Bytes :=
  (List.range 8).map fun i => UInt8.ofNat (value >>> (8 * (7 - i)))

def padded (buffer : Bytes) : Bytes := buffer ++ List.replicate (56 - buffer.length) 0

/-- `Final`: the padding, the bit length and the last transformations. -/
def final (hash : Sha256) : Option Digest :=
  if hash.finalized ∨ hash.totalBytes > uint64Max / 8 then none
  else
    let totalBits := hash.totalBytes * 8
    let marked := hash.buffer ++ [0x80]
    let s := if marked.length > 56
      then (transform hash.state (marked ++ List.replicate (64 - marked.length) 0), [])
      else (hash.state, marked)
    let state := transform s.1 (padded s.2 ++ bigEndian64 totalBits)
    some ⟨storeBigEndian32 state.a ++ storeBigEndian32 state.b ++ storeBigEndian32 state.c ++
      storeBigEndian32 state.d ++ storeBigEndian32 state.e ++ storeBigEndian32 state.f ++
      storeBigEndian32 state.g ++ storeBigEndian32 state.h, rfl⟩

end Sha256

/-- `Sha256Digest`: the digest of a whole buffer. -/
def sha256Digest (input : Bytes) : Option Digest := (Sha256.reset.update input).bind Sha256.final

def constantTimeDigestEqual (left right : Digest) : Bool :=
  (List.zipWith (· ^^^ ·) left.1 right.1).foldl (· ||| ·) (0 : UInt8) == 0

theorem foldl_or_eq_zero {acc : UInt8} {bytes : Bytes} :
    bytes.foldl (· ||| ·) acc = 0 ↔ acc = 0 ∧ ∀ byte ∈ bytes, byte = 0 := by
  induction bytes generalizing acc with
  | nil => simp
  | cons byte rest ih => simp only [foldl_cons, ih, UInt8.or_eq_zero_iff, forall_mem_cons, and_assoc]

theorem constantTimeDigestEqual_iff {left right : Digest} :
    constantTimeDigestEqual left right = true ↔ left = right := by
  unfold constantTimeDigestEqual
  rw [beq_iff_eq, foldl_or_eq_zero]
  constructor
  · rintro ⟨-, hzero⟩
    refine Subtype.ext (ext_getElem (left.2.trans right.2.symm) fun index hleft hright => ?_)
    have hmem : left.1[index] ^^^ right.1[index] ∈ List.zipWith (· ^^^ ·) left.1 right.1 := by
      rw [mem_iff_getElem]
      exact ⟨index, by rw [length_zipWith]; omega, getElem_zipWith⟩
    exact UInt8.xor_eq_zero_iff.1 (hzero _ hmem)
  · rintro rfl
    refine ⟨rfl, fun byte hbyte => ?_⟩
    obtain ⟨index, hindex, rfl⟩ := mem_iff_getElem.1 hbyte
    rw [getElem_zipWith, UInt8.xor_self]

example : (sha256Digest (ascii "abc")).map (fun d => d.1.take 4) = some [0xba, 0x78, 0x16, 0xbf] := by
  decide +kernel

/-! ### Streaming -/

namespace Sha256

theorem update_eq_some_iff {hash next : Sha256} {data : Bytes} :
    hash.update data = some next ↔ hash.finalized = false ∧
      data.length ≤ uint64Max - hash.totalBytes ∧
      next = ⟨(data.foldl absorbByte (hash.state, hash.buffer)).1, hash.totalBytes + data.length,
        (data.foldl absorbByte (hash.state, hash.buffer)).2, hash.finalized⟩ := by
  unfold update
  simp only [Option.ite_none_left_eq_some, not_or, Bool.not_eq_true, gt_iff_lt, Nat.not_lt,
    Option.some.injEq, and_assoc, eq_comm (a := next)]

/-- The hash has been given exactly this message since its last reset. -/
def Fed (hash : Sha256) (message : Bytes) : Prop := reset.update message = some hash

theorem fed_reset : Fed reset [] := rfl

theorem Fed.update {hash next : Sha256} {message data : Bytes} (hfed : hash.Fed message)
    (hupdate : hash.update data = some next) : next.Fed (message ++ data) := by
  obtain ⟨_, hroom, rfl⟩ := update_eq_some_iff.1 hfed
  obtain ⟨_, hroom', rfl⟩ := update_eq_some_iff.1 hupdate
  refine update_eq_some_iff.2 ⟨rfl, ?_, ?_⟩
  · simp only [reset, length_append] at hroom hroom' ⊢
    omega
  · simp only [reset, foldl_append, length_append, Nat.zero_add]

theorem Fed.final {hash : Sha256} {message : Bytes} {digest : Digest} (hfed : hash.Fed message)
    (hfinal : hash.final = some digest) : sha256Digest message = some digest := by
  unfold Fed at hfed
  rw [sha256Digest, hfed]
  exact hfinal

end Sha256

def sampleDigest : Digest :=
  ⟨[0x82, 0x54, 0xc3, 0x29, 0xa9, 0x28, 0x50, 0xf6, 0xd5, 0x39, 0xdd, 0x37, 0x6f, 0x48, 0x16, 0xee, 0x27, 0x64, 0x51,
    0x7d, 0xa5, 0xe0, 0x23, 0x55, 0x14, 0xaf, 0x43, 0x31, 0x64, 0x48, 0x0d, 0x7a], rfl⟩

end Bmx.Update
