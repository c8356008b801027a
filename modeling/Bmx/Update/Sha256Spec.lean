import Mathlib.Data.List.Induction
import Bmx.Update.Sha256

/-!
# SHA-256 of FIPS 180-4

The standard pads a message to whole blocks and says of each block what it makes of the hash value. The updater
hashes a message in pieces, with a part of a block between them, and pads what is left at the end.
-/

namespace Bmx.Update

open Sha256 List

/-! ### The standard -/

namespace Fips180

def rotr (n : Nat) (x : UInt32) : UInt32 := UInt32.ofBitVec (x.toBitVec.rotateRight n)

def ch (x y z : UInt32) : UInt32 := (x &&& y) ^^^ (~~~x &&& z)
def maj (x y z : UInt32) : UInt32 := (x &&& y) ^^^ (x &&& z) ^^^ (y &&& z)
def bigSigma0 (x : UInt32) : UInt32 := rotr 2 x ^^^ rotr 13 x ^^^ rotr 22 x
def bigSigma1 (x : UInt32) : UInt32 := rotr 6 x ^^^ rotr 11 x ^^^ rotr 25 x
def smallSigma0 (x : UInt32) : UInt32 := rotr 7 x ^^^ rotr 18 x ^^^ (x >>> 3)
def smallSigma1 (x : UInt32) : UInt32 := rotr 17 x ^^^ rotr 19 x ^^^ (x >>> 10)

/-- The largest number whose power is not above the bound, of at most so many bits. -/
def integerRoot (power bound : Nat) : Nat → Nat
  | 0 => 0
  | bits + 1 =>
    let high := integerRoot power (bound >>> power) bits * 2
    if (high + 1) ^ power ≤ bound then high + 1 else high

/-- The first 32 bits of the fractional part of a root. -/
def rootFraction (power radicand : Nat) : UInt32 :=
  UInt32.ofNat (integerRoot power (radicand * 2 ^ (32 * power)) 40)

def primes : List Nat := [2, 3, 5, 7, 11, 13, 17, 19, 23, 29, 31, 37, 41, 43, 47, 53, 59, 61, 67, 71, 73, 79, 83,
  89, 97, 101, 103, 107, 109, 113, 127, 131, 137, 139, 149, 151, 157, 163, 167, 173, 179, 181, 191, 193, 197, 199,
  211, 223, 227, 229, 233, 239, 241, 251, 257, 263, 269, 271, 277, 281, 283, 293, 307, 311]

def constant (t : Nat) : UInt32 := rootFraction 3 (primes.getD t 0)

def word : Bytes → UInt32
  | b0 :: b1 :: b2 :: b3 :: _ => UInt32.ofBitVec (b0.toBitVec ++ b1.toBitVec ++ b2.toBitVec ++ b3.toBitVec)
  | _ => 0

def schedule (block : Bytes) (t : Nat) : UInt32 :=
  if t < 16 then word (block.drop (4 * t))
  else smallSigma1 (schedule block (t - 2)) + schedule block (t - 7) + smallSigma0 (schedule block (t - 15)) +
    schedule block (t - 16)

/-- What the working variables become in one step. -/
def step (s : Words) (k w : UInt32) : Words :=
  let t1 := s.h + bigSigma1 s.e + ch s.e s.f s.g + k + w
  let t2 := bigSigma0 s.a + maj s.a s.b s.c
  ⟨t1 + t2, s.a, s.b, s.c, s.d + t1, s.e, s.f, s.g⟩

/-- The next hash value. -/
def compress (hash : Words) (block : Bytes) : Words :=
  let s := (List.range 64).foldl (fun s t => step s (constant t) (schedule block t)) hash
  ⟨hash.a + s.a, hash.b + s.b, hash.c + s.c, hash.d + s.d, hash.e + s.e, hash.f + s.f, hash.g + s.g, hash.h + s.h⟩

def initial : Words :=
  ⟨rootFraction 2 2, rootFraction 2 3, rootFraction 2 5, rootFraction 2 7, rootFraction 2 11, rootFraction 2 13,
    rootFraction 2 17, rootFraction 2 19⟩

def octets {w : Nat} (x : BitVec w) : Bytes :=
  (List.range (w / 8)).map fun i => UInt8.ofBitVec (x.extractLsb' (w - 8 * (i + 1)) 8)

/-- A one bit, zero bits up to 56 bytes after a whole block, and the length in bits. -/
def padding (length : Nat) : Bytes :=
  0x80 :: (List.replicate ((119 - length % 64) % 64) 0 ++ octets (BitVec.ofNat 64 (8 * length)))

def block (message : Bytes) (i : Nat) : Bytes := (message.drop (64 * i)).take 64

/-- The hash value after so many blocks. -/
def blocks (count : Nat) (message : Bytes) : Words :=
  (List.range count).foldl (fun hash i => compress hash (block message i)) initial

def hashValue (s : Words) : List UInt32 := [s.a, s.b, s.c, s.d, s.e, s.f, s.g, s.h]

def sha256 (message : Bytes) : Bytes :=
  let padded := message ++ padding message.length
  (hashValue (blocks (padded.length / 64) padded)).flatMap fun x => octets x.toBitVec

end Fips180

open Fips180

/-! ### Words -/

theorem initial_eq : initialWords = initial := by decide +kernel

theorem constants_eq : roundConstants = (List.range 64).map constant := by decide +kernel

theorem round_eq (s : Words) (constant word : UInt32) : round s constant word = step s constant word := rfl

theorem scheduleWord_eq (words : List UInt32) : scheduleWord words =
    words.getD 15 0 + smallSigma0 (words.getD 14 0) + words.getD 6 0 + smallSigma1 (words.getD 1 0) := rfl

theorem loadBigEndian32_eq (bytes : Bytes) : loadBigEndian32 bytes = word bytes := by
  rcases bytes with _ | ⟨b0, _ | ⟨b1, _ | ⟨b2, _ | ⟨b3, rest⟩⟩⟩⟩
  · rfl
  · rfl
  · rfl
  · rfl
  · apply UInt32.eq_of_toBitVec_eq
    apply BitVec.eq_of_getLsbD_eq
    intro i hi
    change ((b0.toUInt32 <<< 24) ||| (b1.toUInt32 <<< 16) ||| (b2.toUInt32 <<< 8) ||| b3.toUInt32).toBitVec.getLsbD i =
      (b0.toBitVec ++ b1.toBitVec ++ b2.toBitVec ++ b3.toBitVec : BitVec (8 + 8 + 8 + 8)).getLsbD i
    rw [BitVec.getLsbD_append, BitVec.getLsbD_append, BitVec.getLsbD_append]
    simp only [UInt32.toBitVec_or, UInt32.toBitVec_shiftLeft, UInt8.toBitVec_toUInt32, Nat.sub_sub]
    -- The byte in which the bit lies.
    have hplace : i < 8 ∨ 8 ≤ i ∧ i < 16 ∨ 16 ≤ i ∧ i < 24 ∨ 24 ≤ i := by omega
    rcases hplace with h | ⟨h, h'⟩ | ⟨h, h'⟩ | h
    · simp [hi, h, show i < 16 by omega, show i < 24 by omega]
    · simp [hi, h, h', show i < 24 by omega, show ¬ i < 8 by omega, show i - 8 < 8 by omega]
    · simp [hi, h', show 8 ≤ i by omega, show 8 ≤ i - 8 by omega, show ¬ i < 8 by omega, show ¬ i < 16 by omega,
        show ¬ i - 8 < 8 by omega, show i - 16 < 8 by omega]
    · simp [hi, show 8 ≤ i by omega, show 8 ≤ i - 8 by omega, show 8 ≤ i - 16 by omega, show ¬ i < 8 by omega,
        show ¬ i < 24 by omega, show ¬ i - 8 < 8 by omega, show ¬ i - 16 < 8 by omega]

theorem storeBigEndian32_eq (value : UInt32) : storeBigEndian32 value = octets value.toBitVec := by
  have hbyte (n : Nat) (hn : n < 32) :
      (value >>> UInt32.ofNat n).toUInt8 = UInt8.ofBitVec (BitVec.extractLsb' n 8 value.toBitVec) := by
    ext
    simp [Nat.mod_eq_of_lt hn]
  have hlast : value.toUInt8 = UInt8.ofBitVec (BitVec.extractLsb' 0 8 value.toBitVec) := by
    simpa using hbyte 0 (by decide)
  have hbytes : octets value.toBitVec =
      [24, 16, 8, 0].map fun n => UInt8.ofBitVec (BitVec.extractLsb' n 8 value.toBitVec) := rfl
  rw [hbytes]
  simp only [storeBigEndian32, map_cons, map_nil, ← hlast]
  rfl

theorem bigEndian64_eq (value : Nat) : bigEndian64 value = octets (BitVec.ofNat 64 value) := by
  unfold bigEndian64 octets
  refine map_congr_left fun i hi => ?_
  apply UInt8.eq_of_toBitVec_eq
  apply BitVec.eq_of_getLsbD_eq
  intro j hj
  have hbound : 64 - 8 * (i + 1) + j < 64 := by omega
  have hplace : 8 * (7 - i) + j = 64 - 8 * (i + 1) + j := by omega
  rw [UInt8.toBitVec_ofNat', BitVec.getLsbD_ofNat, BitVec.getLsbD_extractLsb', BitVec.getLsbD_ofNat,
    Nat.testBit_shiftRight, hplace]
  simp [hbound]

/-! ### A block -/

theorem schedule_first {block : Bytes} {t : Nat} (h : t < 16) :
    Fips180.schedule block t = word (block.drop (4 * t)) := by
  rw [Fips180.schedule, if_pos h]

theorem schedule_later {block : Bytes} {t : Nat} (h : 16 ≤ t) : Fips180.schedule block t =
    smallSigma1 (Fips180.schedule block (t - 2)) + Fips180.schedule block (t - 7) +
      smallSigma0 (Fips180.schedule block (t - 15)) + Fips180.schedule block (t - 16) := by
  rw [Fips180.schedule, if_neg (Nat.not_lt.2 h)]

theorem loadWords_eq (count : Nat) (block : Bytes) :
    loadWords count block = (List.range count).map fun t => word (block.drop (4 * t)) := by
  induction count generalizing block with
  | zero => rfl
  | succ count ih =>
    rw [loadWords, ih, loadBigEndian32_eq, range_succ_eq_map, map_cons, map_map]
    simp [Function.comp_def, drop_drop, Nat.mul_add, Nat.add_comm]

/-- The schedule is extended as the standard says, from the words before. -/
theorem extendSchedule_eq (block : Bytes) (count : Nat) {t : Nat} (ht : 16 ≤ t) :
    extendSchedule count ((List.range t).map (Fips180.schedule block)).reverse =
      ((List.range (t + count)).map (Fips180.schedule block)).reverse := by
  induction count generalizing t with
  | zero => rfl
  | succ count ih =>
    have hget (i : Nat) (hi : i < 16) : ((List.range t).map (Fips180.schedule block)).reverse.getD i 0 =
        Fips180.schedule block (t - (i + 1)) := by
      rw [getD_eq_getElem?_getD, getElem?_eq_getElem (by simp; omega), Option.getD_some,
        getElem_reverse, getElem_map, getElem_range]
      simp [Nat.sub_sub, Nat.add_comm]
    have hword : scheduleWord ((List.range t).map (Fips180.schedule block)).reverse = Fips180.schedule block t := by
      rw [scheduleWord_eq, hget 15 (by decide), hget 14 (by decide), hget 6 (by decide), hget 1 (by decide),
        schedule_later ht]
      ac_rfl
    have hnext := ih (t := t + 1) (Nat.le_succ_of_le ht)
    rw [range_succ, map_append, reverse_append, Nat.add_right_comm] at hnext
    rw [extendSchedule, hword]
    exact hnext

theorem schedule_eq (block : Bytes) : schedule block = (List.range 64).map (Fips180.schedule block) := by
  have hload : loadWords 16 block = (List.range 16).map (Fips180.schedule block) := by
    rw [loadWords_eq]
    exact map_congr_left fun t ht => (schedule_first (mem_range.1 ht)).symm
  rw [schedule, hload, extendSchedule_eq block 48 (Nat.le_refl 16), reverse_reverse]

theorem rounds_map (constants words : Nat → UInt32) (ts : List Nat) (s : Words) :
    rounds (ts.map constants) (ts.map words) s = ts.foldl (fun s t => step s (constants t) (words t)) s := by
  induction ts generalizing s with
  | nil => rfl
  | cons t ts ih => rw [map_cons, map_cons, rounds, ih, round_eq, foldl_cons]

theorem transform_eq (state : Words) (block : Bytes) : transform state block = compress state block := by
  rw [transform, compress, schedule_eq, constants_eq, rounds_map]

/-! ### A message -/

theorem block_append {message : Bytes} {i : Nat} (h : 64 * (i + 1) ≤ message.length) (rest : Bytes) :
    block (message ++ rest) i = block message i := by
  rw [block, block, drop_append_of_le_length (by omega), take_append_of_le_length]
  rw [length_drop]
  omega

theorem blocks_succ (count : Nat) (message : Bytes) :
    blocks (count + 1) message = compress (blocks count message) (block message count) := by
  rw [blocks, range_succ, foldl_append]
  rfl

theorem blocks_append {message : Bytes} {count : Nat} (h : 64 * count ≤ message.length) (rest : Bytes) :
    blocks count (message ++ rest) = blocks count message := by
  induction count with
  | zero => simp only [blocks, range_zero, foldl_nil]
  | succ count ih => rw [blocks_succ, blocks_succ, ih (by omega), block_append h]

/-- What has been hashed of a message, and what is left of it in the buffer. -/
def absorbed (message : Bytes) : Words × Bytes :=
  (blocks (message.length / 64) message, message.drop (64 * (message.length / 64)))

/-- The buffer holds the part of a block, and the blocks before it are hashed. -/
theorem absorb_eq (message : Bytes) : message.foldl absorbByte (initialWords, []) = absorbed message := by
  induction message using List.reverseRecOn with
  | nil => rw [initial_eq]; rfl
  | append_singleton message value ih =>
    have hwhole : 64 * (message.length / 64) ≤ message.length := Nat.mul_div_le _ _
    have hbuffer : message.drop (64 * (message.length / 64)) ++ [value] =
        (message ++ [value]).drop (64 * (message.length / 64)) := (drop_append_of_le_length hwhole).symm
    rw [foldl_append, ih, foldl_cons, foldl_nil, absorbByte, absorbed, hbuffer]
    have hlength : ((message ++ [value]).drop (64 * (message.length / 64))).length = message.length % 64 + 1 := by
      rw [length_drop, length_append, length_singleton]
      omega
    rw [hlength, absorbed, length_append, length_singleton]
    split
    · next hfull =>
      have hcount : (message.length + 1) / 64 = message.length / 64 + 1 := by omega
      have hblock : block (message ++ [value]) (message.length / 64) =
          (message ++ [value]).drop (64 * (message.length / 64)) := take_of_length_le (by rw [hlength]; omega)
      have hempty : (message ++ [value]).drop (64 * (message.length / 64 + 1)) = [] := drop_of_length_le (by
        rw [length_append, length_singleton]
        omega)
      rw [hcount, blocks_succ, blocks_append hwhole, hblock, hempty, transform_eq]
    · next hpart =>
      have hcount : (message.length + 1) / 64 = message.length / 64 := by omega
      rw [hcount, blocks_append hwhole]

theorem absorb_fill {state : Words} {buffer bytes : Bytes} (hbuffer : buffer.length < 64)
    (hfull : buffer.length + bytes.length = 64) :
    bytes.foldl absorbByte (state, buffer) = (transform state (buffer ++ bytes), []) := by
  induction bytes generalizing buffer with
  | nil => simp at hfull; omega
  | cons value rest ih =>
    rw [length_cons] at hfull
    rw [foldl_cons, absorbByte, length_append, length_singleton]
    dsimp only
    split
    · next hlast =>
      obtain rfl : rest = [] := length_eq_zero_iff.1 (by omega)
      rfl
    · next hmore =>
      rw [ih (by simp; omega) (by simp; omega), append_assoc, singleton_append]

theorem octets_length {w : Nat} (x : BitVec w) : (octets x).length = w / 8 := by simp [octets]

/-- The state from which `Final` takes the digest. -/
def finalState (hash : Sha256) : Words :=
  let marked := hash.buffer ++ [0x80]
  let s := if marked.length > 56
    then (transform hash.state (marked ++ List.replicate (64 - marked.length) 0), [])
    else (hash.state, marked)
  transform s.1 (padded s.2 ++ bigEndian64 (hash.totalBytes * 8))

/-- The padding of `Final` is the one of the standard. -/
theorem finalState_eq {hash : Sha256} (hbuffer : hash.buffer.length = hash.totalBytes % 64) :
    finalState hash = ((padding hash.totalBytes).foldl absorbByte (hash.state, hash.buffer)).1 := by
  have hlength := octets_length (BitVec.ofNat 64 (8 * hash.totalBytes))
  rw [finalState, padded, bigEndian64_eq, Nat.mul_comm, length_append, length_singleton, hbuffer]
  split
  · next hspill =>
    -- The mark fills the block up, and the length stands in one more.
    have hpadding : padding hash.totalBytes = (0x80 :: List.replicate (63 - hash.totalBytes % 64) 0) ++
        (List.replicate 56 0 ++ octets (BitVec.ofNat 64 (8 * hash.totalBytes))) := by
      have hzeros : (119 - hash.totalBytes % 64) % 64 = 63 - hash.totalBytes % 64 + 56 := by omega
      rw [padding, hzeros, ← replicate_append_replicate, append_assoc, cons_append]
    have hfirst : (0x80 :: List.replicate (63 - hash.totalBytes % 64) 0).foldl absorbByte
        (hash.state, hash.buffer) =
          (transform hash.state (hash.buffer ++ 0x80 :: List.replicate (63 - hash.totalBytes % 64) 0), []) :=
      absorb_fill (by omega) (by rw [length_cons, length_replicate]; omega)
    have hmark : 64 - (hash.totalBytes % 64 + 1) = 63 - hash.totalBytes % 64 := by omega
    rw [hpadding, foldl_append, hfirst, hmark, append_assoc, singleton_append,
      absorb_fill (by decide) (by rw [length_append, hlength, length_replicate]; rfl)]
    rfl
  · next hroom =>
    have hpadding : padding hash.totalBytes = 0x80 :: (List.replicate (55 - hash.totalBytes % 64) 0 ++
        octets (BitVec.ofNat 64 (8 * hash.totalBytes))) := by
      have hzeros : (119 - hash.totalBytes % 64) % 64 = 55 - hash.totalBytes % 64 := by omega
      rw [padding, hzeros]
    rw [hpadding, absorb_fill (by omega)
      (by rw [length_cons, length_append, hlength, length_replicate]; omega)]
    have hmark : 56 - (hash.buffer ++ [(0x80 : UInt8)]).length = 55 - hash.totalBytes % 64 := by
      rw [length_append, length_singleton]
      omega
    simp only [hmark, append_assoc, cons_append, nil_append]

theorem final_digest {hash : Sha256} (hopen : hash.finalized = false) (hsize : hash.totalBytes ≤ uint64Max / 8) :
    hash.final.map Subtype.val = some ((hashValue (finalState hash)).flatMap storeBigEndian32) := by
  rw [final, if_neg (by simp [hopen]; omega)]
  simp [hashValue, finalState]

/-- `Final` on what a message has left gives the digest of the standard. -/
theorem final_eq (message : Bytes) (h : 8 * message.length < 2 ^ 64) :
    (mk (absorbed message).1 message.length (absorbed message).2 false).final.map Subtype.val =
      some (Fips180.sha256 message) := by
  have hpadded : (message ++ padding message.length).foldl absorbByte (initialWords, []) =
      (padding message.length).foldl absorbByte (absorbed message) := by
    rw [foldl_append, absorb_eq]
  rw [final_digest rfl (by simp only [uint64Max]; omega), finalState_eq, ← hpadded, absorb_eq]
  · rw [Fips180.sha256, absorbed]
    simp only [funext storeBigEndian32_eq]
  · rw [absorbed, length_drop]
    change message.length - 64 * (message.length / 64) = message.length % 64
    omega

theorem update_append (hash : Sha256) (first rest : Bytes) :
    (hash.update first).bind (fun next => next.update rest) = hash.update (first ++ rest) := by
  simp only [update, length_append, foldl_append]
  by_cases hfirst : hash.finalized ∨ first.length > uint64Max - hash.totalBytes
  · rw [if_pos hfirst, if_pos (hfirst.imp_right fun h => by omega), Option.bind_none]
  · have hroom : (hash.finalized ∨ rest.length > uint64Max - (hash.totalBytes + first.length)) ↔
        (hash.finalized ∨ first.length + rest.length > uint64Max - hash.totalBytes) := by
      exact or_congr_right (by omega)
    rw [if_neg hfirst, Option.bind_some]
    simp only [hroom, Nat.add_assoc]

theorem update_chunks (chunks : List Bytes) {hash : Sha256} (hopen : hash.finalized = false) :
    chunks.foldlM update hash = hash.update chunks.flatten := by
  induction chunks generalizing hash with
  | nil =>
    simp only [foldlM_nil, flatten_nil, update, hopen]
    rw [if_neg (by simp), ← hopen]
    rfl
  | cons chunk rest ih =>
    rw [foldlM_cons, flatten_cons, ← update_append]
    cases hchunk : hash.update chunk with
    | none => rfl
    | some next =>
      obtain ⟨-, -, rfl⟩ := update_eq_some_iff.1 hchunk
      exact ih hopen

/-- Every split of every message into pieces is hashed to the digest of the standard, as far as the standard has
one. -/
theorem sha256_eq_fips (chunks : List Bytes) :
    ((chunks.foldlM update reset).bind final).map Subtype.val =
      if 8 * chunks.flatten.length < 2 ^ 64 then some (Fips180.sha256 chunks.flatten) else none := by
  rw [update_chunks chunks rfl]
  generalize chunks.flatten = message
  split
  · next hsize =>
    have hupdate : reset.update message =
        some ⟨(absorbed message).1, message.length, (absorbed message).2, false⟩ := by
      refine update_eq_some_iff.2 ⟨rfl, ?_, ?_⟩
      · simp only [uint64Max, reset]
        omega
      · rw [reset, absorb_eq, Nat.zero_add]
    rw [hupdate, Option.bind_some, final_eq message hsize]
  · next hsize =>
    cases hupdate : reset.update message with
    | none => rfl
    | some next =>
      obtain ⟨-, -, rfl⟩ := update_eq_some_iff.1 hupdate
      rw [Option.bind_some, final, if_pos (.inr (by simp only [uint64Max, reset]; omega)),
        Option.map_none]

end Bmx.Update
