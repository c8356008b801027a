import Bmx.Base.CardFiles

/-!
# Uncompressing a disk image

The bridge looks at the first byte of a file, derives the name of the output from that of the input and has the file
converted into it.
-/

namespace Bmx.Atari

def dot : UInt8 := 46

def newbaseSize : Nat := 128

def gzMagic : UInt8 := 0x1f
def isDcm (magic : UInt8) : Bool := magic = 0xf9 ∨ magic = 0xfa

/-- A character of a new extension in the case of the one before it. -/
def inCaseOf (old new : UInt8) : UInt8 := if 65 ≤ old ∧ old ≤ 90 ∧ 97 ≤ new then new - 32 else new

/-- `swap_ext_case` in a buffer of `newbaseSize` characters, `none` when it writes past the end. What stands in the
buffer after the end of the name is stale. -/
def swapExtCase (stale : Nat → UInt8) (base newext : Bytes) : Option Bytes :=
  match splitLast dot base with
  | none =>
    if base.length + 1 + newext.length < newbaseSize then some (base ++ dot :: newext) else none
  | some (stem, ext) =>
    let newext := newext.take 8
    let old (i : Nat) : UInt8 := (ext ++ [0]).getD i (stale (stem.length + 1 + i))
    if stem.length + 1 + newext.length < newbaseSize then
      some (stem ++ dot :: newext.mapIdx fun i new => inCaseOf (old i) new)
    else none

/-- The rules for a file that starts like a gzip stream. -/
def gzName (stale : Nat → UInt8) (newbase : Bytes) : Option Bytes :=
  match splitLast dot newbase with
  | none => some newbase
  | some (stem, ext) =>
    if ext = ascii "gz" ∨ ext = ascii "GZ" then some stem
    else if ext = ascii "atz" ∨ ext = ascii "ATZ" then swapExtCase stale newbase (ascii "atr")
    else if ext = ascii "xfz" ∨ ext = ascii "XFZ" then swapExtCase stale newbase (ascii "xfd")
    else some newbase

def outputName (stale : Nat → UInt8) (magic : UInt8) (newbase : Bytes) : Option Bytes :=
  if magic = gzMagic then gzName stale newbase else swapExtCase stale newbase (ascii "atr")

/-- What the bridge calls: the two conversions, each with what it writes and whether it succeeds, and the opening of a
file for writing. The first conversion opens the input by its path, the second reads the stream that is open. -/
structure Conversions where
  extractGz : Option Bytes → Bytes × Bool
  dcmToAtr : Option Bytes → Bytes × Bool
  opens : Card → Bytes → Bool

def Conversions.converter (conversions : Conversions) (magic : UInt8) : Option Bytes → Bytes × Bool :=
  if magic = gzMagic then conversions.extractGz else conversions.dcmToAtr

/-- The status with the caller's buffer, as far as it was written, and the card. -/
structure Uncompressed where
  status : Int
  outPath : Option Bytes
  card : Card

def convert (conversions : Conversions) (card : Card) (path : Bytes) (magic : UInt8) (outPath : Bytes) : Uncompressed :=
  if conversions.opens card outPath then
    let emptied := card.write outPath []
    let (written, ok) := conversions.converter magic (emptied.read path)
    { status := if ok then 0 else -1, outPath := some outPath, card := emptied.write outPath written }
  else { status := -1, outPath := some outPath, card := card }

/-- `emux_atari_uncompress`, `none` when it writes past the end of its buffer. A null pointer is `none`. -/
def emuxAtariUncompress (conversions : Conversions) (stale : Nat → UInt8) (card : Card) (path : Option Bytes)
    (outSize : Option Nat) : Option Uncompressed :=
  let failed : Uncompressed := { status := -1, outPath := none, card := card }
  match path, outSize with
  | some path, some outSize =>
    if outSize = 0 then some failed
    else
      match card.read path with
      | none => some failed
      | some content =>
        match content.head? with
        | none => some failed
        | some magic =>
          let newbase := (splitPath path).2.take (newbaseSize - 1)
          if magic = gzMagic ∨ isDcm magic then do
            let name ← outputName stale magic newbase
            return convert conversions card path magic (((splitPath path).1 ++ name).take (outSize - 1))
          else some failed
  | _, _ => some failed

end Bmx.Atari
