import Bmx.Base.Bytes

/-!
# The editor's block in a keymap file

The block stands between two marker lines. Saving puts a new block at the end of the text and takes the old one out.
-/

namespace Bmx.Keymap

def blockBegin : Bytes := ascii "# BMX-KEYMAP-EDITOR-BEGIN"
def blockEnd : Bytes := ascii "# BMX-KEYMAP-EDITOR-END"

def isLineEnd (c : UInt8) : Bool := c = lf ∨ c = cr

/-- A text starts with a marker and the line may end after it. -/
def markerAt (marker text : Bytes) : Bool :=
  marker.isPrefixOf text && (text.drop marker.length).head?.all isLineEnd

/-- The loop of `find_marker_line`: `strstr`, which stops at a NUL, finds the marker, and one that is not a line is passed
over whole. The result is the text before the line and the text from it on. -/
def findMarkerLineFrom (marker : Bytes) : Nat → Option UInt8 → Bytes → Option (Bytes × Bytes)
  | _, _, [] => none
  | skip + 1, _, c :: rest => (findMarkerLineFrom marker skip (some c) rest).map fun found => (c :: found.1, found.2)
  | 0, previous, c :: rest =>
    if c = 0 then none
    else if marker.isPrefixOf (c :: rest) then
      if previous.all (· = lf) && markerAt marker (c :: rest) then some ([], c :: rest)
      else
        (findMarkerLineFrom marker (marker.length - 1) (some c) rest).map fun found => (c :: found.1, found.2)
    else (findMarkerLineFrom marker 0 (some c) rest).map fun found => (c :: found.1, found.2)

def findMarkerLine (marker text : Bytes) : Option (Bytes × Bytes) := findMarkerLineFrom marker 0 none text

/-- The text after the line that a text starts with. A line that a NUL cuts is taken for the last one. -/
def afterLine (text : Bytes) : Bytes :=
  match text.dropWhile fun c => c ≠ lf && c ≠ 0 with
  | [] => []
  | c :: rest => if c = lf then rest else []

def findAfterLine (marker text : Bytes) : Option Bytes :=
  (findMarkerLine marker text).map fun found => afterLine found.2

def trimLineEnds (text : Bytes) : Bytes := (text.reverse.dropWhile isLineEnd).reverse

/-- A part of the output: a text with two line feeds, or nothing. -/
def part (text : Bytes) : Bytes := if text = [] then [] else text ++ [lf, lf]

/-- The texts before and after the old block, `none` if it has no end. -/
def aroundBlock (input : Bytes) : Option (Bytes × Bytes) :=
  match findMarkerLine blockBegin input with
  | none => some (input, [])
  | some (before, rest) => (findAfterLine blockEnd rest).map fun suffix => (before, suffix)

/-- `keymap_editor_replace_block`. The text ends in a NUL, as the function checks. -/
def keymapEditorReplaceBlock (input block : Bytes) (outputSize : Nat) : Option Bytes := do
  let (before, suffix) ← aroundBlock input
  let before := trimLineEnds before
  let suffix := suffix.dropWhile isLineEnd
  let output := part before ++ (part suffix ++ block)
  if outputSize < output.length + 1 then none else return output

end Bmx.Keymap
