import Bmx.SdCard.FatPath

/-!
# Patterns

Patterns are matched as `fnmatch` and `Path.match` do. A pattern without a slash is for the basename, and
one with slashes for as many components, from the right.
-/

namespace Bmx.SdCard

/-- The parts of a pattern. A set has ranges of characters, each from its first to its last. -/
inductive GlobPart
  | star
  | any
  | literal (character : Char)
  | set (negated : Bool) (ranges : List (Char × Char))

/-- The ranges of a set's text. A hyphen between two characters makes a range, and others stand for themselves. -/
def setRanges : Text → List (Char × Char)
  | first :: '-' :: last :: rest => (first, last) :: setRanges rest
  | first :: rest => (first, first) :: setRanges rest
  | [] => []

/-- The text of a set behind its bracket, and what follows, if the set is closed. -/
def setText (pattern : Text) : Option (Bool × Text × Text) :=
  let negated := pattern.head? = some '!'
  let rest := if negated then pattern.drop 1 else pattern
  let lead := if rest.head? = some ']' then [']'] else []
  let rest := rest.drop lead.length
  match rest.dropWhile (· ≠ ']') with
  | [] => none
  | _ :: after => some (negated, lead ++ rest.takeWhile (· ≠ ']'), after)

/-- The parts of a pattern that is no longer than the fuel. -/
def globParts : Nat → Text → List GlobPart
  | 0, _ => []
  | _, [] => []
  | fuel + 1, '*' :: rest => .star :: globParts fuel rest
  | fuel + 1, '?' :: rest => .any :: globParts fuel rest
  | fuel + 1, '[' :: rest =>
    match setText rest with
    | none => .literal '[' :: globParts fuel rest
    | some (negated, stuff, after) => .set negated (setRanges stuff) :: globParts fuel after
  | fuel + 1, character :: rest => .literal character :: globParts fuel rest

def GlobPart.takes (character : Char) : GlobPart → Bool
  | .star => false
  | .any => true
  | .literal other => character = other
  | .set negated ranges => (ranges.any fun range => range.1 ≤ character ∧ character ≤ range.2) != negated

/-- The whole of a name is matched. -/
def matchParts : List GlobPart → Text → Bool
  | [], name => name.isEmpty
  | .star :: parts, name => name.tails.any fun rest => matchParts parts rest
  | part :: parts, name =>
    match name with
    | [] => false
    | character :: rest => part.takes character && matchParts parts rest

def fnmatchcase (name pattern : Text) : Bool := matchParts (globParts pattern.length pattern) name

/-- The components of `Path(path)`. -/
def pathParts (path : Text) : List Text := (components path).filter fun component => component ≠ [] ∧ component ≠ ['.']

/-- `Path(path).match(pattern)`. -/
def pathMatch (path pattern : Text) : Bool :=
  let parts := pathParts path
  let patterns := pathParts pattern
  patterns.length ≤ parts.length ∧
    (List.zip parts.reverse patterns.reverse).all fun pair => fnmatchcase pair.1 pair.2

def matchesGlob (path pattern : Text) : Bool :=
  if '/' ∉ pattern then fnmatchcase (basename path) pattern else pathMatch path pattern

end Bmx.SdCard
