import Bmx.Base.Instances

/-!
# The rows of a message

A message is broken into rows for a dialog. Words are kept together where they fit, blanks between them come to
one, and a line end of the text is a line end of the dialog. Counting the rows and adding them is the same loop.
-/

namespace Bmx.Menu

open List

abbrev Text : Type := List UInt8

def maxMenuStr : Nat := 36
def wrappedDialogMaxText : Nat := 2047
def wrappedDialogMaxLines : Nat := 72
def messageDialogMaxLineColumns : Nat := 35
def messageDialogMinWidthColumns : Nat := 30
def messageDialogMaxWidthColumns : Nat := 36
def wrappedDialogLineColumns : Nat := 34
def messageDialogMinRows : Nat := 4
def messageDialogMaxRows : Nat := 10

/-- A carriage return or a line feed. -/
def isLineEnd (c : UInt8) : Bool := c = 13 ∨ c = 10

/-- A space or a tab. -/
def isBlank (c : UInt8) : Bool := c = 32 ∨ c = 9

def isWordChar (c : UInt8) : Bool := !isLineEnd c && !isBlank c

/-- The rows so far: the items of a root, if there is one, and their count. -/
structure Rows where
  root : Option (List Text)
  lineCount : Nat := 0

/-- `ui_add_wrapped_line`. The item's name is cut where its buffer ends. A row that there is no room for ends the
whole. -/
def addWrappedLine (line : Text) (rows : Rows) : Except Rows Rows :=
  if rows.lineCount ≥ wrappedDialogMaxLines then .error rows
  else .ok { root := rows.root.map (· ++ [line.take (maxMenuStr - 1)]), lineCount := rows.lineCount + 1 }

/-- The state of `ui_add_wrapped_text`. A row that is full has been added. -/
structure Wrap (columns : Nat) where
  rows : Rows
  line : Text := []
  hadContent : Bool := false
  endedWithNewline : Bool := false
  room : line.length < columns

namespace Wrap

variable {columns : Nat}

/-- A row is added, and the next one begun. -/
def flush (line : Text) (s : Wrap columns) : Except Rows (Wrap columns) := do
  let rows ← addWrappedLine line s.rows
  return { s with rows := rows, line := [], room := Nat.lt_of_le_of_lt (Nat.zero_le _) s.room }

def wrote (s : Wrap columns) : Wrap columns := { s with hadContent := true, endedWithNewline := false }

/-- A word is copied, over as many rows as it takes. -/
def putWord (word : Text) (s : Wrap columns) : Except Rows (Wrap columns) :=
  if hword : word = [] then .ok s
  else
    let amount := min word.length (columns - s.line.length)
    if hfull : word.drop amount ≠ [] ∨ s.line.length + amount = columns then do
      let next ← s.wrote.flush (s.line ++ word.take amount)
      next.putWord (word.drop amount)
    else
      .ok { s.wrote with
        line := s.line ++ word.take amount
        room := by
          have hroom := s.room
          simp only [length_append, length_take, amount] at hfull ⊢
          omega }
termination_by word.length
decreasing_by
  have hroom := s.room
  have hpos : 0 < word.length := length_pos_of_ne_nil hword
  simp only [length_drop]
  omega

/-- A word goes on with the row after a space, or begins the next one. -/
def placeWord (word : Text) (hword : word ≠ []) (s : Wrap columns) : Except Rows (Wrap columns) :=
  if s.line ≠ [] then
    if hfits : word.length + 1 ≤ columns - s.line.length then
      { s with
        line := s.line ++ [32]
        room := by
          have hpos : 0 < word.length := length_pos_of_ne_nil hword
          simp only [length_append, length_singleton]
          omega }.putWord word
    else do
      let next ← s.flush s.line
      next.putWord word
  else s.putWord word

/-- A line end. A line without content is a row of its own. -/
def endLine (s : Wrap columns) : Except Rows (Wrap columns) := do
  let next ← if s.line ≠ [] then s.flush s.line else if !s.hadContent then s.flush [] else .ok s
  return { next with hadContent := false, endedWithNewline := true }

/-- The loop of `ui_add_wrapped_text`. -/
def wrapLoop (input : Text) (s : Wrap columns) : Except Rows (Wrap columns) :=
  match input with
  | [] => .ok s
  | c :: input =>
    if isLineEnd c then do
      let next ← s.endLine
      if c = 13 ∧ input.head? = some 10 then next.wrapLoop input.tail else next.wrapLoop input
    else if isBlank c then s.wrapLoop (input.dropWhile isBlank)
    else do
      let next ← s.placeWord (c :: input.takeWhile isWordChar) (cons_ne_nil _ _)
      next.wrapLoop (input.dropWhile isWordChar)
termination_by input.length
decreasing_by
  all_goals simp only [length_cons, length_tail]
  · omega
  · omega
  · exact Nat.lt_succ_of_le (dropWhile_sublist _).length_le
  · exact Nat.lt_succ_of_le (dropWhile_sublist _).length_le

/-- What is left at the end of the text. -/
def finish (s : Wrap columns) : Except Rows Rows :=
  if s.line ≠ [] then addWrappedLine s.line s.rows
  else if s.endedWithNewline then addWrappedLine [] s.rows
  else .ok s.rows

end Wrap

/-- As much of a text as is read: up to its end, or to the limit. -/
def textWindow (txt : Option Text) : Text := ((txt.getD []).takeWhile (· ≠ 0)).take wrappedDialogMaxText

/-- The columns that a row may have. -/
def wrapColumns (columns : Nat) : Nat :=
  if columns = 0 ∨ columns > messageDialogMaxLineColumns then messageDialogMaxLineColumns else columns

theorem wrapColumns_pos (columns : Nat) : 0 < wrapColumns columns := by
  unfold wrapColumns messageDialogMaxLineColumns
  split <;> omega

/-- The rows that a loop was left with, by its end or before it. -/
def Rows.ofResult : Except Rows Rows → Rows
  | .ok rows => rows
  | .error rows => rows

def uiAddWrappedText (root : Option (List Text)) (txt : Option Text) (columns : Nat) : Rows :=
  Rows.ofResult do
    let start : Wrap (wrapColumns columns) :=
      { rows := { root := root }, line := [], room := wrapColumns_pos columns }
    let s ← start.wrapLoop (textWindow txt)
    s.finish

/-! ### The dialog of a message -/

/-- The longest line of a text, from a line on that is read already. -/
def longestLine : Text → Nat → Nat → Nat
  | [], longest, current => max longest current
  | c :: input, longest, current =>
    if isLineEnd c then
      match c, input with
      | 13, 10 :: input => longestLine input (max longest current) 0
      | _, input => longestLine input (max longest current) 0
    else longestLine input longest (current + 1)

/-- `ui_message_longest_explicit_line`. -/
def messageLongestExplicitLine (title : Option Text) (txt : Option Text) : Nat :=
  longestLine (textWindow txt) (title.elim 0 fun title => (title.takeWhile (· ≠ 0)).length) 0

structure MessageDialogLayout where
  widthColumns : Nat
  heightRows : Nat
  textColumns : Nat
  scrollable : Bool

/-- `ui_measure_message_dialog`. -/
def measureMessageDialog (title txt : Option Text) (fixedRows : Nat) : MessageDialogLayout :=
  let longest := messageLongestExplicitLine title txt
  let width :=
    if longest ≥ messageDialogMaxLineColumns then messageDialogMaxWidthColumns
    else if longest + 1 < messageDialogMinWidthColumns then messageDialogMinWidthColumns
    else longest + 1
  let totalRows := fixedRows + (uiAddWrappedText none txt (width - 1)).lineCount
  if totalRows > messageDialogMaxRows then
    { widthColumns := messageDialogMaxWidthColumns, heightRows := messageDialogMaxRows
      textColumns := wrappedDialogLineColumns, scrollable := true }
  else
    { widthColumns := width, heightRows := max totalRows messageDialogMinRows, textColumns := width - 1
      scrollable := false }

end Bmx.Menu
