import Bmx.Base.Words
import Bmx.Menu.WrappedText
import Mathlib.Data.List.TakeWhile
import Mathlib.Data.List.Forall2

/-!
# A wrapped message is the message

The rows of a text are those of its lines, one after another. A line without words is one empty row. The words
of a line are laid out in order, joined by single spaces, and only a word that is longer than a row is cut.
-/

namespace Bmx.Menu

open List

/-! ### The layout of a text -/

/-- The first line of a text, and those after it. Both characters of a line end count once. -/
def explicitLines (txt : Text) : Text × List Text :=
  match txt with
  | [] => ([], [])
  | c :: input =>
    if isLineEnd c then
      let rest := if c = 13 ∧ input.head? = some 10 then explicitLines input.tail else explicitLines input
      ([], rest.1 :: rest.2)
    else
      let rest := explicitLines input
      (c :: rest.1, rest.2)
termination_by txt.length
decreasing_by all_goals simp only [length_cons, length_tail]; omega

def wordsOf (line : Text) : List Text := words isBlank line

/-- A word that is longer than a row, cut after every row, from a row that is begun. -/
def chunksFrom (columns : Nat) (line word : Text) : List Text :=
  if word.length ≤ columns - line.length ∨ columns = 0 ∨ columns ≤ line.length then [line ++ word]
  else (line ++ word.take (columns - line.length)) :: chunksFrom columns [] (word.drop (columns - line.length))
termination_by word.length
decreasing_by simp only [length_drop]; omega

def chunks (columns : Nat) (word : Text) : List Text := chunksFrom columns [] word

def joinWords (row : List Text) : Text := joined 32 row

/-- The rows of a line: what they hold, put together, are the words in order, the long ones cut. -/
def LineRows (columns : Nat) (line : Text) (rows : List Text) : Prop :=
  (wordsOf line = [] ∧ rows = [[]]) ∨
    (wordsOf line ≠ [] ∧ ∃ groups : List (List Text), (∀ group ∈ groups, group ≠ []) ∧
      groups.flatten = (wordsOf line).flatMap (chunks columns) ∧ rows = groups.map joinWords)

/-- The rows of a text. A text of one line without words has none. -/
def TextRows (columns : Nat) (txt : Text) (rows : List Text) : Prop :=
  if wordsOf (explicitLines txt).1 = [] ∧ (explicitLines txt).2 = [] then rows = []
  else ∃ lineRows, List.Forall₂ (LineRows columns) ((explicitLines txt).1 :: (explicitLines txt).2) lineRows ∧
    rows = lineRows.flatten

/-! ### Rows that are added one after another -/

def addAll (lines : List Text) (rows : Rows) : Except Rows Rows :=
  lines.foldlM (fun rows line => addWrappedLine line rows) rows

@[simp] theorem addAll_nil (rows : Rows) : addAll [] rows = .ok rows := rfl

@[simp] theorem addAll_cons (line : Text) (lines : List Text) (rows : Rows) :
    addAll (line :: lines) rows = addWrappedLine line rows >>= addAll lines := rfl

theorem addAll_singleton (line : Text) (rows : Rows) : addAll [line] rows = addWrappedLine line rows := by
  rw [addAll_cons]
  cases addWrappedLine line rows <;> rfl

theorem addAll_append (before after : List Text) (rows : Rows) :
    addAll (before ++ after) rows = addAll before rows >>= addAll after := by
  simp only [addAll, foldlM_append]
  rfl

variable {line word : Text} {columns : Nat} {rows pieces : List Text} {c : UInt8} {had ended : Bool}
  {rest : List Text × Text}

theorem addWrappedLine_full {rows : Rows} (hfull : wrappedDialogMaxLines ≤ rows.lineCount) :
    addWrappedLine line rows = .error rows := if_pos hfull

theorem addWrappedLine_room {rows : Rows} (hroom : rows.lineCount < wrappedDialogMaxLines) :
    addWrappedLine line rows =
      .ok { root := rows.root.map (· ++ [line.take (maxMenuStr - 1)]), lineCount := rows.lineCount + 1 } :=
  if_neg (Nat.not_le.2 hroom)

theorem ofResult_addAll {lines : List Text} {rows : Rows} (hrows : rows.lineCount ≤ wrappedDialogMaxLines) :
    Rows.ofResult (addAll lines rows) =
      { root := rows.root.map (· ++ (lines.take (wrappedDialogMaxLines - rows.lineCount)).map (·.take (maxMenuStr - 1)))
        lineCount := min (rows.lineCount + lines.length) wrappedDialogMaxLines } := by
  have hsame : rows.root.map (· ++ ([] : List Text)) = rows.root := by simp
  induction lines generalizing rows with
  | nil =>
    simp only [addAll_nil, Rows.ofResult, take_nil, map_nil, length_nil, Nat.add_zero, hsame, Nat.min_eq_left hrows]
  | cons line lines ih =>
    rw [addAll_cons]
    by_cases hfull : wrappedDialogMaxLines ≤ rows.lineCount
    · have hcount : rows.lineCount = wrappedDialogMaxLines := Nat.le_antisymm hrows hfull
      have hmin : min (rows.lineCount + (line :: lines).length) wrappedDialogMaxLines = rows.lineCount := by omega
      rw [addWrappedLine_full hfull, hmin, hcount, Nat.sub_self, take_zero, map_nil, hsame, ← hcount]
      rfl
    · have hroom := Nat.not_le.1 hfull
      obtain ⟨n, hn⟩ := Nat.exists_eq_add_of_lt hroom
      let next : Rows := { root := rows.root.map (· ++ [line.take (maxMenuStr - 1)]), lineCount := rows.lineCount + 1 }
      have hnext : next.lineCount ≤ wrappedDialogMaxLines := hroom
      have hstep := ih hnext (by simp)
      rw [addWrappedLine_room hroom]
      refine hstep.trans ?_
      have hleft : wrappedDialogMaxLines - rows.lineCount = n + 1 := by omega
      have hrest : wrappedDialogMaxLines - (rows.lineCount + 1) = n := by omega
      simp only [next, hleft, hrest, take_succ_cons, map_cons, length_cons, Option.map_map]
      congr 1
      · congr 1
        funext root
        simp
      · omega

/-! ### The reference -/

/-- The last row is kept open, unless it is full. -/
def settle (columns : Nat) : List Text → List Text × Text
  | [] => ([], [])
  | [row] => if row.length = columns then ([row], []) else ([], row)
  | row :: rows => (row :: (settle columns rows).1, (settle columns rows).2)

/-- A word after an open row: the rows that are full, and the open one. -/
def place (columns : Nat) (line word : Text) : List Text × Text :=
  if line = [] then settle columns (chunks columns word)
  else if word.length + 1 ≤ columns - line.length then settle columns [line ++ 32 :: word]
  else
    let rest := settle columns (chunks columns word)
    (line :: rest.1, rest.2)

def pack (columns : Nat) (line : Text) : List Text → List Text × Text
  | [] => ([], line)
  | word :: words =>
    let first := place columns line word
    let rest := pack columns first.2 words
    (first.1 ++ rest.1, rest.2)

def openRow (line : Text) : List Text := if line = [] then [] else [line]

def rowsOfLine (columns : Nat) (line : Text) : List Text :=
  if wordsOf line = [] then [[]] else (pack columns [] (wordsOf line)).1 ++ openRow (pack columns [] (wordsOf line)).2

/-- The rows that are to come, from an open row on. -/
def restRows (columns : Nat) (line : Text) (hadContent endedWithNewline : Bool) (input : Text) : List Text :=
  let lines := explicitLines input
  let packed := pack columns line (wordsOf lines.1)
  let bare := wordsOf lines.1 = [] ∧ line = [] ∧ !hadContent
  (if bare then if lines.2 = [] ∧ !endedWithNewline then [] else [[]] else packed.1 ++ openRow packed.2) ++
    lines.2.flatMap (rowsOfLine columns)

/-! ### The loop is the reference -/

theorem chunksFrom_fits (hfits : word.length ≤ columns - line.length) :
    chunksFrom columns line word = [line ++ word] := by
  rw [chunksFrom, if_pos (.inl hfits)]

theorem chunksFrom_cut (hroom : line.length < columns) (hlong : ¬ word.length ≤ columns - line.length) :
    chunksFrom columns line word =
      (line ++ word.take (columns - line.length)) :: chunksFrom columns [] (word.drop (columns - line.length)) := by
  rw [chunksFrom, if_neg (by omega)]

theorem chunksFrom_ne_nil (columns : Nat) (line word : Text) : chunksFrom columns line word ≠ [] := by
  rw [chunksFrom]
  split <;> simp

theorem settle_cons {row : Text} (hrows : rows ≠ []) :
    settle columns (row :: rows) = (row :: (settle columns rows).1, (settle columns rows).2) := by
  cases rows with
  | nil => exact absurd rfl hrows
  | cons next rows => rfl

namespace Wrap

variable {columns : Nat} {s s' : Wrap columns}

/-- What a loop does to the rows, and the state it leaves. -/
inductive Comes (rows : Rows) (lines : List Text) (P : Wrap columns → Prop) : Except Rows (Wrap columns) → Prop
  | full {last : Rows} (hadd : addAll lines rows = .error last) : Comes rows lines P (.error last)
  | ok {s' : Wrap columns} (hadd : addAll lines rows = .ok s'.rows) (hstate : P s') : Comes rows lines P (.ok s')

variable {rows : Rows} {lines lines' : List Text} {P : Wrap columns → Prop} {r : Except Rows (Wrap columns)}
  {word : Text}

theorem Comes.bind {Q : Wrap columns → Prop}
    {f : Wrap columns → Except Rows (Wrap columns)} (hr : Comes rows lines P r)
    (hf : ∀ s', P s' → Comes s'.rows lines' Q (f s')) : Comes rows (lines ++ lines') Q (r >>= f) := by
  cases hr with
  | full hadd => exact .full (by rw [addAll_append, hadd]; rfl)
  | ok hadd hstate =>
    have hrest := hf _ hstate
    show Comes rows _ Q (f _)
    cases hf' : f _ with
    | error last =>
      rw [hf'] at hrest
      cases hrest with
      | full hadd' => exact .full (by rw [addAll_append, hadd]; exact hadd')
    | ok s'' =>
      rw [hf'] at hrest
      cases hrest with
      | ok hadd' hstate' => exact .ok (by rw [addAll_append, hadd]; exact hadd') hstate'

theorem Comes.finish {f : Wrap columns → Except Rows Rows} (hr : Comes rows lines P r)
    (hf : ∀ s', P s' → f s' = addAll lines' s'.rows) : r >>= f = addAll (lines ++ lines') rows := by
  cases hr with
  | full hadd => rw [addAll_append, hadd]; rfl
  | ok hadd hstate => rw [addAll_append, hadd]; exact hf _ hstate

/-- A state with an open row, in which the word is in the text. -/
structure Open (line : Text) (s : Wrap columns) : Prop where
  line : s.line = line
  hadContent : s.hadContent = true
  endedWithNewline : s.endedWithNewline = false

theorem flush_comes (line : Text) (s : Wrap columns) :
    Comes s.rows [line] (fun s' => s'.line = [] ∧ s'.hadContent = s.hadContent ∧
      s'.endedWithNewline = s.endedWithNewline) (s.flush line) := by
  simp only [flush]
  cases hadd : addWrappedLine line s.rows with
  | error last =>
    exact .full ((addAll_singleton _ _).trans hadd)
  | ok rows =>
    exact .ok ((addAll_singleton _ _).trans hadd) ⟨rfl, rfl, rfl⟩

theorem putWord_nil (s : Wrap columns) : s.putWord [] = .ok s := by
  rw [putWord, dif_pos rfl]

/-- A row that the word fills is added, and the word goes on in the next one. -/
theorem putWord_full (hword : word ≠ []) (hfull : columns - s.line.length ≤ word.length) :
    s.putWord word = s.wrote.flush (s.line ++ word.take (columns - s.line.length)) >>= fun next =>
      next.putWord (word.drop (columns - s.line.length)) := by
  have hroom := s.room
  have hamount : min word.length (columns - s.line.length) = columns - s.line.length := Nat.min_eq_right hfull
  rw [putWord, dif_neg hword]
  simp only [hamount]
  rw [dif_pos]
  exact .inr (by omega)

theorem putWord_fits (hword : word ≠ []) (hfits : word.length < columns - s.line.length) :
    ∃ s' : Wrap columns, s.putWord word = .ok s' ∧ s'.rows = s.rows ∧ s'.Open (s.line ++ word) := by
  have hamount : min word.length (columns - s.line.length) = word.length := Nat.min_eq_left (Nat.le_of_lt hfits)
  rw [putWord, dif_neg hword]
  simp only [hamount, drop_length, take_length, ne_eq, not_true_eq_false, false_or]
  rw [dif_neg (by omega)]
  exact ⟨_, rfl, rfl, rfl, rfl, rfl⟩

theorem putWord_comes (hword : word ≠ []) (s : Wrap columns) :
    Comes s.rows (settle columns (chunksFrom columns s.line word)).1
      (Open (settle columns (chunksFrom columns s.line word)).2) (s.putWord word) := by
  have hroom := s.room
  induction hn : word.length using Nat.strongRecOn generalizing word s with
  | ind n ih =>
    rcases Nat.lt_trichotomy word.length (columns - s.line.length) with hlt | heq | hgt
    · obtain ⟨s', hput, hrows, hopen⟩ := putWord_fits hword hlt
      have hlength : (s.line ++ word).length ≠ columns := by
        rw [length_append]
        omega
      rw [hput, chunksFrom_fits (Nat.le_of_lt hlt), settle, if_neg hlength]
      exact .ok (by rw [hrows]; rfl) hopen
    · have hlength : (s.line ++ word).length = columns := by
        rw [length_append]
        omega
      have htake : word.take (columns - s.line.length) = word := by rw [← heq, take_length]
      have hdrop : word.drop (columns - s.line.length) = [] := by rw [← heq, drop_length]
      rw [putWord_full hword (Nat.le_of_eq heq.symm), htake, hdrop, chunksFrom_fits (Nat.le_of_eq heq), settle,
        if_pos hlength]
      refine Comes.bind (flush_comes (s.line ++ word) s.wrote) fun next hnext => ?_
      rw [putWord_nil]
      exact .ok rfl ⟨hnext.1, hnext.2.1, hnext.2.2⟩
    · rw [putWord_full hword (Nat.le_of_lt hgt), chunksFrom_cut hroom (by omega),
        settle_cons (chunksFrom_ne_nil _ _ _)]
      refine Comes.bind (flush_comes _ s.wrote) fun next hnext => ?_
      have hrest : word.drop (columns - s.line.length) ≠ [] := by
        intro hnil
        have hlength := congrArg List.length hnil
        rw [length_drop, length_nil] at hlength
        omega
      have hcome := ih _ (by rw [length_drop]; omega) hrest next next.room rfl
      rw [hnext.1] at hcome
      exact hcome

theorem placeWord_comes (hword : word ≠ []) (s : Wrap columns) :
    Comes s.rows (place columns s.line word).1 (Open (place columns s.line word).2) (s.placeWord word hword) := by
  rw [placeWord, place]
  by_cases hline : s.line = []
  · rw [if_neg (not_not.2 hline), if_pos hline]
    have hcome := putWord_comes hword s
    rw [hline] at hcome
    exact hcome
  · rw [if_pos hline, if_neg hline]
    by_cases hfits : word.length + 1 ≤ columns - s.line.length
    · rw [dif_pos hfits, if_pos hfits]
      have hchunks : chunksFrom columns (s.line ++ [32]) word = [s.line ++ 32 :: word] := by
        rw [chunksFrom_fits, append_assoc]
        · rfl
        · rw [length_append, length_singleton]
          omega
      have hroom : (s.line ++ [32]).length < columns := by
        have hpos : 0 < word.length := length_pos_of_ne_nil hword
        rw [length_append, length_singleton]
        omega
      rw [← hchunks]
      exact putWord_comes hword { s with line := s.line ++ [32], room := hroom }
    · rw [dif_neg hfits, if_neg hfits]
      refine Comes.bind (flush_comes s.line s) fun next hnext => ?_
      have hcome := putWord_comes hword next
      rw [hnext.1] at hcome
      exact hcome

theorem explicitLines_word (hword : ∀ c ∈ word, isLineEnd c = false) (input : Text) :
    explicitLines (word ++ input) = (word ++ (explicitLines input).1, (explicitLines input).2) := by
  induction word with
  | nil => rfl
  | cons c word ih =>
    have hc : isLineEnd c = false := hword c (mem_cons_self ..)
    rw [cons_append, explicitLines]
    simp only [hc, Bool.false_eq_true, if_false]
    rw [ih fun c hin => hword c (mem_cons_of_mem _ hin)]
    rfl

end Wrap

theorem wordsOf_nil : wordsOf [] = [] := words_nil

theorem explicitLines_end (hc : isLineEnd c) (input : Text) :
    explicitLines (c :: input) =
      ([], (explicitLines (if c = 13 ∧ input.head? = some 10 then input.tail else input)).1 ::
        (explicitLines (if c = 13 ∧ input.head? = some 10 then input.tail else input)).2) := by
  rw [explicitLines]
  simp only [hc, if_true]
  split <;> rfl

theorem explicitLines_char (hc : isLineEnd c = false) (input : Text) :
    explicitLines (c :: input) = (c :: (explicitLines input).1, (explicitLines input).2) := by
  rw [explicitLines]
  simp only [hc, Bool.false_eq_true, if_false]

theorem isLineEnd_of_isBlank (hc : isBlank c) : isLineEnd c = false := by
  simp only [isBlank, decide_eq_true_eq] at hc
  rcases hc with rfl | rfl <;> rfl

theorem restRows_blanks (columns : Nat) (line : Text) (had ended : Bool) (input : Text) :
    restRows columns line had ended (input.dropWhile isBlank) = restRows columns line had ended input := by
  induction input with
  | nil => rfl
  | cons c input ih =>
    by_cases hc : isBlank c
    · rw [dropWhile_cons_of_pos hc, ih]
      have hwords : ∀ line, wordsOf (c :: line) = wordsOf line := words_sep hc
      simp only [restRows, explicitLines_char (isLineEnd_of_isBlank hc), hwords]
    · rw [dropWhile_cons_of_neg hc]

theorem head_after_word (input : Text) : ∀ c ∈ (explicitLines (input.dropWhile isWordChar)).1.head?, isBlank c := by
  intro c hc
  cases hinput : input.dropWhile isWordChar with
  | nil =>
    rw [hinput] at hc
    simp [explicitLines] at hc
  | cons d rest =>
    have hd : isWordChar d = false := by
      have hhead := head?_dropWhile_not isWordChar input
      rw [hinput] at hhead
      simpa using hhead
    rw [hinput] at hc
    by_cases hend : isLineEnd d
    · rw [explicitLines_end hend] at hc
      simp at hc
    · rw [explicitLines_char (by simpa using hend)] at hc
      simp only [head?_cons, Option.mem_some_iff] at hc
      subst hc
      simp only [isWordChar] at hd
      simpa [hend] using hd

theorem restRows_word (columns : Nat) (line : Text) (had ended : Bool) (c : UInt8) (input : Text) (hc : isWordChar c) :
    restRows columns line had ended (c :: input) =
      (place columns line (c :: input.takeWhile isWordChar)).1 ++
        restRows columns (place columns line (c :: input.takeWhile isWordChar)).2 true false
          (input.dropWhile isWordChar) := by
  have hsplit : c :: input = (c :: input.takeWhile isWordChar) ++ input.dropWhile isWordChar := by
    rw [cons_append, takeWhile_append_dropWhile]
  have hchars : ∀ d ∈ c :: input.takeWhile isWordChar, isWordChar d := by
    intro d hd
    rcases mem_cons.1 hd with rfl | hd
    · exact hc
    · exact mem_takeWhile_imp hd
  have hend : ∀ d ∈ c :: input.takeWhile isWordChar, isLineEnd d = false := fun d hd => by
    have hd' := hchars d hd
    simp only [isWordChar, Bool.and_eq_true, Bool.not_eq_true'] at hd'
    exact hd'.1
  have hblank : ∀ d ∈ c :: input.takeWhile isWordChar, isBlank d = false := fun d hd => by
    have hd' := hchars d hd
    simp only [isWordChar, Bool.and_eq_true, Bool.not_eq_true'] at hd'
    exact hd'.2
  have hlines := Wrap.explicitLines_word hend (input.dropWhile isWordChar)
  have hwords : wordsOf ((c :: input.takeWhile isWordChar) ++ (explicitLines (input.dropWhile isWordChar)).1) =
      (c :: input.takeWhile isWordChar) :: wordsOf (explicitLines (input.dropWhile isWordChar)).1 :=
    words_word (cons_ne_nil c (input.takeWhile isWordChar)) hblank (head_after_word input)
  rw [hsplit]
  simp only [restRows, hlines, hwords, pack, cons_ne_nil, false_and, if_false, Bool.not_true, Bool.false_eq_true,
    and_false, append_assoc]

theorem restRows_nil (hflags : had → ended = false) :
    restRows columns line had ended [] = if line ≠ [] then [line] else if ended then [[]] else [] := by
  simp only [restRows, explicitLines, wordsOf_nil, pack, openRow]
  by_cases hline : line = []
  · cases had <;> cases ended <;> simp_all
  · simp [hline]

theorem restRows_newline (columns : Nat) (input : Text) :
    restRows columns [] false true input =
      ((explicitLines input).1 :: (explicitLines input).2).flatMap (rowsOfLine columns) := by
  rw [flatMap_cons]
  simp only [restRows, rowsOfLine, Bool.not_true, Bool.false_eq_true, and_false, if_false, Bool.not_false, and_true]

theorem restRows_end {input : Text} (hc : isLineEnd c) :
    restRows columns line had ended (c :: input) =
      (if line ≠ [] then [line] else if !had then [[]] else []) ++
        restRows columns [] false true (if c = 13 ∧ input.head? = some 10 then input.tail else input) := by
  rw [restRows_newline]
  simp only [restRows, explicitLines_end hc, wordsOf_nil, pack, openRow]
  by_cases hline : line = []
  · cases had <;> simp [hline]
  · simp [hline]

namespace Wrap

theorem endLine_comes (s : Wrap columns) :
    Comes s.rows (if s.line ≠ [] then [s.line] else if !s.hadContent then [[]] else [])
      (fun s' => s'.line = [] ∧ s'.hadContent = false ∧ s'.endedWithNewline = true) s.endLine := by
  unfold endLine
  by_cases hline : s.line = []
  · rw [if_neg (not_not.2 hline), if_neg (not_not.2 hline)]
    cases hhad : s.hadContent
    · refine Comes.bind (flush_comes [] s) fun next hnext => ?_
      exact .ok rfl ⟨hnext.1, rfl, rfl⟩
    · exact .ok rfl ⟨hline, rfl, rfl⟩
  · rw [if_pos hline, if_pos hline]
    refine Comes.bind (flush_comes s.line s) fun next hnext => ?_
    exact .ok rfl ⟨hnext.1, rfl, rfl⟩

theorem wrapLoop_finish {s : Wrap columns} {input : Text} (hflags : s.hadContent → s.endedWithNewline = false) :
    s.wrapLoop input >>= finish = addAll (restRows columns s.line s.hadContent s.endedWithNewline input) s.rows := by
  induction hn : input.length using Nat.strongRecOn generalizing input s with
  | ind n ih =>
    cases input with
    | nil =>
      rw [wrapLoop, restRows_nil hflags]
      show s.finish = _
      by_cases hline : s.line = []
      · cases hended : s.endedWithNewline <;> simp [finish, hline, hended, addAll_singleton, -addAll_cons]
      · simp [finish, hline, addAll_singleton, -addAll_cons]
    | cons c input =>
      rw [length_cons] at hn
      rw [wrapLoop]
      by_cases hend : isLineEnd c
      · rw [if_pos hend, restRows_end hend, bind_assoc]
        refine (endLine_comes s).finish fun next hnext => ?_
        obtain ⟨hline, hhad, hended⟩ := hnext
        have hnextFlags : next.hadContent → next.endedWithNewline = false := by simp [hhad]
        by_cases hpair : c = 13 ∧ input.head? = some 10
        · have hlength : input.tail.length ≤ input.length := (tail_sublist input).length_le
          rw [if_pos hpair, if_pos hpair, ih _ (by omega) hnextFlags rfl, hline, hhad, hended]
        · rw [if_neg hpair, if_neg hpair, ih _ (by omega) hnextFlags rfl, hline, hhad, hended]
      · rw [if_neg hend]
        by_cases hblank : isBlank c
        · have hlength := (dropWhile_sublist isBlank (l := input)).length_le
          have hskip := restRows_blanks columns s.line s.hadContent s.endedWithNewline (c :: input)
          rw [dropWhile_cons_of_pos hblank] at hskip
          rw [if_pos hblank, ih _ (by omega) hflags rfl, hskip]
        · have hlength := (dropWhile_sublist isWordChar (l := input)).length_le
          have hword : isWordChar c := by simp [isWordChar, hend, hblank]
          rw [if_neg hblank, restRows_word columns s.line s.hadContent s.endedWithNewline c input hword, bind_assoc]
          refine (placeWord_comes (cons_ne_nil _ _) s).finish fun next hnext => ?_
          rw [ih _ (by omega) (fun _ => hnext.endedWithNewline) rfl, hnext.line, hnext.hadContent,
            hnext.endedWithNewline]

end Wrap

/-! ### The reference keeps the text -/

theorem joinWords_openRow (line : Text) : joinWords (openRow line) = line := by
  unfold openRow
  split
  · next hline => rw [hline]; rfl
  · rfl

theorem chunksFrom_nonempty (hword : word ≠ []) : ∀ chunk ∈ chunksFrom columns line word, chunk ≠ [] := by
  induction line, word using chunksFrom.induct columns with
  | case1 line word hfits =>
    rw [chunksFrom, if_pos hfits]
    simp [hword]
  | case2 line word hlong ih =>
    have hrest : word.drop (columns - line.length) ≠ [] := by
      intro hnil
      have hlength := congrArg List.length hnil
      rw [length_drop, length_nil] at hlength
      omega
    rw [chunksFrom, if_neg hlong]
    intro chunk hchunk
    rcases mem_cons.1 hchunk with rfl | hchunk
    · intro hnil
      have hlength := congrArg List.length hnil
      rw [length_append, length_take, length_nil] at hlength
      omega
    · exact ih hrest chunk hchunk

theorem chunksFrom_length (hroom : line.length < columns) :
    ∀ chunk ∈ chunksFrom columns line word, chunk.length ≤ columns := by
  induction line, word using chunksFrom.induct columns with
  | case1 line word hfits =>
    rw [chunksFrom, if_pos hfits]
    simp only [mem_singleton, forall_eq, length_append]
    omega
  | case2 line word hlong ih =>
    rw [chunksFrom, if_neg hlong]
    intro chunk hchunk
    rcases mem_cons.1 hchunk with rfl | hchunk
    · rw [length_append, length_take]
      omega
    · exact ih (by rw [length_nil]; omega) chunk hchunk

theorem chunksFrom_flatten (columns : Nat) (line word : Text) : (chunksFrom columns line word).flatten = line ++ word := by
  induction line, word using chunksFrom.induct columns with
  | case1 line word hfits =>
    rw [chunksFrom, if_pos hfits]
    simp
  | case2 line word hlong ih =>
    rw [chunksFrom, if_neg hlong, flatten_cons, ih, nil_append, append_assoc, take_append_drop]

/-- Rows that are full, and one that is open. -/
structure Settled (columns : Nat) (rows : List Text) (done : List Text × Text) : Prop where
  rows : done.1 ++ openRow done.2 = rows
  full : ∀ row ∈ done.1, row.length ≤ columns
  room : done.2.length < columns

theorem settled_settle (hcolumns : 0 < columns) (hrows : ∀ row ∈ rows, row ≠ [])
    (hlength : ∀ row ∈ rows, row.length ≤ columns) : Settled columns rows (settle columns rows) := by
  induction rows with
  | nil => exact ⟨rfl, by simp [settle], hcolumns⟩
  | cons row rows ih =>
    cases rows with
    | nil =>
      have hrow := hrows row (mem_singleton_self row)
      have hle := hlength row (mem_singleton_self row)
      rw [settle]
      split
      · exact ⟨rfl, hlength, hcolumns⟩
      · next hfree =>
        have hroom : row.length < columns := by omega
        exact ⟨by simp [openRow, hrow], by simp, hroom⟩
    | cons next rows =>
      have hrest := ih (fun row hrow => hrows row (mem_cons_of_mem _ hrow))
        fun row hrow => hlength row (mem_cons_of_mem _ hrow)
      rw [settle_cons (cons_ne_nil _ _)]
      refine ⟨?_, ?_, hrest.room⟩
      · rw [cons_append, hrest.rows]
      · intro row' hrow'
        rcases mem_cons.1 hrow' with rfl | hrow'
        · exact hlength _ (mem_cons_self ..)
        · exact hrest.full _ hrow'

/-- Words are in rows: the groups of what the rows hold. -/
structure Grouped (columns : Nat) (pieces : List Text) (done : List Text × Text) : Prop where
  groups : ∃ groups : List (List Text), (∀ group ∈ groups, group ≠ []) ∧ groups.flatten = pieces ∧
    done.1 ++ openRow done.2 = groups.map joinWords
  full : ∀ row ∈ done.1, row.length ≤ columns
  room : done.2.length < columns

theorem Settled.grouped {done : List Text × Text}
    (hdone : Settled columns rows done) (hrest : Grouped columns (openRow done.2 ++ pieces) rest) :
    Grouped columns (rows ++ pieces) (done.1 ++ rest.1, rest.2) := by
  obtain ⟨groups, hne, hflatten, hrows⟩ := hrest.groups
  refine ⟨⟨done.1.map (fun row => [row]) ++ groups, ?_, ?_, ?_⟩, ?_, hrest.room⟩
  · intro group hgroup
    rcases mem_append.1 hgroup with hgroup | hgroup
    · obtain ⟨row, -, rfl⟩ := mem_map.1 hgroup
      exact cons_ne_nil _ _
    · exact hne group hgroup
  · have hsingle : (done.1.map fun row => [row]).flatten = done.1 := by
      induction done.1 with
      | nil => rfl
      | cons row rows ih => rw [map_cons, flatten_cons, ih, singleton_append]
    rw [flatten_append, hsingle, hflatten, ← append_assoc, hdone.rows]
  · have hsingle : (done.1.map fun row => [row]).map joinWords = done.1 := by
      rw [map_map]
      exact map_id' _
    rw [append_assoc, hrows, map_append, hsingle]
  · intro row hrow
    rcases mem_append.1 hrow with hrow | hrow
    · exact hdone.full row hrow
    · exact hrest.full row hrow

theorem Grouped.close {group : List Text}
    (hgroup : group ≠ []) (hline : joinWords group = line) (hroom : line.length ≤ columns)
    (hrest : Grouped columns pieces rest) : Grouped columns (group ++ pieces) (line :: rest.1, rest.2) := by
  obtain ⟨groups, hne, hflatten, hrows⟩ := hrest.groups
  refine ⟨⟨group :: groups, ?_, ?_, ?_⟩, ?_, hrest.room⟩
  · intro group' hgroup'
    rcases mem_cons.1 hgroup' with rfl | hgroup'
    · exact hgroup
    · exact hne group' hgroup'
  · rw [flatten_cons, hflatten]
  · rw [cons_append, hrows, map_cons, hline]
  · intro row hrow
    rcases mem_cons.1 hrow with rfl | hrow
    · exact hroom
    · exact hrest.full row hrow

theorem chunks_settled (hcolumns : 0 < columns) (hword : word ≠ []) :
    Settled columns (chunks columns word) (settle columns (chunks columns word)) :=
  settled_settle hcolumns (chunksFrom_nonempty hword) (chunksFrom_length hcolumns)

/-- Words that are laid out from a row on, in which some are already. -/
theorem pack_grouped {columns : Nat} {words : List Text} (hwords : ∀ word ∈ words, word ≠ []) {group : List Text}
    {line : Text} (hline : joinWords group = line) (hnil : group = [] ↔ line = []) (hroom : line.length < columns) :
    Grouped columns (group ++ words.flatMap (chunks columns)) (pack columns line words) := by
  have hcolumns : 0 < columns := Nat.lt_of_le_of_lt (Nat.zero_le _) hroom
  have hopen : ∀ line : Text, openRow line = [] ↔ line = [] := fun line => by
    unfold openRow
    split <;> simp_all
  induction words generalizing group line with
  | nil =>
    rw [pack, flatMap_nil, append_nil]
    by_cases hgroup : group = []
    · refine ⟨⟨[], by simp, hgroup.symm, ?_⟩, by simp, hroom⟩
      rw [hnil.1 hgroup]
      rfl
    · refine ⟨⟨[group], by simpa using hgroup, by simp, ?_⟩, by simp, hroom⟩
      rw [openRow, if_neg fun h => hgroup (hnil.2 h), map_singleton, hline]
      rfl
  | cons word words ih =>
    have hword := hwords word (mem_cons_self ..)
    have hrest := fun word' hin => hwords word' (mem_cons_of_mem _ hin)
    rw [pack, flatMap_cons]
    by_cases hempty : line = []
    · have hsettled := chunks_settled hcolumns hword
      have htail := ih hrest (joinWords_openRow (settle columns (chunks columns word)).2) (hopen _) hsettled.room
      rw [place, if_pos hempty, hnil.2 hempty]
      exact hsettled.grouped htail
    · by_cases hfits : word.length + 1 ≤ columns - line.length
      · have hchunks : chunks columns word = [word] := chunksFrom_fits (by rw [length_nil]; omega)
        have hgroup : group ≠ [] := fun h => hempty (hnil.1 h)
        have hjoin : joinWords (group ++ [word]) = line ++ 32 :: word := by rw [joinWords, joined_concat hgroup, ← joinWords, hline]
        have hlength : (line ++ 32 :: word).length = line.length + (word.length + 1) := by
          rw [length_append, length_cons]
        rw [place, if_neg hempty, if_pos hfits, hchunks, ← append_assoc, settle]
        split
        · next hfull =>
          have htail : Grouped columns ([] ++ words.flatMap (chunks columns)) (pack columns [] words) :=
            ih hrest rfl (by simp) hcolumns
          exact Grouped.close (by simp) hjoin (Nat.le_of_eq hfull) htail
        · next hfree =>
          have hopenRoom : (line ++ 32 :: word).length < columns := by omega
          exact ih hrest hjoin (by simp) hopenRoom
      · have hsettled := chunks_settled hcolumns hword
        have htail := ih hrest (joinWords_openRow (settle columns (chunks columns word)).2) (hopen _) hsettled.room
        rw [place, if_neg hempty, if_neg hfits]
        exact Grouped.close (fun h => hempty (hnil.1 h)) hline (Nat.le_of_lt hroom) (hsettled.grouped htail)

theorem pack_wordsOf (hcolumns : 0 < columns) (line : Text) :
    Grouped columns ((wordsOf line).flatMap (chunks columns)) (pack columns [] (wordsOf line)) :=
  @pack_grouped columns (wordsOf line) (words_nonempty line) [] [] rfl (by simp) hcolumns

theorem rowsOfLine_lineRows (hcolumns : 0 < columns) (line : Text) :
    LineRows columns line (rowsOfLine columns line) := by
  unfold rowsOfLine
  by_cases hwords : wordsOf line = []
  · rw [if_pos hwords]
    exact .inl ⟨hwords, rfl⟩
  · rw [if_neg hwords]
    exact .inr ⟨hwords, (pack_wordsOf hcolumns line).groups⟩

theorem rowsOfLine_length (hcolumns : 0 < columns) (line : Text) :
    ∀ row ∈ rowsOfLine columns line, row.length ≤ columns := by
  have hpacked := pack_wordsOf hcolumns line
  intro row hrow
  unfold rowsOfLine at hrow
  by_cases hwords : wordsOf line = []
  · rw [if_pos hwords, mem_singleton] at hrow
    rw [hrow]
    exact Nat.zero_le _
  · rw [if_neg hwords, mem_append] at hrow
    rcases hrow with hrow | hrow
    · exact hpacked.full row hrow
    · have hroom := hpacked.room
      unfold openRow at hrow
      split at hrow
      · simp at hrow
      · rw [mem_singleton] at hrow
        rw [hrow]
        omega

theorem restRows_start (columns : Nat) (txt : Text) :
    restRows columns [] false false txt =
      if wordsOf (explicitLines txt).1 = [] ∧ (explicitLines txt).2 = [] then []
      else ((explicitLines txt).1 :: (explicitLines txt).2).flatMap (rowsOfLine columns) := by
  rw [flatMap_cons]
  simp only [restRows, rowsOfLine, Bool.not_false, and_true]
  by_cases hwords : wordsOf (explicitLines txt).1 = []
  · by_cases hlines : (explicitLines txt).2 = []
    · simp [hwords, hlines]
    · simp [hwords, hlines]
  · simp [hwords]

theorem restRows_textRows (hcolumns : 0 < columns) (txt : Text) :
    TextRows columns txt (restRows columns [] false false txt) := by
  rw [restRows_start]
  unfold TextRows
  split
  · rfl
  · refine ⟨((explicitLines txt).1 :: (explicitLines txt).2).map (rowsOfLine columns), ?_, flatMap_def⟩
    rw [forall₂_map_right_iff]
    exact forall₂_same.2 fun line _ => rowsOfLine_lineRows hcolumns line

theorem restRows_length (hcolumns : 0 < columns) (txt : Text) :
    ∀ row ∈ restRows columns [] false false txt, row.length ≤ columns := by
  intro row hrow
  rw [restRows_start] at hrow
  split at hrow
  · simp at hrow
  · obtain ⟨line, -, hin⟩ := mem_flatMap.1 hrow
    exact rowsOfLine_length hcolumns line row hin

/-! ### No character is lost -/

/-- The characters of a text that are neither blanks nor line ends. -/
def visible (txt : Text) : Text := txt.filter isWordChar

theorem visible_append (before after : Text) : visible (before ++ after) = visible before ++ visible after :=
  filter_append ..

theorem visible_flatten (texts : List Text) : visible texts.flatten = (texts.map visible).flatten := filter_flatten

theorem visible_cons_not (hc : isWordChar c = false) (txt : Text) : visible (c :: txt) = visible txt :=
  filter_cons_of_neg (by simp [hc])

theorem isWordChar_end (hc : isLineEnd c) : isWordChar c = false := by simp [isWordChar, hc]

theorem visible_explicitLines (txt : Text) :
    visible ((explicitLines txt).1 :: (explicitLines txt).2).flatten = visible txt := by
  induction hn : txt.length using Nat.strongRecOn generalizing txt with
  | ind n ih =>
    cases txt with
    | nil => rw [explicitLines]; rfl
    | cons c input =>
      rw [length_cons] at hn
      by_cases hend : isLineEnd c
      · rw [explicitLines_end hend, flatten_cons, nil_append, visible_cons_not (isWordChar_end hend)]
        split
        · next hpair =>
          obtain ⟨-, hhead⟩ := hpair
          cases input with
          | nil => simp at hhead
          | cons d input =>
            have hd : d = 10 := by simpa using hhead
            rw [length_cons] at hn
            rw [tail_cons, ih _ (by omega) input rfl, visible_cons_not (isWordChar_end (by rw [hd]; rfl))]
        · exact ih _ (by omega) input rfl
      · have hline := ih _ (by omega) input rfl
        rw [explicitLines_char (by simpa using hend), flatten_cons, cons_append, ← flatten_cons]
        unfold visible at hline ⊢
        rw [filter_cons, filter_cons, hline]

theorem flatten_modifyHead_cons (c : UInt8) {texts : List Text} (htexts : texts ≠ []) :
    (texts.modifyHead (c :: ·)).flatten = c :: texts.flatten := by
  cases texts with
  | nil => exact absurd rfl htexts
  | cons txt texts => rfl

theorem visible_wordsOf (line : Text) : visible (wordsOf line).flatten = visible line := by
  have hnil : ∀ texts : List Text, (texts.filter (· ≠ [])).flatten = texts.flatten := fun texts => by
    induction texts with
    | nil => rfl
    | cons txt texts ih => cases txt <;> simp_all
  rw [wordsOf, words, hnil]
  induction line with
  | nil => rfl
  | cons c line ih =>
    rw [splitOnP_cons_eq_if_modifyHead]
    by_cases hblank : isBlank c
    · rw [if_pos hblank, flatten_cons, nil_append, ih, visible_cons_not (by simp [isWordChar, hblank])]
    · rw [if_neg hblank, flatten_modifyHead_cons c (splitOnP_ne_nil _ _)]
      unfold visible at ih ⊢
      rw [filter_cons, filter_cons, ih]

theorem visible_joinWords (words : List Text) : visible (joinWords words) = visible words.flatten := by
  induction words with
  | nil => rfl
  | cons word words ih =>
    cases words with
    | nil => rw [joinWords, joined, flatten_singleton]
    | cons next words =>
      rw [joinWords, joined_cons_cons, ← joinWords, flatten_cons, visible_append, visible_append, visible_cons_not (by decide), ih]

theorem LineRows.visible (hrows : LineRows columns line rows) : visible rows.flatten = visible line := by
  rcases hrows with ⟨hwords, rfl⟩ | ⟨-, groups, -, hflatten, rfl⟩
  · rw [← visible_wordsOf line, hwords]
    rfl
  · have hchunks : ((wordsOf line).flatMap (chunks columns)).flatten = (wordsOf line).flatten := by
      induction wordsOf line with
      | nil => rfl
      | cons word words ih =>
        rw [flatMap_cons, flatten_append, ih, chunks, chunksFrom_flatten, nil_append, flatten_cons]
    calc Menu.visible (groups.map joinWords).flatten
        = ((groups.map joinWords).map Menu.visible).flatten := visible_flatten _
      _ = ((groups.map List.flatten).map Menu.visible).flatten := by
          rw [map_map, map_map]
          exact congrArg List.flatten (map_congr_left fun group _ => visible_joinWords group)
      _ = Menu.visible (groups.map List.flatten).flatten := (visible_flatten _).symm
      _ = Menu.visible groups.flatten.flatten := by rw [flatten_flatten]
      _ = Menu.visible line := by rw [hflatten, hchunks, visible_wordsOf]

theorem TextRows.visible {txt : Text} (hrows : TextRows columns txt rows) : visible rows.flatten = visible txt := by
  rw [← visible_explicitLines txt]
  unfold TextRows at hrows
  split at hrows
  · next hbare =>
    rw [hrows, hbare.2, flatten_singleton, ← visible_wordsOf (explicitLines txt).1, hbare.1]
  · obtain ⟨lineRows, hlines, rfl⟩ := hrows
    generalize (explicitLines txt).1 :: (explicitLines txt).2 = lines at hlines
    induction hlines with
    | nil => rfl
    | cons hline _ ih =>
      simp only [flatten_cons, flatten_append, visible_append, hline.visible, ih]

/-! ### Wrapping loses no text -/

def wrappedRows (txt : Option Text) (columns : Nat) : List Text :=
  restRows (wrapColumns columns) [] false false (textWindow txt)

/-- The rows that are added: those of the reference, as far as there is room. -/
def addedRows (txt : Option Text) (columns : Nat) : List Text := (wrappedRows txt columns).take wrappedDialogMaxLines

theorem wrapColumns_le (columns : Nat) : wrapColumns columns ≤ messageDialogMaxLineColumns := by
  unfold wrapColumns
  split <;> omega

theorem addedRows_length (txt : Option Text) (columns : Nat) :
    ∀ row ∈ addedRows txt columns, row.length ≤ wrapColumns columns := fun row hrow =>
  restRows_length (wrapColumns_pos columns) _ row (mem_of_mem_take hrow)

theorem uiAddWrappedText_eq (root : Option (List Text)) (txt : Option Text) (columns : Nat) :
    uiAddWrappedText root txt columns =
      { root := root.map (· ++ addedRows txt columns), lineCount := (addedRows txt columns).length } := by
  have huncut : (addedRows txt columns).map (·.take (maxMenuStr - 1)) = addedRows txt columns := by
    refine (map_congr_left fun row hrow => ?_).trans (List.map_id _)
    have hrow' := addedRows_length txt columns row hrow
    have hcolumns := wrapColumns_le columns
    exact take_of_length_le (Nat.le_trans hrow' hcolumns)
  unfold uiAddWrappedText
  rw [Wrap.wrapLoop_finish (by simp), ofResult_addAll (Nat.zero_le _), Nat.sub_zero, Nat.zero_add]
  show Rows.mk (root.map (· ++ (addedRows txt columns).map (·.take (maxMenuStr - 1)))) _ = _
  rw [huncut, addedRows, length_take, Nat.min_comm]
  rfl

/-- A text as it is passed: up to its end. -/
def givenText (txt : Option Text) : Text := (txt.getD []).takeWhile (· ≠ 0)

/-- Rows are the rows of a text: none is longer than it may be, and as long as no limit is reached they hold the
whole text. -/
structure Wrapped (txt : Option Text) (columns : Nat) (rows : List Text) : Prop where
  lines : rows.length ≤ wrappedDialogMaxLines
  buffer : ∀ row ∈ rows, row.length ≤ messageDialogMaxLineColumns
  given : 0 < columns → ∀ row ∈ rows, row.length ≤ columns
  layout : (givenText txt).length ≤ wrappedDialogMaxText → rows.length < wrappedDialogMaxLines →
    TextRows (wrapColumns columns) (givenText txt) rows
  visible : (givenText txt).length ≤ wrappedDialogMaxText → rows.length < wrappedDialogMaxLines →
    visible rows.flatten = visible (givenText txt)

theorem wrapped_addedRows (txt : Option Text) (columns : Nat) : Wrapped txt columns (addedRows txt columns) := by
  have hlayout : (givenText txt).length ≤ wrappedDialogMaxText →
      (addedRows txt columns).length < wrappedDialogMaxLines →
      TextRows (wrapColumns columns) (givenText txt) (addedRows txt columns) := by
    intro htext hlines
    have hwindow : textWindow txt = givenText txt := take_of_length_le htext
    have hwhole : addedRows txt columns = wrappedRows txt columns := by
      refine take_of_length_le ?_
      rw [addedRows, length_take] at hlines
      omega
    rw [hwhole, wrappedRows, hwindow]
    exact restRows_textRows (wrapColumns_pos columns) _
  refine ⟨?_, ?_, ?_, hlayout, fun htext hlines => (hlayout htext hlines).visible⟩
  · rw [addedRows, length_take]
    exact Nat.min_le_left ..
  · exact fun row hrow => Nat.le_trans (addedRows_length txt columns row hrow) (wrapColumns_le columns)
  · intro hcolumns row hrow
    have hle : wrapColumns columns ≤ columns := by
      unfold wrapColumns
      split <;> omega
    exact Nat.le_trans (addedRows_length txt columns row hrow) hle

/-- The text columns of a dialog are within it, and its rows are, unless it scrolls. -/
theorem measureMessageDialog_fits (title txt : Option Text) (fixedRows : Nat) :
    0 < (measureMessageDialog title txt fixedRows).textColumns ∧
      (measureMessageDialog title txt fixedRows).textColumns <
        (measureMessageDialog title txt fixedRows).widthColumns ∧
      (fixedRows + (addedRows txt (measureMessageDialog title txt fixedRows).textColumns).length ≤
          (measureMessageDialog title txt fixedRows).heightRows ∨
        (measureMessageDialog title txt fixedRows).scrollable) := by
  unfold measureMessageDialog
  simp only [uiAddWrappedText_eq]
  have hpos : 1 < if messageLongestExplicitLine title txt ≥ messageDialogMaxLineColumns then
      messageDialogMaxWidthColumns
      else if messageLongestExplicitLine title txt + 1 < messageDialogMinWidthColumns then messageDialogMinWidthColumns
      else messageLongestExplicitLine title txt + 1 := by
    unfold messageDialogMaxWidthColumns messageDialogMinWidthColumns
    split
    · omega
    · split <;> omega
  revert hpos
  generalize (if messageLongestExplicitLine title txt ≥ messageDialogMaxLineColumns then
      messageDialogMaxWidthColumns
      else if messageLongestExplicitLine title txt + 1 < messageDialogMinWidthColumns then messageDialogMinWidthColumns
      else messageLongestExplicitLine title txt + 1) = width
  intro hpos
  split
  · exact ⟨by decide, by decide, .inr rfl⟩
  · exact ⟨by simp only; omega, by simp only; omega, .inl (Nat.le_max_left ..)⟩

/-- A message is wrapped without a loss, for every text and every column count: a real root gets as many rows as are
counted without one, they are the rows of the text, and the measured dialog has room for them or scrolls. -/
theorem message_wrapped :
    (∀ (txt : Option Text) (columns : Nat) (before : List Text), ∃ rows : List Text,
      uiAddWrappedText (some before) txt columns = { root := some (before ++ rows), lineCount := rows.length } ∧
        uiAddWrappedText none txt columns = { root := none, lineCount := rows.length } ∧ Wrapped txt columns rows) ∧
      ∀ (title txt : Option Text) (fixedRows : Nat) (before : List Text), ∃ rows : List Text,
        uiAddWrappedText (some before) txt (measureMessageDialog title txt fixedRows).textColumns =
            { root := some (before ++ rows), lineCount := rows.length } ∧
          (∀ row ∈ rows, row.length < (measureMessageDialog title txt fixedRows).widthColumns) ∧
          (fixedRows + rows.length ≤ (measureMessageDialog title txt fixedRows).heightRows ∨
            (measureMessageDialog title txt fixedRows).scrollable) := by
  constructor
  · intro txt columns before
    exact ⟨addedRows txt columns, uiAddWrappedText_eq _ _ _, uiAddWrappedText_eq _ _ _, wrapped_addedRows txt columns⟩
  · intro title txt fixedRows before
    obtain ⟨hpos, hwidth, hfits⟩ := measureMessageDialog_fits title txt fixedRows
    refine ⟨addedRows txt _, uiAddWrappedText_eq _ _ _, fun row hrow => ?_, hfits⟩
    exact Nat.lt_of_le_of_lt ((wrapped_addedRows txt _).given hpos row hrow) hwidth

/-- No columns is taken for the most columns. -/
theorem no_columns_wrapped :
    ∃ row ∈ ((uiAddWrappedText (some []) (some [97]) 0).root.getD []), ¬ row.length ≤ 0 := by
  have hwindow : textWindow (some [97]) = [97] := by decide
  have hplaced : place (wrapColumns 0) [] [97] = ([], [97]) := by
    rw [place, if_pos rfl, chunks, chunksFrom_fits (by decide)]
    decide
  have hrows : addedRows (some [97]) 0 = [[97]] := by
    rw [addedRows, wrappedRows, hwindow, restRows_word _ _ _ _ _ _ (by decide)]
    simp only [takeWhile_nil, dropWhile_nil, hplaced]
    rw [restRows_nil (by simp)]
    decide
  refine ⟨[97], ?_, by decide⟩
  rw [uiAddWrappedText_eq, hrows]
  decide

end Bmx.Menu
