import Bmx.Update.JsonParserSpec

/-!
# Every document is parsed

The parser takes each text of the grammar wherever it stands, if what follows cannot carry it on and
the tokens and the depth stay within the limits.
-/

namespace Bmx.Update

open Json JsonCursor Forest JsonState List Option Nat

/-! ### Completeness -/

/-- What may follow a value. -/
def Ends (rest : Bytes) : Prop :=
  ∀ c ∈ rest.head?, isWhitespace c = true ∨ c = 44 ∨ c = 93 ∨ c = 125

variable {rest text json : Bytes} {forest : Forest} {tokenCapacity maxDepth : Nat}

theorem Ends.number (h : Ends rest) : NumberEnd rest := by
  intro c hc
  rcases h c hc with hspace | rfl | rfl | rfl
  · rcases of_decide_eq_true hspace with rfl | rfl | rfl | rfl <;> decide
  · decide
  · decide
  · decide

theorem ends_of_spaces {space : Bytes} (hspace : Spaces space) (hrest : Ends rest) : Ends (space ++ rest) := by
  cases space with
  | nil => exact hrest
  | cons c space =>
    intro x hx
    cases hx
    exact .inl (hspace c mem_cons_self)

theorem number_first (h : Number text) : ∃ c more, text = c :: more ∧ (c = 45 ∨ isDigit c = true) := by
  obtain ⟨hminus, hinteger, hfraction, hexponent⟩ := h
  rcases hminus with rfl | rfl
  · obtain ⟨digit, more, rfl, hdigit⟩ := hinteger.first
    exact ⟨digit, _, rfl, .inr hdigit⟩
  · exact ⟨45, _, rfl, .inl rfl⟩

/-- What a text of the grammar begins with is no whitespace and ends no list. -/
theorem text_first {single key : UInt8 → Prop} {shape : Shape} {start : Nat}
    (h : Text single key shape start text forest) :
    ∃ c more, text = c :: more ∧ isWhitespace c = false ∧ c ≠ 93 ∧ c ≠ 125 := by
  induction h with
  | literal hword => cases hword <;> exact ⟨_, _, rfl, by decide⟩
  | number hnumber =>
    obtain ⟨c, more, rfl, hc⟩ := number_first hnumber
    refine ⟨c, more, rfl, ?_⟩
    rcases hc with rfl | hdigit
    · decide
    · have hrange := of_decide_eq_true hdigit
      refine ⟨Bool.eq_false_iff.2 fun hspace => ?_, ?_, ?_⟩
      · rcases of_decide_eq_true hspace with rfl | rfl | rfl | rfl <;> exact absurd hdigit (by decide)
      all_goals
        rintro rfl
        exact absurd hdigit (by decide)
  | string hcharacters | member hname hbefore hafter hvalue ih => exact ⟨34, _, rfl, by decide⟩
  | empty hbrackets hspace
  | filled hbrackets hspace hitems hkeys ih => cases hbrackets <;> exact ⟨_, _, rfl, by decide⟩
  | last hitem hspace ih | more hitem hbefore hafter hitems ih ih' =>
    obtain ⟨c, more, rfl, hc⟩ := ih
    exact ⟨c, _, rfl, hc⟩

section

variable (input : JsonInput)

def listClosing : Item → UInt8
  | .value => 93
  | .member => 125

def parseList : Item → Nat → Nat → Nat → JsonState → JsonResult JsonState
  | .value => parseElements input
  | .member => parseMembers input

/-- One round of the loop, up to what follows the item. -/
def parseItem : Item → Nat → Nat → Nat → JsonState → JsonResult JsonState
  | .value, fuel, index, depth, s => parseValue input fuel index depth s
  | .member, fuel, index, depth, s =>
    match parseKey input index s with
    | .error failure => .error failure
    | .ok s => parseValue input fuel index depth s

variable {input}

variable {fuel index depth start : Nat} {s middle : JsonState} {shape : Shape} {text space : Bytes}
  {forest : Forest} {c c' : JsonCursor}

theorem parseList_item {item : Item}
    (hrest : s.cursor.rest ≠ []) (hitem : parseItem input item fuel index depth s = .ok middle) :
    (middle.skip.cursor.rest.head? = some (listClosing item) →
      parseList input item (fuel + 1) index depth s = .ok (middle.skip.close index)) ∧
    (middle.skip.cursor.rest.head? = some 44 →
      parseList input item (fuel + 1) index depth s = parseList input item fuel index depth
        (skip { middle.skip with cursor := middle.skip.cursor.advance 1 })) := by
  cases item with
  | value =>
    have hvalue : parseValue input fuel index depth s = .ok middle := hitem
    simp only [parseList, parseElements, if_neg hrest, hvalue]
    constructor
    · intro hclosing
      obtain ⟨more, hmore⟩ := head?_eq_some_iff.1 hclosing
      rw [hmore]
      rfl
    · intro hcomma
      obtain ⟨more, hmore⟩ := head?_eq_some_iff.1 hcomma
      rw [hmore]
      rfl
  | member =>
    rw [parseItem] at hitem
    split at hitem
    · cases hitem
    rename_i keyed hkeyed
    simp only [parseList, parseMembers, hkeyed, hitem]
    constructor
    · intro hclosing
      obtain ⟨more, hmore⟩ := head?_eq_some_iff.1 hclosing
      rw [hmore]
      rfl
    · intro hcomma
      obtain ⟨more, hmore⟩ := head?_eq_some_iff.1 hcomma
      rw [hmore]
      rfl

theorem skip_taken (h : Taken shape start text forest) (hreads : s.cursor.Reads text c) : s.skip = s := by
  obtain ⟨x, more, rfl, hx, -⟩ := text_first h
  refine skip_eq (fun c hc => absurd hc not_mem_nil) (reads_nil s.cursor) fun c hc => ?_
  rw [hreads.rest] at hc
  cases hc
  exact hx

theorem skip_spaces (hspace : Spaces space) (h : Taken shape start text forest)
    (hreads : s.cursor.Reads space c) (htext : c.Reads text c') : s.skip = { s with cursor := c } := by
  obtain ⟨x, more, rfl, hx, -⟩ := text_first h
  refine skip_eq hspace hreads fun c hc => ?_
  rw [htext.rest] at hc
  cases hc
  exact hx

variable (input)

/-- The parser takes a text wherever it stands. -/
def TakenEverywhere : Shape → Nat → Bytes → Forest → Prop
  | .one .value, start, text, node =>
    ∀ (fuel : Nat) (parent : Int) (depth : Nat) (s s' : JsonState), 3 * text.length ≤ fuel →
      s.skip.cursor.position = start → s.cursor.In input.json →
      Took input parent depth s.skip text node s' → Ends s'.cursor.rest →
      parseValue input fuel parent depth s = .ok s'
  | .one .member, start, text, node =>
    ∀ (fuel index depth : Nat) (s s' : JsonState) (first : List JsonToken) (done : Forest),
      3 * text.length ≤ fuel → s.cursor.position = start → Open input index first done s → Pairs done →
      (∀ key ∈ node.keys, key ∉ done.keys) → Took input index depth s text node s' →
      Ends s'.cursor.rest → parseItem input .member fuel index depth s = .ok s'
  | .list item, start, items, forest =>
    ∀ (fuel index depth : Nat) (s last : JsonState) (first : List JsonToken) (done : Forest),
      3 * items.length + 1 ≤ fuel → s.cursor.position = start → Open input index first done s →
      (item = .member → Pairs done ∧ forest.keys.Nodup ∧ ∀ key ∈ forest.keys, key ∉ done.keys) →
      Took input index depth s items forest last →
      last.cursor.rest.head? = some (listClosing item) →
      parseList input item fuel index depth s = .ok (last.close index)

variable {input}

variable {node children : Forest} {s' : JsonState} {parent : Int} {kind : Kind} {opening closing : UInt8}
  {items before after : Bytes}

theorem TakenEverywhere.item {item : Item} (h : TakenEverywhere input (.one item) start text node) (fuel : Nat)
    {first : List JsonToken} {done : Forest} (hfuel : 3 * text.length ≤ fuel)
    (hstart : s.cursor.position = start) (hskip : s.skip = s) (hopen : Open input index first done s)
    (hkeys : item = .member → Pairs done ∧ ∀ key ∈ node.keys, key ∉ done.keys)
    (htook : Took input index depth s text node s') (hend : Ends s'.cursor.rest) :
    parseItem input item fuel index depth s = .ok s' := by
  cases item with
  | value =>
    refine h fuel index depth s s' hfuel ?_ hopen.place ?_ hend
    · rw [hskip, hstart]
    · rwa [hskip]
  | member => exact h fuel index depth s s' first done hfuel hstart hopen (hkeys rfl).1 (hkeys rfl).2 htook hend

theorem literal_complete {word : Bytes} (hword : Literal kind word) (hdepth : depth < input.maxDepth)
    (htook : Took input parent depth s.skip word (.leaf kind s.skip.cursor.position word) s') :
    parseValue input (fuel + 1) parent depth s = .ok s' := by
  have hliteral := (parseLiteral_iff kind hdepth).2 htook
  have hrest := htook.reads.rest
  rw [parseValue, if_neg (Nat.not_le.2 hdepth), hrest]
  cases hword with
  | true | false | null => exact hliteral

theorem number_complete (hnumber : Number text) (hdepth : depth < input.maxDepth)
    (htook : Took input parent depth s.skip text (.leaf .number s.skip.cursor.position text) s')
    (hend : Ends s'.cursor.rest) : parseValue input (fuel + 1) parent depth s = .ok s' := by
  have hparsed := parseNumber_complete hdepth hnumber htook hend.number
  obtain ⟨c, more, rfl, hc⟩ := number_first hnumber
  have hrest := htook.reads.rest
  rw [parseValue, if_neg (Nat.not_le.2 hdepth), hrest, List.cons_append]
  split
  · rename_i h; cases h
  iterate 6
    next h =>
      obtain ⟨rfl, -⟩ := List.cons.inj h
      exact absurd hc (by decide)
  · rename_i h
    obtain ⟨rfl, -⟩ := List.cons.inj h
    exact (if_pos hc).trans hparsed

/-- What adding the token of a bracketed value leaves. -/
def opened (kind : Kind) (parent : Int) (s : JsonState) : JsonState :=
  ⟨s.cursor.advance 1, adopt parent s.tokens ++
    [⟨.ofKind kind, s.cursor.position, s.cursor.position, parent, 0⟩]⟩

theorem opened_length (kind : Kind) (parent : Int) (s : JsonState) :
    (opened kind parent s).tokens.length = s.tokens.length + 1 := by
  unfold opened
  rw [length_append, length_singleton, adopt_eq, adopts_length]

theorem addToken_opened (kind : Kind) (parent : Int) (hcapacity : s.tokens.length < input.capacity) :
    addToken input (.ofKind kind) s.cursor.position s.cursor.position parent
      { s with cursor := s.cursor.advance 1 } = .ok (s.tokens.length, opened kind parent s) :=
  addToken_iff.2 ⟨hcapacity, rfl, rfl, rfl⟩

theorem bracket_parts (h : Took input parent depth s (opening :: (space ++ (items ++ [closing])))
      (.cons kind s.cursor.position (opening :: (space ++ (items ++ [closing]))) children .nil) s') :
    ∃ last : JsonState, (opened kind parent s).cursor.Reads space
        ((opened kind parent s).cursor.advance space.length) ∧
      Took input s.tokens.length (depth + 1)
        ⟨(opened kind parent s).cursor.advance space.length, (opened kind parent s).tokens⟩
        items children last ∧
      last.cursor.rest.head? = some closing ∧ s' = last.close s.tokens.length := by
  have hcapacity := h.capacity
  have hdepth := h.depth
  rw [Forest.size, Forest.size] at hcapacity
  rw [height, height] at hdepth
  obtain ⟨c, hopening, hinner⟩ := h.reads.split_cons
  obtain ⟨c', hspace, hinner⟩ := hinner.split
  obtain ⟨c'', hitems, hlast⟩ := hinner.split
  obtain rfl : c = (opened kind parent s).cursor := hopening.eq_advance
  obtain rfl := hspace.eq_advance
  have hlength := opened_length kind parent s
  have htook : Took input s.tokens.length (depth + 1)
      ⟨(opened kind parent s).cursor.advance space.length, (opened kind parent s).tokens⟩ items children
      ⟨c'', adopts s.tokens.length children.roots (opened kind parent s).tokens ++
        forestTokens children (opened kind parent s).tokens.length s.tokens.length⟩ := by
    refine ⟨hitems, rfl, ?_, ?_⟩
    · show (opened kind parent s).tokens.length + children.size ≤ input.capacity
      omega
    · omega
  have hclosing : c''.rest.head? = some closing := by rw [hlast.rest]; rfl
  have hclose := Took.close hopening rfl (htook.skip_before hspace) hclosing
  rw [List.append_assoc] at hclose
  exact ⟨_, hspace, htook, hclosing, h.unique hclose⟩

theorem parseValue_bracket {item : Item} (hbrackets : Brackets kind opening closing item)
    {more : Bytes} (hdepth : depth < input.maxDepth)
    (hcapacity : s.skip.tokens.length < input.capacity) (hrest : s.skip.cursor.rest = opening :: more) :
    parseValue input (fuel + 2) parent depth s =
      if (opened kind parent s.skip).skip.cursor.rest.head? = some closing then
        .ok ((opened kind parent s.skip).skip.close s.skip.tokens.length)
      else
        parseList input item fuel s.skip.tokens.length (depth + 1) (opened kind parent s.skip).skip := by
  have hadd := addToken_opened kind parent hcapacity
  rw [parseValue, if_neg (Nat.not_le.2 hdepth), hrest]
  cases hbrackets with
  | object =>
    change parseObject input (fuel + 1) parent (depth + 1) s.skip = _
    rw [parseObject]
    have hopened : addToken input .object s.skip.cursor.position s.skip.cursor.position parent
        { s.skip with cursor := s.skip.cursor.advance 1 } = .ok (s.skip.tokens.length, opened .object parent s.skip) := hadd
    rw [hopened]
    rfl
  | array =>
    change parseArray input (fuel + 1) parent (depth + 1) s.skip = _
    rw [parseArray]
    have hopened : addToken input .array s.skip.cursor.position s.skip.cursor.position parent
        { s.skip with cursor := s.skip.cursor.advance 1 } = .ok (s.skip.tokens.length, opened .array parent s.skip) := hadd
    rw [hopened]
    rfl

theorem empty_complete {item : Item} (hbrackets : Brackets kind opening closing item) (hspace : Spaces space)
     (hdepth : depth < input.maxDepth)
    (htook : Took input parent depth s.skip (opening :: (space ++ [closing]))
      (.leaf kind s.skip.cursor.position (opening :: (space ++ [closing]))) s') :
    parseValue input (fuel + 2) parent depth s = .ok s' := by
  have hwhole : Took input parent depth s.skip (opening :: (space ++ ([] ++ [closing])))
      (.cons kind s.skip.cursor.position (opening :: (space ++ ([] ++ [closing]))) .nil .nil) s' := htook
  obtain ⟨last, hreads, hnothing, hclosing, rfl⟩ := bracket_parts hwhole
  obtain rfl := hnothing.unique (.nothing (reads_nil _) (le_of_add_right_le hnothing.capacity) hdepth)
  have hskip : (opened kind parent s.skip).skip =
      ⟨(opened kind parent s.skip).cursor.advance space.length, (opened kind parent s.skip).tokens⟩ := by
    refine skip_eq hspace hreads fun x hx => ?_
    have hnot : isWhitespace closing = false := by cases hbrackets <;> decide
    obtain rfl := some.inj (hclosing.symm.trans hx)
    exact hnot
  rw [parseValue_bracket hbrackets hdepth (Nat.lt_of_lt_of_le (by simp [leaf, Forest.size]) htook.capacity) htook.reads.rest,
    hskip, if_pos hclosing]

theorem filled_complete {item : Item}
     (hbrackets : Brackets kind opening closing item) (hspace : Spaces space)
    (hitems : Taken (.list item) (start + 1 + space.length) items children)
    (hkeys : item = .member → children.keys.Nodup)
    (ih : TakenEverywhere input (.list item) (start + 1 + space.length) items children)
     (hfuel : 3 * items.length + 1 ≤ fuel) (hdepth : depth < input.maxDepth)
    (hstart : s.skip.cursor.position = start) (hplace : s.cursor.In input.json)
    (htook : Took input parent depth s.skip (opening :: (space ++ (items ++ [closing])))
      (.cons kind start (opening :: (space ++ (items ++ [closing]))) children .nil) s') :
    parseValue input (fuel + 2) parent depth s = .ok s' := by
  subst hstart
  obtain ⟨last, hreads, hinner, hclosing, rfl⟩ := bracket_parts htook
  have hskip := skip_spaces hspace hitems hreads hinner.reads
  obtain ⟨more, hopening, -⟩ := htook.reads.split_cons
  obtain ⟨blank, -, hblank⟩ := skip_reads s
  have hopen : Open input s.skip.tokens.length (opened kind parent s.skip).tokens .nil
      ⟨(opened kind parent s.skip).cursor.advance space.length, (opened kind parent s.skip).tokens⟩ := by
    refine ⟨(append_nil _).symm, opened_length kind parent s.skip, trivial, ?_⟩
    have hplace' := hopening.within (hblank.within hplace)
    rw [hopening.eq_advance] at hplace'
    exact hreads.within hplace'
  have hlist : listClosing item = closing := by cases hbrackets <;> rfl
  have hparsed := ih fuel s.skip.tokens.length (depth + 1) _ last _ .nil hfuel hreads.position hopen
    (fun hmember => ⟨.nil, hkeys hmember, fun key _ => not_mem_nil⟩) hinner
    (by rw [hlist]; exact hclosing)
  have hfirst : (mk ((opened kind parent s.skip).cursor.advance space.length)
      (opened kind parent s.skip).tokens).cursor.rest.head? ≠ some closing := by
    obtain ⟨x, more, rfl, -, hx, hx'⟩ := text_first hitems
    rw [hinner.reads.rest]
    intro hsame
    cases hsame
    cases hbrackets with
    | object => exact hx' rfl
    | array => exact hx rfl
  have hcapacity : s.skip.tokens.length < input.capacity := by
    have hbound := htook.capacity
    rw [Forest.size] at hbound
    omega
  rw [parseValue_bracket hbrackets hdepth hcapacity htook.reads.rest, hskip, if_neg hfirst]
  exact hparsed

theorem member_complete {name : Bytes} {value : Forest}
    (hname : ∀ c ∈ name, VisibleCharacter c) (hbefore : Spaces before) (hafter : Spaces after)
    (hvalue : Taken (.one .value) (start + 1 + name.length + 1 + before.length + 1 + after.length) text value)
    (ih : TakenEverywhere input (.one .value)
      (start + 1 + name.length + 1 + before.length + 1 + after.length) text value) :
    TakenEverywhere input (.one .member) start (34 :: (name ++ 34 :: (before ++ 58 :: (after ++ text))))
      (.cons .string (start + 1) name .nil value) := by
  intro fuel object depth s s' first done hfuel hstart hopen hpairs hnew htook hend
  subst hstart
  have hdepth := htook.depth
  rw [height, height] at hdepth
  obtain ⟨kind, start', text', children, rfl⟩ := one_value hvalue
  have hsplit : 34 :: (name ++ 34 :: (before ++ 58 :: (after ++ text))) =
      (34 :: (name ++ [34]) ++ (before ++ [58])) ++ (after ++ text) := by simp
  have hwhole : Took input object depth s ((34 :: (name ++ [34]) ++ (before ++ [58])) ++ (after ++ text))
      (.leaf .string (s.cursor.position + 1) name ++ .cons kind start' text' children .nil) s' := by
    rwa [← hsplit]
  obtain ⟨keyed, hkey, hrest⟩ := hwhole.split hopen.within
  obtain ⟨c, hspace, htext⟩ := hrest.reads.split
  have hskip := skip_spaces hafter hvalue hspace htext
  have hplace : keyed.cursor.In input.json := hkey.reads.within hopen.place
  have hposition : keyed.skip.cursor.position =
      s.cursor.position + 1 + name.length + 1 + before.length + 1 + after.length := by
    rw [hskip, hspace.position, hkey.reads.position]
    simp only [length_append, length_cons, length_nil]
    omega
  have hparsed : parseKey input object s = .ok keyed := by
    refine (parseKey_iff hopen hpairs (by omega)).2 ⟨name, before, hname, hbefore, ?_, hkey.deepen ?_⟩
    · exact hnew name mem_cons_self
    · have hleaf : (leaf .string (s.cursor.position + 1) name).height = 1 := rfl
      omega
  have hfinal : Took input object depth keyed.skip text (.cons kind start' text' children .nil) s' := by
    rw [hskip]
    exact ⟨htext, hrest.tokens, hrest.capacity, hrest.depth⟩
  have hlength : 3 * text.length ≤ fuel := by
    simp only [length_append, length_cons] at hfuel
    omega
  rw [parseItem, hparsed]
  exact ih fuel object depth keyed s' hlength hposition hplace hfinal hend

theorem ends_list (item : Item) (hspace : Spaces space) (hreads : c.Reads space c')
    (hend : c'.rest.head? = some 44 ∨ c'.rest.head? = some (listClosing item)) : Ends c.rest := by
  rw [hreads.rest]
  refine ends_of_spaces hspace fun x hx => ?_
  rcases hend with hcomma | hclosing
  · exact .inr (.inl (some.inj (hcomma.symm.trans hx)).symm)
  · obtain rfl := some.inj (hclosing.symm.trans hx)
    cases item with
    | value => exact .inr (.inr (.inl rfl))
    | member => exact .inr (.inr (.inr rfl))

theorem skip_list (item : Item) (hspace : Spaces space) (hreads : s.cursor.Reads space c)
    (hend : c.rest.head? = some 44 ∨ c.rest.head? = some (listClosing item)) : s.skip = { s with cursor := c } := by
  refine skip_eq hspace hreads fun x hx => ?_
  rcases hend with hcomma | hclosing
  · obtain rfl := some.inj (hcomma.symm.trans hx)
    decide
  · obtain rfl := some.inj (hclosing.symm.trans hx)
    cases item <;> decide

theorem last_complete {item : Item} (hitem : Taken (.one item) start text node) (hspace : Spaces space)
    (ih : TakenEverywhere input (.one item) start text node) :
    TakenEverywhere input (.list item) start (text ++ space) node := by
  intro fuel index depth s last first done hfuel hstart hopen hkeys htook hclosing
  rw [length_append] at hfuel
  obtain ⟨fuel, rfl⟩ := exists_eq_succ_of_ne_zero (Nat.ne_zero_of_lt hfuel)
  obtain ⟨c, htext, hblank⟩ := htook.reads.split
  have hfirst : Took input index depth s text node { last with cursor := c } :=
    ⟨htext, htook.tokens, htook.capacity, htook.depth⟩
  have hskip : skip { last with cursor := c } = last := skip_list item hspace hblank (.inr hclosing)
  have hparsed := ih.item fuel (by omega) hstart (skip_taken hitem htext) hopen
    (fun hmember => ⟨(hkeys hmember).1, (hkeys hmember).2.2⟩) hfirst (ends_list item hspace hblank (.inr hclosing))
  have hnonempty : s.cursor.rest ≠ [] := by
    obtain ⟨x, more, rfl, -⟩ := text_first hitem
    rw [htext.rest]
    exact cons_ne_nil _ _
  have hlast := (parseList_item hnonempty hparsed).1 (by rw [hskip]; exact hclosing)
  rwa [hskip] at hlast

theorem more_complete {item : Item}
    (hitem : Taken (.one item) start text node) (hbefore : Spaces before) (hafter : Spaces after)
    (hitems : Taken (.list item) (start + text.length + before.length + 1 + after.length) items forest)
    (ih : TakenEverywhere input (.one item) start text node)
    (ih' : TakenEverywhere input (.list item) (start + text.length + before.length + 1 + after.length) items
      forest) :
    TakenEverywhere input (.list item) start (text ++ (before ++ 44 :: (after ++ items))) (node ++ forest) := by
  intro fuel index depth s last first done hfuel hstart hopen hkeys htook hclosing
  subst hstart
  simp only [length_append, length_cons] at hfuel
  obtain ⟨fuel, rfl⟩ := exists_eq_succ_of_ne_zero (Nat.ne_zero_of_lt hfuel)
  obtain ⟨middle, hfirst, hrest⟩ := htook.split hopen.within
  obtain ⟨c, hblank, hcommas⟩ := hrest.reads.split
  obtain ⟨c', hcomma, hmore⟩ := hcommas.split_cons
  obtain ⟨c'', hblank', hlast⟩ := hmore.split
  have hhead : c.rest.head? = some 44 := by rw [hcomma.rest]; rfl
  have hskip : middle.skip = { middle with cursor := c } :=
    skip_list item hbefore hblank (.inl hhead)
  have hadvance : c' = c.advance 1 := hcomma.eq_advance
  have hskip' : skip { middle.skip with cursor := middle.skip.cursor.advance 1 } =
      { middle with cursor := c'' } := by
    rw [hskip]
    refine skip_spaces (s := { middle with cursor := c.advance 1 }) hafter hitems ?_ hlast
    rwa [← hadvance]
  have hpairs : item = .member → Pairs node := fun hmember => by
    subst hmember
    exact one_member hitem
  have hparsed := ih.item fuel (by omega) rfl (skip_taken hitem hfirst.reads) hopen
    (fun hmember => ⟨(hkeys hmember).1, fun key hkey => (hkeys hmember).2.2 key (by
      rw [(hpairs hmember).keys_append]
      exact mem_append_left _ hkey)⟩) hfirst (ends_list item hbefore hblank (.inl hhead))
  have hnonempty : s.cursor.rest ≠ [] := by
    obtain ⟨x, more, rfl, -⟩ := text_first hitem
    rw [hfirst.reads.rest]
    exact cons_ne_nil _ _
  have hstep := (parseList_item hnonempty hparsed).2 (by rw [hskip]; exact hhead)
  have hgap := hblank.trans (hcomma.trans hblank')
  have hlocated : node.Located input.json := hitem.located (hopen.place.trans hfirst.reads.rest)
  have hopen' := (hopen.took hfirst hlocated).move hgap
  have hplace : c''.position = s.cursor.position + text.length + before.length + 1 + after.length := by
    rw [hgap.position, hfirst.reads.position]
    simp only [length_append, length_singleton]
    omega
  rw [hstep, hskip']
  refine ih' fuel index depth _ last _ _ (by omega) hplace hopen' (fun hmember => ?_)
    ⟨hlast, hrest.tokens, hrest.capacity, hrest.depth⟩ hclosing
  obtain ⟨hdone, hnodup, hfresh⟩ := hkeys hmember
  rw [(hpairs hmember).keys_append] at hnodup hfresh
  obtain ⟨-, hnodup', hdisjoint⟩ := nodup_append.1 hnodup
  refine ⟨hdone.append (hpairs hmember), hnodup', fun key hkey hold => ?_⟩
  rw [hdone.keys_append] at hold
  rcases mem_append.1 hold with hold | hold
  · exact hfresh key (mem_append_right _ hkey) hold
  · exact hdisjoint key hold key hkey rfl

theorem string_complete (hcharacters : Characters ShortEscape text) (hdepth : depth < input.maxDepth)
    (htook : Took input parent depth s.skip (34 :: (text ++ [34]))
      (.leaf .string (s.skip.cursor.position + 1) text) s') :
    parseValue input (fuel + 1) parent depth s = .ok s' := by
  have hrest := htook.reads.rest
  have hquote : s.skip.cursor.rest.head? = some 34 := by rw [hrest]; rfl
  have hstring : parseString input parent false s.skip = .ok (s.skip.tokens.length, s') :=
    (parseString_iff hquote hdepth).2 ⟨text, hcharacters, nofun, rfl, htook⟩
  rw [parseValue, if_neg (Nat.not_le.2 hdepth), hrest]
  exact map_snd_eq_ok.2 ⟨_, hstring⟩

theorem exists_fuel (h : Taken (.one .value) 0 text forest) (hfuel : 3 * text.length ≤ fuel) :
    ∃ more, fuel = more + 1 := by
  obtain ⟨x, more, rfl, -⟩ := text_first h
  rw [length_cons] at hfuel
  exact exists_eq_succ_of_ne_zero (by omega)

theorem text_complete (input : JsonInput)
    (h : Taken shape start text forest) : TakenEverywhere input shape start text forest := by
  induction h with
  | literal hword =>
    intro fuel parent depth s s' hfuel hstart hplace htook hend
    subst hstart
    obtain ⟨fuel, rfl⟩ := exists_fuel (.literal hword) hfuel
    exact literal_complete hword (lt_of_succ_le htook.depth) htook
  | number hnumber =>
    intro fuel parent depth s s' hfuel hstart hplace htook hend
    subst hstart
    obtain ⟨fuel, rfl⟩ := exists_fuel (.number hnumber) hfuel
    exact number_complete hnumber (lt_of_succ_le htook.depth) htook hend
  | string hcharacters =>
    intro fuel parent depth s s' hfuel hstart hplace htook hend
    subst hstart
    obtain ⟨fuel, rfl⟩ := exists_eq_succ_of_ne_zero (Nat.ne_zero_of_lt hfuel)
    exact string_complete hcharacters (lt_of_succ_le htook.depth) htook
  | empty hbrackets hspace =>
    intro fuel parent depth s s' hfuel hstart hplace htook hend
    subst hstart
    rw [length_cons, length_append, length_singleton] at hfuel
    obtain ⟨fuel, rfl⟩ := Nat.exists_eq_add_of_le' (show 2 ≤ fuel by omega)
    exact empty_complete hbrackets hspace (lt_of_succ_le htook.depth) htook
  | filled hbrackets hspace hitems hkeys ih =>
    intro fuel parent depth s s' hfuel hstart hplace htook hend
    simp only [length_cons, length_append, length_nil] at hfuel
    obtain ⟨fuel, rfl⟩ := Nat.exists_eq_add_of_le' (show 2 ≤ fuel by omega)
    have hdepth := htook.depth
    rw [height] at hdepth
    exact filled_complete hbrackets hspace hitems hkeys ih (by omega) (by omega) hstart hplace htook
  | member hname hbefore hafter hvalue ih => exact member_complete hname hbefore hafter hvalue ih
  | last hitem hspace ih => exact last_complete hitem hspace ih
  | more hitem hbefore hafter hitems ih ih' => exact more_complete hitem hbefore hafter hitems ih ih'

end

/-! ### Documents -/

theorem parseJson_sound (h : (parseJson json tokenCapacity maxDepth).error = .ok) :
    json.length ≤ maximumJsonBytes ∧ ∃ forest, Document ShortEscape VisibleCharacter json forest ∧
      forest.size ≤ tokenCapacity ∧ forest.height ≤ maxDepth ∧
      (parseJson json tokenCapacity maxDepth).tokens = forestTokens forest 0 (-1) := by
  unfold parseJson at h ⊢
  split at h
  · cases h
  rename_i harguments
  rw [if_neg harguments]
  split at h
  · cases h
  rename_i hlength
  rw [if_neg hlength]
  dsimp only at h ⊢
  split at h
  · rename_i failure _
    exact absurd h failure.failed
  rename_i s hvalue
  split at h
  · cases h
  rename_i hrest
  rw [if_neg hrest]
  obtain ⟨before, hbefore, hreads⟩ := skip_reads ⟨⟨0, json⟩, []⟩
  have hmax : 0 < maxDepth := Nat.pos_of_ne_zero fun h => harguments (.inr h)
  have hplace : (JsonCursor.mk 0 json).In json := rfl
  obtain ⟨text, forest, htext, htook⟩ := (parser_sound ⟨json, tokenCapacity, maxDepth⟩ hmax _).1
    (-1) 0 _ s (by omega) (hreads.within hplace) hvalue
  rw [skip_skip] at htext htook
  obtain ⟨after, hafter, hreads'⟩ := skip_reads s
  rw [hreads.position, Nat.zero_add] at htext
  have hwhole := (hreads.trans (htook.reads.trans hreads')).rest
  rw [not_not.1 hrest, append_nil] at hwhole
  refine ⟨Nat.not_lt.1 hlength, forest, ?_, ?_, ?_, ?_⟩
  · rw [show json = before ++ (text ++ after) from hwhole]
    exact .mk hbefore htext hafter
  · have hcapacity := htook.capacity
    rwa [skip_tokens, length_nil, Nat.zero_add] at hcapacity
  · have hdepth := htook.depth
    rwa [Nat.zero_add] at hdepth
  · exact htook.tokens

theorem parseJson_complete
    (h : Document ShortEscape VisibleCharacter json forest) (hlength : json.length ≤ maximumJsonBytes)
    (hcapacity : forest.size ≤ tokenCapacity) (hdepth : forest.height ≤ maxDepth) :
    parseJson json tokenCapacity maxDepth = ⟨.ok, json.length, forestTokens forest 0 (-1)⟩ := by
  obtain ⟨hbefore, hvalue, hafter⟩ := h
  rename_i before text after
  obtain ⟨kind, start, text', children, rfl⟩ := one_value hvalue
  rw [Forest.size, Forest.size] at hcapacity
  rw [height, height] at hdepth
  have harguments : ¬ (tokenCapacity = 0 ∨ maxDepth = 0) := by omega
  have hreads : (JsonCursor.mk 0 (before ++ (text ++ after))).Reads before ⟨before.length, text ++ after⟩ :=
    ⟨rfl, (Nat.zero_add _).symm⟩
  have htext : (JsonCursor.mk before.length (text ++ after)).Reads text ⟨before.length + text.length, after⟩ :=
    ⟨rfl, rfl⟩
  have hstart : skip ⟨⟨0, before ++ (text ++ after)⟩, []⟩ = ⟨⟨before.length, text ++ after⟩, []⟩ :=
    skip_spaces (s := ⟨⟨0, before ++ (text ++ after)⟩, []⟩) hbefore hvalue hreads htext
  have hskip := skip_taken (s := ⟨⟨before.length, text ++ after⟩, []⟩) hvalue htext
  have htook : Took ⟨before ++ (text ++ after), tokenCapacity, maxDepth⟩ (-1) 0
      ⟨⟨before.length, text ++ after⟩, []⟩ text (.cons kind start text' children .nil)
      ⟨⟨before.length + text.length, after⟩, forestTokens (.cons kind start text' children .nil) 0 (-1)⟩ := by
    refine ⟨htext, rfl, ?_, ?_⟩
    · rw [length_nil, Forest.size, Forest.size]
      change _ ≤ tokenCapacity
      omega
    · rw [height, height]
      change _ ≤ maxDepth
      omega
  have hplace : (JsonCursor.mk before.length (text ++ after)).In (before ++ (text ++ after)) :=
    drop_left
  have hends : Ends after := by
    have hnil : Ends [] := fun c hc => absurd hc (not_mem_none c)
    have hspaces := ends_of_spaces hafter hnil
    rwa [append_nil] at hspaces
  have hfuel : 3 * text.length ≤ 3 * (before ++ (text ++ after)).length + 3 := by
    rw [length_append, length_append]
    omega
  have hparsed := text_complete ⟨before ++ (text ++ after), tokenCapacity, maxDepth⟩ hvalue
    (3 * (before ++ (text ++ after)).length + 3) (-1) 0 ⟨⟨before.length, text ++ after⟩, []⟩ _ hfuel
    (by rw [hskip]) hplace (by rw [hskip]; exact htook) hends
  have hlast : skip ⟨⟨before.length + text.length, after⟩, forestTokens (.cons kind start text' children .nil) 0 (-1)⟩ =
        ⟨⟨before.length + text.length + after.length, []⟩,
          forestTokens (.cons kind start text' children .nil) 0 (-1)⟩ :=
    skip_eq hafter ⟨(append_nil after).symm, rfl⟩ fun c hc => absurd hc (not_mem_none c)
  unfold parseJson
  rw [if_neg harguments, if_neg (Nat.not_lt.2 hlength)]
  dsimp only
  rw [hstart, hparsed]
  dsimp only
  rw [hlast, if_neg (not_not.2 rfl)]
  simp only [length_append, Nat.add_assoc]

end Bmx.Update
