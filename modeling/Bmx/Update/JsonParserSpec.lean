import Bmx.Update.JsonTree

/-!
# What the parser accepts

The parser takes the texts of the grammar whose keys are visible characters, where NUL is one of the
characters that a backslash may escape, and its tokens are those of the forest they hold.
-/

namespace Bmx.Update

open Json JsonCursor List

abbrev ShortEscape (c : UInt8) : Prop := shortEscape c = true

/-- A text that the parser takes. -/
abbrev Taken := Text ShortEscape VisibleCharacter

/-! ### Strings, numbers and literals -/

section

variable {input : JsonInput} {parent : Int} {depth : Nat} {s s' : JsonState}

theorem parseString_iff {objectKey : Bool} {index : Nat} (hquote : s.cursor.rest.head? = some 34)
    (hdepth : depth < input.maxDepth) :
    parseString input parent objectKey s = .ok (index, s') ↔
      ∃ text, Characters ShortEscape text ∧ (objectKey = true → ∀ c ∈ text, VisibleCharacter c) ∧
        index = s.tokens.length ∧
        Took input parent depth s (34 :: (text ++ [34])) (.leaf .string (s.cursor.position + 1) text) s' := by
  obtain ⟨more, hrest⟩ := head?_eq_some_iff.1 hquote
  have hopen : s.cursor.Reads [34] (s.cursor.advance 1) := reads_advance hrest
  constructor
  · intro h
    unfold parseString at h
    dsimp only at h
    split at h
    · cases h
    rename_i closing escaped hscan
    split at h
    · cases h
    rename_i hplain
    obtain ⟨text, hcharacters, hreads, hend, -, hvisible⟩ := scanString_sound hscan
    obtain ⟨after, hafter⟩ := head?_eq_some_iff.1 hend
    have hclose : closing.Reads [34] (closing.advance 1) := reads_advance hafter
    rw [hreads.position] at h
    obtain ⟨hindex, htook⟩ :=
      (addToken_leaf .string (hopen.trans (hreads.trans hclose)) hdepth).1 h
    refine ⟨text, hcharacters, fun hkey => ?_, hindex, htook⟩
    exact hvisible hkey (Bool.eq_false_iff.2 fun hescaped => hplain ⟨hkey, hescaped⟩)
  · rintro ⟨text, hcharacters, hvisible, hindex, htook⟩
    obtain ⟨opened, hopened, hinner⟩ := htook.reads.split_cons
    obtain ⟨closing, hreads, hclose⟩ := hinner.split
    obtain rfl := hopen.unique hopened
    have hend : closing.rest.head? = some 34 := by rw [hclose.rest]; rfl
    have hfuel : text.length < (s.cursor.advance 1).rest.length + 1 := by
      rw [hreads.rest, length_append]
      omega
    obtain ⟨escaped, hscan, hkept⟩ :=
      scanString_complete hcharacters hvisible _ false hfuel hreads hend
    have hplain : ¬ (objectKey = true ∧ escaped = true) := by
      rintro ⟨hkey, rfl⟩
      cases hkept hkey
    unfold parseString
    dsimp only
    rw [hscan]
    dsimp only
    rw [if_neg hplain, hreads.position]
    have hcursor : closing.advance 1 = s'.cursor := hclose.eq_advance.symm
    rw [hcursor]
    exact (addToken_leaf .string htook.reads hdepth).2 ⟨hindex, htook⟩

theorem map_snd_eq_ok {result : JsonResult (Nat × JsonState)} :
    result.map Prod.snd = .ok s' ↔ ∃ index, result = .ok (index, s') := by
  cases result with
  | error failure => exact iff_of_false nofun nofun
  | ok pair =>
    constructor
    · intro h
      exact ⟨pair.1, congrArg Except.ok (Prod.ext rfl (Except.ok.inj h))⟩
    · rintro ⟨index, h⟩
      exact congrArg Except.ok (congrArg Prod.snd (Except.ok.inj h))

theorem parseLiteral_iff (kind : Kind) {word : Bytes} (hdepth : depth < input.maxDepth) :
    parseLiteral input parent word (.ofKind kind) s = .ok s' ↔
      Took input parent depth s word (.leaf kind s.cursor.position word) s' := by
  constructor
  · intro h
    unfold parseLiteral at h
    split at h
    · rename_i hword
      obtain ⟨index, h⟩ := map_snd_eq_ok.1 h
      have hreads : s.cursor.Reads word (s.cursor.advance word.length) := by
        have hrest := (take_append_drop word.length s.cursor.rest).symm
        rw [hword] at hrest
        exact reads_advance hrest
      exact ((addToken_leaf kind hreads hdepth).1 h).2
    · cases h
  · intro h
    have hword : s.cursor.rest.take word.length = word := by rw [h.reads.rest, take_left]
    unfold parseLiteral
    rw [if_pos hword, ← h.reads.eq_advance]
    exact map_snd_eq_ok.2 ⟨_, (addToken_leaf kind h.reads hdepth).2 ⟨rfl, h⟩⟩

theorem parseNumber_sound (hdepth : depth < input.maxDepth) (h : parseNumber input parent s = .ok s') :
    ∃ text, Number text ∧ Took input parent depth s text (.leaf .number s.cursor.position text) s' := by
  unfold parseNumber at h
  split at h
  · cases h
  rename_i after hscan
  obtain ⟨text, hnumber, hreads⟩ := scanNumber_sound hscan
  obtain ⟨index, h⟩ := map_snd_eq_ok.1 h
  rw [hreads.position] at h
  exact ⟨text, hnumber, ((addToken_leaf .number hreads hdepth).1 h).2⟩

theorem parseNumber_complete {text : Bytes} (hdepth : depth < input.maxDepth) (hnumber : Number text)
    (h : Took input parent depth s text (.leaf .number s.cursor.position text) s')
    (hend : NumberEnd s'.cursor.rest) : parseNumber input parent s = .ok s' := by
  unfold parseNumber
  rw [scanNumber_complete hnumber h.reads hend]
  dsimp only
  rw [h.reads.position]
  exact map_snd_eq_ok.2 ⟨_, (addToken_leaf .number h.reads hdepth).2 ⟨rfl, h⟩⟩

end

/-! ### Whitespace and places -/

theorem skip_reads (s : JsonState) : ∃ space, Spaces space ∧ s.cursor.Reads space s.skip.cursor := by
  obtain ⟨space, hspace, hreads, -⟩ := reads_takeWhile jsonWhitespace s.cursor
  exact ⟨space, hspace, hreads⟩

variable {s : JsonState} {c : JsonCursor} {text : Bytes}

theorem skip_eq {space : Bytes} (hspace : Spaces space)
    (hreads : s.cursor.Reads space c) (hend : ∀ x ∈ c.rest.head?, isWhitespace x = false) :
    s.skip = { s with cursor := c } :=
  congrArg (JsonState.mk · s.tokens) (advance_takeWhile hspace hreads hend)

/-- A cursor is a place of the document. -/
def JsonCursor.In (c : JsonCursor) (json : Bytes) : Prop := json.drop c.position = c.rest

theorem JsonCursor.Reads.within {json : Bytes} {c' : JsonCursor} (h : c.Reads text c')
    (hplace : c.In json) : c'.In json := by
  unfold JsonCursor.In
  rw [h.position]
  exact drop_of_append _ _ (hplace.trans h.rest)

/-- The items so far of an object or an array that is open, with the tokens before them. -/
structure Open (input : JsonInput) (index : Nat) (first : List JsonToken) (done : Forest) (s : JsonState) :
    Prop where
  tokens : s.tokens = first ++ forestTokens done (index + 1) index
  first : first.length = index + 1
  located : done.Located input.json
  place : s.cursor.In input.json

namespace Open

variable {input : JsonInput} {index depth : Nat} {first : List JsonToken} {done node : Forest} {text : Bytes}
  {s s' : JsonState}

theorem length (h : Open input index first done s) : s.tokens.length = index + 1 + done.size := by
  rw [h.tokens, length_append, h.first, forestTokens_length]

theorem within (h : Open input index first done s) : (index : Int) < s.tokens.length := by
  rw [h.length]
  omega

theorem took (h : Open input index first done s) (htook : Took input index depth s text node s')
    (hnode : node.Located input.json) :
    Open input index (adopts index node.roots first) (done ++ node) s' where
  tokens := by
    have hwithin : (index : Int) < first.length := by
      rw [h.first]
      omega
    rw [htook.tokens, h.length, h.tokens, adopts_append hwithin, forestTokens_append, append_assoc]
  first := by rw [adopts_length, h.first]
  located := h.located.append hnode
  place := htook.reads.within h.place

theorem move (h : Open input index first done s) {c : JsonCursor} (hreads : s.cursor.Reads text c) :
    Open input index first done { s with cursor := c } :=
  ⟨h.tokens, h.first, h.located, hreads.within h.place⟩

end Open

/-! ### Keys -/

theorem visible_characters {single : UInt8 → Prop} {name : Bytes} (h : ∀ c ∈ name, VisibleCharacter c) :
    Characters single name := by
  induction name with
  | nil => exact .nil
  | cons c name ih =>
    obtain ⟨hc, hname⟩ := forall_mem_cons.1 h
    have hcontrol : 0x20 ≤ c := UInt8.le_trans (by decide) hc.visible.1
    have hascii : c < 0x80 := UInt8.lt_of_le_of_lt hc.visible.2 (by decide)
    have hfirst : Character single [c] := .plain hcontrol hascii hc.quote hc.escape
    exact .cons hfirst (ih hname)

section

variable {input : JsonInput} {object : Nat} {first : List JsonToken} {done : Forest} {s s' : JsonState}

/-- A key that was just read is looked for among the keys before it. -/
theorem duplicate_iff (hopen : Open input object first done s) (hpairs : Pairs done) {name : Bytes}
    (htook : Took input object 0 s (34 :: (name ++ [34])) (.leaf .string (s.cursor.position + 1) name) s') :
    hasDuplicateObjectKey input.json s'.tokens object s.tokens.length = true ↔ name ∈ done.keys := by
  have htokens : s'.tokens = adopts object 1 first ++ forestTokens done (object + 1) object ++
      [⟨.string, s.cursor.position + 1, s.cursor.position + 1 + name.length, object, 0⟩] := by
    have hwithin : (object : Int) < first.length := by
      rw [hopen.first]
      omega
    rw [htook.tokens, hopen.tokens]
    exact congrArg (· ++ _) (adopts_append hwithin 1 _)
  have hplace : ∃ after, input.json.drop (s.cursor.position + 1) = name ++ after := by
    have hrest := htook.reads.rest
    exact ⟨[34] ++ s'.cursor.rest, by
      rw [← append_assoc]
      exact drop_of_append [34] _ (hopen.place.trans hrest)⟩
  have htext : JsonToken.text input.json
      ⟨.string, s.cursor.position + 1, s.cursor.position + 1 + name.length, object, 0⟩ = name :=
    token_text hplace rfl
  have hfirst : (adopts object 1 first).length = object + 1 := by rw [adopts_length, hopen.first]
  have hnewest : s.tokens.length =
      (adopts object 1 first).length + (forestTokens done (object + 1) object).length := by
    rw [hopen.length, hfirst, forestTokens_length]
  rw [htokens, hasDuplicateObjectKey_iff hfirst hnewest, htext]
  exact hpairs.hasKey_iff _ _ hopen.located (Nat.lt_succ_self object) rfl

theorem parseKey_iff (hopen : Open input object first done s) (hpairs : Pairs done) (hdepth : 0 < input.maxDepth) :
    parseKey input object s = .ok s' ↔
      ∃ name before, (∀ c ∈ name, VisibleCharacter c) ∧ Spaces before ∧ name ∉ done.keys ∧
        Took input object 0 s (34 :: (name ++ [34]) ++ (before ++ [58]))
          (.leaf .string (s.cursor.position + 1) name) s' := by
  constructor
  · intro h
    unfold parseKey at h
    split at h
    · cases h
    rename_i hquote
    split at h
    · cases h
    rename_i key keyed hstring
    split at h
    · cases h
    rename_i hnew
    split at h
    · cases h
    rename_i hcolon
    cases h
    obtain ⟨name, -, hvisible, rfl, htook⟩ := (parseString_iff (not_not.1 hquote) hdepth).1 hstring
    rw [duplicate_iff hopen hpairs htook] at hnew
    obtain ⟨before, hbefore, hreads⟩ := skip_reads keyed
    obtain ⟨more, hrest⟩ := head?_eq_some_iff.1 (not_not.1 hcolon)
    have hlast : keyed.skip.cursor.Reads [58] (keyed.skip.cursor.advance 1) := reads_advance hrest
    exact ⟨name, before, hvisible rfl, hbefore, hnew, htook.skip_after (hreads.trans hlast)⟩
  · rintro ⟨name, before, hvisible, hbefore, hnew, htook⟩
    obtain ⟨keyed, hname, hmore⟩ := htook.reads.split
    obtain ⟨colon, hspace, hlast⟩ := hmore.split
    have hkey : Took input object 0 s (34 :: (name ++ [34])) (.leaf .string (s.cursor.position + 1) name)
        { s' with cursor := keyed } := ⟨hname, htook.tokens, htook.capacity, htook.depth⟩
    have hquote : s.cursor.rest.head? = some 34 := by rw [hname.rest]; rfl
    have hstring : parseString input object true s =
        .ok (s.tokens.length, { s' with cursor := keyed }) :=
      (parseString_iff hquote hdepth).2
        ⟨name, visible_characters hvisible, fun _ => hvisible, rfl, hkey⟩
    have hcolon : colon.rest.head? = some 58 := by rw [hlast.rest]; rfl
    have hskip : JsonState.skip { s' with cursor := keyed } = { s' with cursor := colon } := by
      refine skip_eq hbefore hspace fun x hx => ?_
      rw [hcolon] at hx
      cases hx
      decide
    unfold parseKey
    rw [if_neg (not_not.2 hquote), hstring]
    dsimp only
    rw [if_neg (mt (duplicate_iff hopen hpairs hkey).1 hnew), hskip, if_neg (not_not.2 hcolon)]
    have hcursor : colon.advance 1 = s'.cursor := hlast.eq_advance.symm
    rw [hcursor]

end

theorem skip_skip (s : JsonState) : s.skip.skip = s.skip := by
  obtain ⟨space, -, -, hend⟩ := reads_takeWhile jsonWhitespace s.cursor
  exact skip_eq (fun x hx => absurd hx not_mem_nil) (reads_nil s.skip.cursor) hend

theorem skip_tokens (s : JsonState) : s.skip.tokens = s.tokens := rfl

section

variable {single key : UInt8 → Prop} {start : Nat} {text : Bytes} {forest : Forest}

theorem one_value (h : Text single key (.one .value) start text forest) :
    ∃ kind start' text' children, forest = .cons kind start' text' children .nil := by
  cases h with
  | literal hword | number hnumber | string hcharacters | empty hbrackets hspace
  | filled hbrackets hspace hitems hkeys => exact ⟨_, _, _, _, rfl⟩

theorem one_member (h : Text single key (.one .member) start text forest) : Pairs forest := by
  cases h with
  | member hname hbefore hafter hvalue =>
    obtain ⟨kind, start', text', children, rfl⟩ := one_value hvalue
    exact .cons .nil

end

/-! ### Soundness -/

variable (input : JsonInput)

def ValueSound (fuel : Nat) : Prop :=
  ∀ (parent : Int) (depth : Nat) (s s' : JsonState), parent < s.tokens.length → s.cursor.In input.json →
    parseValue input fuel parent depth s = .ok s' →
      ∃ text node, Taken (.one .value) s.skip.cursor.position text node ∧
        Took input parent depth s.skip text node s'

/-- What a loop over the items of a list takes, up to the closing bracket. -/
def ListSound (item : Item) (closing : UInt8) (parse : Nat → Nat → JsonState → JsonResult JsonState) :
    Prop :=
  ∀ (index depth : Nat) (s s' : JsonState) (first : List JsonToken) (done : Forest),
    Open input index first done s → (item = .member → Pairs done) → s.skip = s →
    parse index depth s = .ok s' →
      ∃ items forest last, Taken (.list item) s.cursor.position items forest ∧
        Took input index depth s items forest last ∧ last.cursor.rest.head? = some closing ∧
        s' = last.close index ∧
        (item = .member → forest.keys.Nodup ∧ ∀ key ∈ forest.keys, key ∉ done.keys)

/-- What a function for one bracketed value takes. -/
def BracketSound (opening : UInt8) (parse : Int → Nat → JsonState → JsonResult JsonState) : Prop :=
  ∀ (parent : Int) (depth : Nat) (s s' : JsonState), s.cursor.In input.json → depth < input.maxDepth →
    s.cursor.rest.head? = some opening → parse parent (depth + 1) s = .ok s' →
      ∃ text node, Taken (.one .value) s.cursor.position text node ∧ Took input parent depth s text node s'

variable {input}

variable {item : Item} {closing : UInt8} {parse : Nat → Nat → JsonState → JsonResult JsonState}
  {index depth fuel : Nat} {s' : JsonState} {parent : Int}

/-- A list whose first item was taken: it ends there, or goes on behind a comma. -/
theorem list_sound (hlist : ListSound input item closing parse) {middle : JsonState}
    {first : List JsonToken} {done node : Forest} (hopen : Open input index first done s)
    (hdone : item = .member → Pairs done) (hitem : Taken (.one item) s.cursor.position text node)
    (htook : Took input index depth s text node middle)
    (hkeys : item = .member → ∀ key ∈ node.keys, key ∉ done.keys)
    (hnodup : item = .member → node.keys.Nodup)
    (htail : (middle.skip.cursor.rest.head? = some closing ∧ s' = middle.skip.close index) ∨
      (middle.skip.cursor.rest.head? = some 44 ∧ parse index depth
        (JsonState.skip { middle.skip with cursor := middle.skip.cursor.advance 1 }) = .ok s')) :
    ∃ items forest last, Taken (.list item) s.cursor.position items forest ∧
      Took input index depth s items forest last ∧ last.cursor.rest.head? = some closing ∧
      s' = last.close index ∧
      (item = .member → forest.keys.Nodup ∧ ∀ key ∈ forest.keys, key ∉ done.keys) := by
  obtain ⟨before, hbefore, hreads⟩ := skip_reads middle
  have hskipped := htook.skip_after hreads
  rcases htail with ⟨hclosing, hclose⟩ | ⟨hcomma, hmore⟩
  · exact ⟨_, node, middle.skip, .last hitem hbefore, hskipped, hclosing, hclose,
      fun hmember => ⟨hnodup hmember, hkeys hmember⟩⟩
  obtain ⟨rest, hrest⟩ := head?_eq_some_iff.1 hcomma
  have hcommaReads : middle.skip.cursor.Reads [44] (middle.skip.cursor.advance 1) := reads_advance hrest
  obtain ⟨after, hafter, hafterReads⟩ :=
    skip_reads { middle.skip with cursor := middle.skip.cursor.advance 1 }
  have hgap := hreads.trans (hcommaReads.trans hafterReads)
  have hlocated : node.Located input.json := hitem.located (hopen.place.trans htook.reads.rest)
  have hopen' := (hopen.took htook hlocated).move hgap
  have hpairs : item = .member → Pairs (done ++ node) := fun hmember => by
    subst hmember
    exact (hdone rfl).append (one_member hitem)
  obtain ⟨items, forest, last, hitems, htook', hclosing, hclose, hfresh⟩ :=
    hlist index depth _ s' _ _ hopen' hpairs (skip_skip _) hmore
  have hplace : (JsonState.skip { middle.skip with cursor := middle.skip.cursor.advance 1 }).cursor.position =
      s.cursor.position + text.length + before.length + 1 + after.length := by
    rw [hgap.position, htook.reads.position]
    simp only [length_append, length_singleton]
    omega
  rw [hplace] at hitems
  refine ⟨_, _, last, .more hitem hbefore hafter hitems, ?_, hclosing, hclose, fun hmember => ?_⟩
  · have hwhole := (htook.skip_after hgap).trans hopen.within htook'
    simpa only [append_assoc, cons_append, nil_append] using hwhole
  · subst hmember
    obtain ⟨hnodup', hfresh⟩ := hfresh rfl
    rw [(one_member hitem).keys_append]
    refine ⟨nodup_append.2 ⟨hnodup rfl, hnodup', fun key hkey other hother => ?_⟩,
      fun key hkey => ?_⟩
    · rintro rfl
      have hnot := hfresh key hother
      rw [(hdone rfl).keys_append] at hnot
      exact hnot (mem_append_right _ hkey)
    · rcases mem_append.1 hkey with hkey | hkey
      · exact hkeys rfl key hkey
      · have hnot := hfresh key hkey
        rw [(hdone rfl).keys_append] at hnot
        exact fun hdone => hnot (mem_append_left _ hdone)


theorem addToken_iff {type : JsonTokenType} {start stop : Nat} {opened : JsonState} :
    addToken input type start stop parent { s with cursor := c } = .ok (index, opened) ↔
      s.tokens.length < input.capacity ∧ index = s.tokens.length ∧ opened.cursor = c ∧
        opened.tokens = adopt parent s.tokens ++ [⟨type, start, stop, parent, 0⟩] := by
  constructor
  · intro h
    unfold addToken at h
    split at h
    · cases h
    rename_i hcapacity
    cases h
    exact ⟨Nat.lt_of_not_ge hcapacity, rfl, rfl, rfl⟩
  · rintro ⟨hcapacity, rfl, hcursor, htokens⟩
    cases opened
    subst hcursor htokens
    exact if_neg (Nat.not_le.2 hcapacity)

theorem bracket_sound {kind : Kind} {opening : UInt8} (hbrackets : Brackets kind opening closing item)
    (hlist : ListSound input item closing parse)
    (hplace : s.cursor.In input.json) (hdepth : depth < input.maxDepth)
    (hopening : s.cursor.rest.head? = some opening)
    (h : (match addToken input (.ofKind kind) s.cursor.position s.cursor.position parent
        { s with cursor := s.cursor.advance 1 } with
      | .error failure => (.error failure : JsonResult JsonState)
      | .ok (index, s) =>
        if s.skip.cursor.rest.head? = some closing then .ok (s.skip.close index)
        else parse index (depth + 1) s.skip) = .ok s') :
    ∃ text node, Taken (.one .value) s.cursor.position text node ∧ Took input parent depth s text node s' := by
  split at h
  · cases h
  rename_i index opened hadd
  obtain ⟨hcapacity, rfl, hcursor, htokens⟩ := addToken_iff.1 hadd
  have hreads : s.cursor.Reads [opening] opened.cursor := by
    obtain ⟨more, hrest⟩ := head?_eq_some_iff.1 hopening
    rw [hcursor]
    exact reads_advance hrest
  have hlength : opened.tokens.length = s.tokens.length + 1 := by
    rw [htokens, length_append, length_singleton, adopt_eq, adopts_length]
  obtain ⟨space, hspace, hspaceReads⟩ := skip_reads opened
  split at h
  · rename_i hclosing
    cases h
    have hnothing : Took input s.tokens.length (depth + 1) opened space .nil opened.skip :=
      .nothing hspaceReads (by omega) hdepth
    exact ⟨_, _, .empty hbrackets hspace, Took.close hreads htokens hnothing hclosing⟩
  · have hopen : Open input s.tokens.length opened.tokens .nil opened.skip :=
      ⟨(append_nil _).symm, hlength, trivial, hspaceReads.within (hreads.within hplace)⟩
    obtain ⟨items, forest, last, hitems, htook, hclosing, rfl, hkeys⟩ :=
      hlist _ _ _ _ _ _ hopen (fun _ => .nil) (skip_skip _) h
    rw [hspaceReads.position, hreads.position] at hitems
    have hinner := Took.close hreads htokens (htook.skip_before hspaceReads) hclosing
    rw [append_assoc] at hinner
    exact ⟨_, _, .filled hbrackets hspace hitems fun hmember => (hkeys hmember).1, hinner⟩

theorem parseObject_sound (hmembers : ListSound input .member 125 (parseMembers input fuel)) :
    BracketSound input 123 (parseObject input (fuel + 1)) := by
  intro parent depth s s' hplace hdepth hopening h
  unfold parseObject at h
  exact bracket_sound .object hmembers hplace hdepth hopening h

theorem parseArray_sound (helements : ListSound input .value 93 (parseElements input fuel)) :
    BracketSound input 91 (parseArray input (fuel + 1)) := by
  intro parent depth s s' hplace hdepth hopening h
  unfold parseArray at h
  exact bracket_sound .array helements hplace hdepth hopening h

theorem parseElements_sound (hvalue : ValueSound input fuel)
    (helements : ListSound input .value 93 (parseElements input fuel)) :
    ListSound input .value 93 (parseElements input (fuel + 1)) := by
  intro index depth s s' first done hopen hdone hskipped h
  unfold parseElements at h
  split at h
  · cases h
  split at h
  · cases h
  rename_i middle hmiddle
  obtain ⟨text, node, hitem, htook⟩ := hvalue _ _ _ _ hopen.within hopen.place hmiddle
  rw [hskipped] at hitem htook
  refine list_sound helements hopen hdone hitem htook (fun h => by cases h) (fun h => by cases h) ?_
  split at h
  · rename_i more hrest
    exact .inl ⟨by rw [hrest]; rfl, (Except.ok.inj h).symm⟩
  · rename_i more hrest
    exact .inr ⟨by rw [hrest]; rfl, h⟩
  · cases h

theorem parseMembers_sound (hmax : 0 < input.maxDepth) (hvalue : ValueSound input fuel)
    (hmembers : ListSound input .member 125 (parseMembers input fuel)) :
    ListSound input .member 125 (parseMembers input (fuel + 1)) := by
  intro object depth s s' first done hopen hdone hskipped h
  unfold parseMembers at h
  split at h
  · cases h
  rename_i keyed hkeyed
  split at h
  · cases h
  rename_i middle hmiddle
  obtain ⟨name, before, hvisible, hbefore, hnew, hkey⟩ := (parseKey_iff hopen (hdone rfl) hmax).1 hkeyed
  have hopen' := hopen.took hkey ⟨?_, trivial, trivial⟩
  · obtain ⟨text, value, hitem, htook⟩ := hvalue _ _ _ _ hopen'.within hopen'.place hmiddle
    obtain ⟨after, hafter, hreads⟩ := skip_reads keyed
    obtain ⟨kind, start', text', children, rfl⟩ := one_value hitem
    have hplace : keyed.skip.cursor.position =
        s.cursor.position + 1 + name.length + 1 + before.length + 1 + after.length := by
      rw [hreads.position, hkey.reads.position]
      simp only [length_append, length_cons, length_nil]
      omega
    rw [hplace] at hitem
    have hdepth : depth + (Forest.leaf .string (s.cursor.position + 1) name).height ≤ input.maxDepth := by
      have hleaf : (Forest.leaf .string (s.cursor.position + 1) name).height = 1 := rfl
      have hinner := htook.depth
      rw [Forest.height] at hinner
      omega
    have hwhole := (hkey.deepen hdepth).trans hopen.within (htook.skip_before hreads)
    simp only [append_assoc, cons_append, nil_append] at hwhole
    refine list_sound hmembers hopen hdone (.member hvisible hbefore hafter hitem) hwhole ?_ ?_ ?_
    · intro _ key hmem
      obtain rfl := mem_singleton.1 hmem
      exact hnew
    · exact fun _ => nodup_cons.2 ⟨not_mem_nil, nodup_nil⟩
    · split at h
      · rename_i more hrest
        exact .inl ⟨by rw [hrest]; rfl, (Except.ok.inj h).symm⟩
      · rename_i more hrest
        exact .inr ⟨by rw [hrest]; rfl, h⟩
      · cases h
  · have hrest := hkey.reads.rest
    rw [append_assoc, cons_append, ← singleton_append, append_assoc, append_assoc] at hrest
    exact ⟨_, drop_of_append [34] _ (hopen.place.trans hrest)⟩

theorem parseValue_sound (hobject : BracketSound input 123 (parseObject input fuel))
    (harray : BracketSound input 91 (parseArray input fuel)) : ValueSound input (fuel + 1) := by
  intro parent depth s s' hparent hplace h
  obtain ⟨space, -, hreads⟩ := skip_reads s
  have hplace' := hreads.within hplace
  unfold parseValue at h
  split at h
  · cases h
  rename_i hdepth
  rw [Nat.not_le] at hdepth
  split at h
  · cases h
  · rename_i more hrest
    exact hobject _ _ _ _ hplace' hdepth (by rw [hrest]; rfl) h
  · rename_i more hrest
    exact harray _ _ _ _ hplace' hdepth (by rw [hrest]; rfl) h
  · rename_i more hrest
    obtain ⟨index, hstring⟩ := map_snd_eq_ok.1 h
    have hquote : s.skip.cursor.rest.head? = some 34 := by rw [hrest]; rfl
    obtain ⟨text, hcharacters, -, -, htook⟩ := (parseString_iff hquote hdepth).1 hstring
    exact ⟨_, _, .string hcharacters, htook⟩
  · exact ⟨_, _, .literal .true, (parseLiteral_iff .true hdepth).1 h⟩
  · exact ⟨_, _, .literal .false, (parseLiteral_iff .false hdepth).1 h⟩
  · exact ⟨_, _, .literal .null, (parseLiteral_iff .null hdepth).1 h⟩
  · split at h
    · obtain ⟨text, hnumber, htook⟩ := parseNumber_sound hdepth h
      exact ⟨_, _, .number hnumber, htook⟩
    · cases h

/-- Every function of the parser takes texts of the grammar, at any fuel. -/
theorem parser_sound (input : JsonInput) (hmax : 0 < input.maxDepth) (fuel : Nat) :
    ValueSound input fuel ∧ BracketSound input 123 (parseObject input fuel) ∧
      BracketSound input 91 (parseArray input fuel) ∧
      ListSound input .member 125 (parseMembers input fuel) ∧
      ListSound input .value 93 (parseElements input fuel) := by
  induction fuel with
  | zero =>
    refine ⟨?_, ?_, ?_, ?_, ?_⟩
    · intro parent depth s s' _ _ h
      unfold parseValue at h
      cases h
    · intro parent depth s s' _ _ _ h
      unfold parseObject at h
      cases h
    · intro parent depth s s' _ _ _ h
      unfold parseArray at h
      cases h
    · intro index depth s s' first done _ _ _ h
      unfold parseMembers at h
      cases h
    · intro index depth s s' first done _ _ _ h
      unfold parseElements at h
      cases h
  | succ fuel ih =>
    obtain ⟨hvalue, hobject, harray, hmembers, helements⟩ := ih
    exact ⟨parseValue_sound hobject harray, parseObject_sound hmembers, parseArray_sound helements,
      parseMembers_sound hmax hvalue hmembers, parseElements_sound hvalue helements⟩

end Bmx.Update
