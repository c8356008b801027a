import Bmx.Update.JsonScanSpec

/-!
# The tokens of a forest

The parser writes the nodes of a document in preorder, each with the index of its parent. A node's
own token is finished later, when its children are counted and its end is known.
-/

namespace Bmx.Update

open List hiding cons_append nil_append append_nil append_assoc length getElem?_eq_some_iff

open Json JsonCursor Forest

def JsonTokenType.ofKind : Kind → JsonTokenType
  | .object => .object
  | .array => .array
  | .string => .string
  | .number => .number
  | .true => .true
  | .false => .false
  | .null => .null

/-- The tokens of nodes that stand side by side, the first of them at an index. -/
def forestTokens : Forest → Nat → Int → List JsonToken
  | .nil, _, _ => []
  | .cons kind start text children next, index, parent =>
    ⟨.ofKind kind, start, start + text.length, parent, children.roots⟩ ::
      (forestTokens children (index + 1) index ++
        forestTokens next (index + 1 + children.size) parent)

theorem forestTokens_length (forest : Forest) (index : Nat) (parent : Int) :
    (forestTokens forest index parent).length = forest.size := by
  induction forest generalizing index parent with
  | nil => rfl
  | cons kind start text children next ih ih' =>
    unfold forestTokens size
    rw [length_cons, length_append, ih, ih']
    omega

theorem forestTokens_append (first second : Forest) (index : Nat) (parent : Int) :
    forestTokens (first ++ second) index parent =
      forestTokens first index parent ++ forestTokens second (index + first.size) parent := by
  induction first generalizing index parent with
  | nil => rfl
  | cons kind start text children next _ ih' =>
    have hindex : index + 1 + children.size + next.size =
        index + (cons kind start text children next).size := by
      rw [size]
      omega
    rw [cons_append, forestTokens, ih', forestTokens, hindex, List.cons_append, List.append_assoc]

/-! ### Counting children -/

/-- A token gets so many more children. -/
def adopts (parent : Int) (count : Nat) (tokens : List JsonToken) : List JsonToken :=
  match parent with
  | .ofNat index => tokens.modify index fun token => { token with childCount := token.childCount + count }
  | .negSucc _ => tokens

theorem adopt_eq (parent : Int) (tokens : List JsonToken) : adopt parent tokens = adopts parent 1 tokens :=
  rfl

@[simp] theorem adopts_zero (parent : Int) (tokens : List JsonToken) : adopts parent 0 tokens = tokens := by
  cases parent with
  | ofNat index => exact modify_id index tokens
  | negSucc index => rfl

@[simp] theorem adopts_length (parent : Int) (count : Nat) (tokens : List JsonToken) :
    (adopts parent count tokens).length = tokens.length := by
  cases parent with
  | ofNat index => exact length_modify ..
  | negSucc index => rfl

theorem adopts_adopts (parent : Int) (first second : Nat) (tokens : List JsonToken) :
    adopts parent second (adopts parent first tokens) = adopts parent (first + second) tokens := by
  cases parent with
  | ofNat index =>
    refine (modify_modify_eq _ _ _ _).trans (congrArg (modify tokens index) ?_)
    funext token
    exact congrArg (JsonToken.mk _ _ _ _) (Nat.add_assoc _ _ _)
  | negSucc index => rfl

variable {index object : Nat} {first : List JsonToken} {parent : Int} {text json : Bytes} {second : Forest}

theorem modify_append_left {second : List JsonToken} (f : JsonToken → JsonToken)
    (h : index < first.length) : (first ++ second).modify index f = first.modify index f ++ second := by
  induction first generalizing index with
  | nil => exact absurd h (Nat.not_lt_zero _)
  | cons token first ih =>
    cases index with
    | zero => rfl
    | succ index =>
      rw [List.cons_append, modify_succ_cons, modify_succ_cons,
        ih (Nat.lt_of_succ_lt_succ h), List.cons_append]

theorem modify_middle (first second : List JsonToken) (token : JsonToken) (f : JsonToken → JsonToken) :
    (first ++ token :: second).modify first.length f = first ++ f token :: second := by
  induction first with
  | nil => rfl
  | cons head first ih => rw [List.cons_append, length_cons, modify_succ_cons, ih, List.cons_append]

theorem adopts_append (h : parent < first.length) (count : Nat)
    (second : List JsonToken) : adopts parent count (first ++ second) = adopts parent count first ++ second := by
  cases parent with
  | ofNat index => exact modify_append_left _ (Int.ofNat_lt.1 h)
  | negSucc index => rfl

theorem adopts_middle (first second : List JsonToken) (token : JsonToken) (count : Nat) :
    adopts first.length count (first ++ token :: second) =
      first ++ { token with childCount := token.childCount + count } :: second :=
  modify_middle first second token _

/-! ### What a step takes -/

/-- Some text is read, and its nodes are added below a token. -/
structure Took (input : JsonInput) (parent : Int) (depth : Nat) (s : JsonState) (text : Bytes)
    (forest : Forest) (s' : JsonState) : Prop where
  reads : s.cursor.Reads text s'.cursor
  tokens : s'.tokens = adopts parent forest.roots s.tokens ++ forestTokens forest s.tokens.length parent
  capacity : s.tokens.length + forest.size ≤ input.capacity
  depth : depth + forest.height ≤ input.maxDepth

namespace Took

variable {input : JsonInput} {parent : Int} {depth : Nat} {s s' s'' : JsonState} {text text' : Bytes}
  {forest forest' : Forest}

theorem length (h : Took input parent depth s text forest s') :
    s'.tokens.length = s.tokens.length + forest.size := by
  rw [h.tokens, length_append, adopts_length, forestTokens_length]

theorem trans (hparent : parent < s.tokens.length) (h : Took input parent depth s text forest s')
    (h' : Took input parent depth s' text' forest' s'') :
    Took input parent depth s (text ++ text') (forest ++ forest') s'' where
  reads := h.reads.trans h'.reads
  tokens := by
    have hwithin : parent < (adopts parent forest.roots s.tokens).length := by rwa [adopts_length]
    rw [h'.tokens, h.tokens, adopts_append hwithin, adopts_adopts, forestTokens_append,
      roots_append, List.append_assoc, length_append, adopts_length, forestTokens_length]
  capacity := by
    have hlast := h'.capacity
    rw [h.length] at hlast
    rw [size_append]
    omega
  depth := by
    have hfirst := h.depth
    have hlast := h'.depth
    rw [height_append]
    omega

theorem split (hparent : parent < s.tokens.length)
    (h : Took input parent depth s (text ++ text') (forest ++ forest') s'') :
    ∃ middle, Took input parent depth s text forest middle ∧
      Took input parent depth middle text' forest' s'' := by
  obtain ⟨c, hfirst, hlast⟩ := h.reads.split
  have hcapacity := h.capacity
  have hdepth := h.depth
  rw [size_append] at hcapacity
  rw [height_append] at hdepth
  have htook : Took input parent depth s text forest
      ⟨c, adopts parent forest.roots s.tokens ++ forestTokens forest s.tokens.length parent⟩ :=
    ⟨hfirst, rfl, by omega, by omega⟩
  have hlength := htook.length
  refine ⟨_, htook, hlast, ?_, by omega, by omega⟩
  have hwithin : parent < (adopts parent forest.roots s.tokens).length := by rwa [adopts_length]
  rw [h.tokens, hlength, adopts_append hwithin, adopts_adopts, forestTokens_append, roots_append, List.append_assoc]

variable {c : JsonCursor}

theorem skip_after (h : Took input parent depth s text forest s') (hreads : s'.cursor.Reads text' c) :
    Took input parent depth s (text ++ text') forest { s' with cursor := c } where
  reads := h.reads.trans hreads
  tokens := h.tokens
  capacity := h.capacity
  depth := h.depth

theorem skip_before (hreads : s.cursor.Reads text c)
    (h : Took input parent depth { s with cursor := c } text' forest s') :
    Took input parent depth s (text ++ text') forest s' where
  reads := hreads.trans h.reads
  tokens := h.tokens
  capacity := h.capacity
  depth := h.depth

theorem nothing (hreads : s.cursor.Reads text c) (hcapacity : s.tokens.length ≤ input.capacity)
    (hdepth : depth ≤ input.maxDepth) :
    Took input parent depth s text .nil { s with cursor := c } where
  reads := hreads
  tokens := by rw [roots, adopts_zero, forestTokens, List.append_nil]
  capacity := hcapacity
  depth := by rwa [height, Nat.add_zero]

theorem deepen {depth' : Nat} (h : Took input parent depth' s text forest s')
    (hdepth : depth + forest.height ≤ input.maxDepth) : Took input parent depth s text forest s' :=
  ⟨h.reads, h.tokens, h.capacity, hdepth⟩

theorem unique (h : Took input parent depth s text forest s') (h' : Took input parent depth s text forest s'') :
    s' = s'' := by
  have hcursor := h.reads.unique h'.reads
  have htokens := h.tokens.trans h'.tokens.symm
  cases s''
  subst hcursor htokens
  rfl

/-- The end of an object or an array whose token was added before what is in it. -/
theorem close {opened last : JsonState} {kind : Kind} {opening closing : UInt8}
    (hreads : s.cursor.Reads [opening] opened.cursor)
    (hopened : opened.tokens = adopt parent s.tokens ++
      [⟨.ofKind kind, s.cursor.position, s.cursor.position, parent, 0⟩])
    (h : Took input s.tokens.length (depth + 1) opened text forest last)
    (hclosing : last.cursor.rest.head? = some closing) :
    Took input parent depth s (opening :: (text ++ [closing]))
      (.cons kind s.cursor.position (opening :: (text ++ [closing])) forest .nil)
      (last.close s.tokens.length) := by
  have hlength : (adopt parent s.tokens).length = s.tokens.length := adopts_length parent 1 s.tokens
  have hcount : opened.tokens.length = s.tokens.length + 1 := by
    rw [hopened, length_append, hlength, length_singleton]
  obtain ⟨more, hrest⟩ := head?_eq_some_iff.1 hclosing
  have hend : last.cursor.Reads [closing] (last.cursor.advance 1) := reads_advance hrest
  refine ⟨hreads.trans (h.reads.trans hend), ?_, ?_, ?_⟩
  · have hstop : last.cursor.position + 1 =
        s.cursor.position + (opening :: (text ++ [closing])).length := by
      rw [h.reads.position, hreads.position]
      simp only [length_cons, length_append, length_nil]
      omega
    have htokens : last.tokens = adopt parent s.tokens ++
        ⟨.ofKind kind, s.cursor.position, s.cursor.position, parent, forest.roots⟩ ::
          forestTokens forest (s.tokens.length + 1) s.tokens.length := by
      rw [h.tokens, hcount, hopened]
      have hmiddle := adopts_middle (adopt parent s.tokens) []
      rw [hlength] at hmiddle
      rw [hmiddle, List.append_assoc, singleton_append, Nat.zero_add]
    have hclosed := modify_middle (adopt parent s.tokens)
      (forestTokens forest (s.tokens.length + 1) s.tokens.length)
      ⟨.ofKind kind, s.cursor.position, s.cursor.position, parent, forest.roots⟩
      fun token => { token with stop := last.cursor.position + 1 }
    rw [hlength, ← htokens, hstop] at hclosed
    have hclose : (last.close s.tokens.length).tokens = last.tokens.modify s.tokens.length
        fun token => { token with stop := s.cursor.position + (opening :: (text ++ [closing])).length } := by
      rw [← hstop]
      rfl
    rw [forestTokens, forestTokens, List.append_nil]
    exact hclose.trans hclosed
  · have hinner := h.capacity
    rw [size, size]
    omega
  · have hinner := h.depth
    rw [height, height]
    omega

end Took

theorem addToken_leaf {input : JsonInput} (kind : Kind) {start depth : Nat} {inner : Bytes}
    {c : JsonCursor} {s s' : JsonState} (hreads : s.cursor.Reads text c) (hdepth : depth < input.maxDepth) :
    addToken input (.ofKind kind) start (start + inner.length) parent { s with cursor := c } =
        .ok (index, s') ↔
      index = s.tokens.length ∧ Took input parent depth s text (.leaf kind start inner) s' := by
  constructor
  · intro h
    unfold addToken at h
    split at h
    · cases h
    rename_i hcapacity
    cases h
    exact ⟨rfl, hreads, rfl, Nat.lt_of_not_ge hcapacity, hdepth⟩
  · rintro ⟨rfl, h⟩
    have hcapacity : ¬ s.tokens.length ≥ input.capacity := Nat.not_le.2 h.capacity
    have htook : Took input parent depth s text (.leaf kind start inner) ⟨c, adopt parent s.tokens ++
        [⟨.ofKind kind, start, start + inner.length, parent, 0⟩]⟩ :=
      ⟨hreads, rfl, h.capacity, h.depth⟩
    obtain rfl := h.unique htook
    exact if_neg hcapacity

/-! ### Keys among the tokens of an object -/

/-- Some token is a key of the object, of which so many children come before these tokens. -/
def HasKey (json : Bytes) (object : Nat) (key : Bytes) (count : Nat) (tokens : List JsonToken) : Prop :=
  ∃ (index : Nat) (token : JsonToken), tokens[index]? = some token ∧ token.parent = (object : Int) ∧
    token.type = .string ∧
    (count + (tokens.take (index + 1)).countP fun token => token.parent == (object : Int)) % 2 = 1 ∧
    token.text json = key

section

variable {json key : Bytes} {object count : Nat}

theorem not_hasKey_nil : ¬ HasKey json object key count [] := by
  rintro ⟨index, token, hget, -⟩
  cases hget

variable {tokens : List JsonToken}

theorem hasKey_cons {token : JsonToken} :
    HasKey json object key count (token :: tokens) ↔
      (token.parent = (object : Int) ∧ token.type = .string ∧ (count + 1) % 2 = 1 ∧ token.text json = key) ∨
        HasKey json object key (count + if token.parent = (object : Int) then 1 else 0) tokens := by
  have hcount : ∀ more : List JsonToken,
      count + (token :: more).countP (fun token => token.parent == (object : Int)) =
        (count + if token.parent = (object : Int) then 1 else 0) +
          more.countP fun token => token.parent == (object : Int) := by
    intro more
    rw [countP_cons]
    simp only [beq_iff_eq]
    omega
  constructor
  · rintro ⟨index, candidate, hget, hparent, htype, hodd, htext⟩
    rw [take_succ_cons, hcount] at hodd
    cases index with
    | zero =>
      cases hget
      rw [if_pos hparent, take_zero, countP_nil] at hodd
      exact .inl ⟨hparent, htype, hodd, htext⟩
    | succ index => exact .inr ⟨index, candidate, hget, hparent, htype, hodd, htext⟩
  · rintro (⟨hparent, htype, hodd, htext⟩ | ⟨index, candidate, hget, hparent, htype, hodd, htext⟩)
    · refine ⟨0, token, rfl, hparent, htype, ?_, htext⟩
      rw [take_succ_cons, hcount, if_pos hparent, take_zero, countP_nil]
      exact hodd
    · refine ⟨index + 1, candidate, hget, hparent, htype, ?_, htext⟩
      rw [take_succ_cons, hcount]
      exact hodd

theorem hasKey_append {others : List JsonToken} (hothers : ∀ token ∈ others, token.parent ≠ (object : Int)) :
    HasKey json object key count (others ++ tokens) ↔ HasKey json object key count tokens := by
  induction others with
  | nil => rfl
  | cons token others ih =>
    obtain ⟨hnot, hrest⟩ := forall_mem_cons.1 hothers
    rw [List.cons_append, hasKey_cons, if_neg hnot, ← ih hrest]
    exact or_iff_right fun h => hnot h.1

end

theorem forestTokens_parent (forest : Forest) (index : Nat) (parent : Int) :
    ∀ token ∈ forestTokens forest index parent, token.parent = parent ∨ (index : Int) ≤ token.parent := by
  induction forest generalizing index parent with
  | nil => exact fun token htoken => absurd htoken not_mem_nil
  | cons kind start text children next ih ih' =>
    intro token htoken
    rcases mem_cons.1 htoken with rfl | htoken
    · exact .inl rfl
    rcases mem_append.1 htoken with htoken | htoken
    · rcases ih _ _ token htoken with hparent | hparent <;> exact .inr (by omega)
    · rcases ih' _ _ token htoken with hparent | hparent
      · exact .inl hparent
      · exact .inr (by omega)

/-- The members of an object: keys and values in turn. -/
inductive Pairs : Forest → Prop
  | nil : Pairs .nil
  | cons {start start' : Nat} {key text : Bytes} {kind : Kind} {children next : Forest} (hnext : Pairs next) :
      Pairs (.cons .string start key .nil (.cons kind start' text children next))

theorem Pairs.append {first : Forest} (h : Pairs first) (h' : Pairs second) : Pairs (first ++ second) := by
  induction h with
  | nil => exact h'
  | cons hnext ih => exact .cons ih

theorem Pairs.keys_append {first : Forest} (h : Pairs first) :
    (first ++ second).keys = first.keys ++ second.keys := by
  induction h with
  | nil => rfl
  | cons hnext ih =>
    rw [cons_append, cons_append, Forest.keys, ih, Forest.keys, List.cons_append]

theorem token_text {token : JsonToken}
    (hat : ∃ after, json.drop token.start = text ++ after) (hstop : token.stop = token.start + text.length) :
    token.text json = text := by
  obtain ⟨after, hat⟩ := hat
  unfold JsonToken.text
  rw [hat, hstop, Nat.add_sub_cancel_left, take_left]

theorem Pairs.hasKey_iff {key : Bytes} {forest : Forest} (h : Pairs forest)
    (count index : Nat) (hlocated : forest.Located json) (hindex : object < index) (heven : count % 2 = 0) :
    HasKey json object key count (forestTokens forest index object) ↔ key ∈ forest.keys := by
  induction h generalizing count index with
  | nil => exact iff_of_false not_hasKey_nil not_mem_nil
  | @cons start start' name text kind children next hnext ih =>
    obtain ⟨hname, -, -, -, hlocated⟩ := hlocated
    have hothers : ∀ token ∈ forestTokens children (index + 1 + 0 + 1) (index + 1 + 0 : Nat),
        token.parent ≠ (object : Int) := by
      intro token htoken hparent
      rcases forestTokens_parent _ _ _ token htoken with hother | hother <;> omega
    have htext : JsonToken.text json ⟨.string, start, start + name.length, object, 0⟩ = name :=
      token_text hname rfl
    have hrest := ih (count + 1 + 1) (index + 1 + 0 + 1 + children.size) hlocated (by omega) (by omega)
    unfold forestTokens
    rw [forestTokens, List.nil_append, size, forestTokens, hasKey_cons, if_pos rfl, hasKey_cons,
      if_pos rfl, hasKey_append hothers, hrest, Forest.keys, mem_cons]
    refine or_congr ?_ (or_iff_right fun hvalue => absurd hvalue.2.2.1 (by omega))
    constructor
    · rintro ⟨-, -, -, hsame⟩
      exact hsame.symm.trans htext
    · intro hsame
      exact ⟨rfl, rfl, by omega, htext.trans hsame.symm⟩

theorem hasDuplicateObjectKey_iff {newest : Nat} {members : List JsonToken}
    {key : JsonToken} (hfirst : first.length = object + 1) (hnewest : newest = first.length + members.length) :
    hasDuplicateObjectKey json (first ++ members ++ [key]) object newest = true ↔
      HasKey json object (key.text json) 0 members := by
  have hkey : (first ++ members ++ [key])[newest]? = some key := by
    rw [hnewest, ← length_append]
    exact getElem?_concat_length
  have hget : ∀ index, index < members.length →
      (first ++ members ++ [key])[object + 1 + index]? = members[index]? := by
    intro index hindex
    rw [List.append_assoc, getElem?_append_right (by omega), hfirst, Nat.add_sub_cancel_left,
      getElem?_append_left hindex]
  have hordinal : ∀ index, index < members.length →
      childOrdinal (first ++ members ++ [key]) object (object + 1 + index) =
        (members.take (index + 1)).countP fun token => token.parent == (object : Int) := by
    intro index hindex
    unfold childOrdinal
    rw [Nat.add_assoc (object + 1), ← hfirst, List.append_assoc, take_length_add_append, drop_left,
      take_append_of_le_length (by omega)]
  unfold hasDuplicateObjectKey
  rw [any_eq_true]
  constructor
  · rintro ⟨index, hindex, hduplicate⟩
    obtain ⟨offset, hoffset, rfl⟩ := mem_range'.1 hindex
    rw [Nat.one_mul] at hduplicate
    have hbound : offset < members.length := by omega
    rw [hget offset hbound, hkey, hordinal offset hbound, getElem?_eq_getElem hbound] at hduplicate
    simp only [Bool.and_eq_true, beq_iff_eq] at hduplicate
    obtain ⟨⟨⟨hparent, htype⟩, hodd⟩, htext⟩ := hduplicate
    refine ⟨offset, _, getElem?_eq_getElem hbound, hparent, htype, ?_, htext⟩
    rwa [Nat.zero_add]
  · rintro ⟨offset, token, htoken, hparent, htype, hodd, htext⟩
    obtain ⟨hbound, rfl⟩ := getElem?_eq_some_iff.1 htoken
    refine ⟨object + 1 + offset, mem_range'.2 ⟨offset, by omega, by omega⟩, ?_⟩
    rw [Nat.zero_add] at hodd
    rw [hget offset hbound, hkey, hordinal offset hbound, htoken]
    simp only [Bool.and_eq_true, beq_iff_eq]
    exact ⟨⟨⟨hparent, htype⟩, hodd⟩, htext⟩

end Bmx.Update
