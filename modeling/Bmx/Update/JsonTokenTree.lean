import Bmx.Update.JsonAcceptance
import Mathlib.Algebra.BigOperators.Group.List.Defs

/-!
# The tokens as a tree

The consumers find their way through the tokens by parents and places alone. In the table of an accepted document these
say what the document holds: whose child a token is, in which order the children stand, and which value has which key.
-/

namespace Bmx.Update

open Json List Option

/-! ### Nodes -/

inductive Node : Forest → Kind → Nat → Bytes → Forest → Prop
  | here {kind : Kind} {start : Nat} {text : Bytes} {children next : Forest} :
      Node (.cons kind start text children next) kind start text children
  | inside {kind kind' : Kind} {start start' : Nat} {text text' : Bytes} {children children' next : Forest}
      (h : Node children kind start text children') : Node (.cons kind' start' text' children next) kind start text children'
  | later {kind kind' : Kind} {start start' : Nat} {text text' : Bytes} {children children' next : Forest}
      (h : Node next kind start text children') : Node (.cons kind' start' text' children next) kind start text children'

/-- Every object holds keys and values in turn, and no key twice. -/
def Objects : Forest → Prop
  | .nil => True
  | .cons kind _ _ children next =>
    (kind = .object → Pairs children ∧ children.keys.Nodup) ∧ Objects children ∧ Objects next

theorem Objects.append {first second : Forest} (h : Objects first) (h' : Objects second) : Objects (first ++ second) := by
  induction first with
  | nil => exact h'
  | cons kind start text children next _ ih => exact ⟨h.1, h.2.1, ih h.2.2⟩

section

variable {single : UInt8 → Prop} {start : Nat} {text : Bytes} {forest : Forest} {shape : Shape}

theorem list_members (h : Text single VisibleCharacter shape start text forest) (hlist : shape = .list .member) :
    Pairs forest := by
  induction h with
  | last hitem hspace _ =>
    cases hlist
    exact one_member hitem
  | more hitem hbefore hafter hitems _ ih =>
    cases hlist
    exact (one_member hitem).append (ih rfl)
  | _ => cases hlist

theorem text_objects (h : Text single VisibleCharacter shape start text forest) : Objects forest := by
  induction h with
  | literal hword => cases hword <;> exact ⟨nofun, trivial, trivial⟩
  | number hnumber | string hcharacters => exact ⟨nofun, trivial, trivial⟩
  | empty hbrackets hspace => exact ⟨fun _ => ⟨.nil, nodup_nil⟩, trivial, trivial⟩
  | filled hbrackets hspace hitems hkeys ih =>
    refine ⟨fun hobject => ?_, ih, trivial⟩
    subst hobject
    cases hbrackets
    exact ⟨list_members hitems rfl, hkeys rfl⟩
  | member hname hbefore hafter hvalue ih => exact ⟨nofun, trivial, ih⟩
  | last hitem hspace ih => exact ih
  | more hitem hbefore hafter hitems ih ih' => exact ih.append ih'

end

section

variable {forest children : Forest} {kind : Kind} {start : Nat} {text : Bytes}

theorem Node.objects (h : Node forest kind start text children) (hobjects : Objects forest) :
    kind = .object → Pairs children ∧ children.keys.Nodup := by
  induction h with
  | here => exact hobjects.1
  | inside h ih => exact ih hobjects.2.1
  | later h ih => exact ih hobjects.2.2

theorem Node.located {json : Bytes} (h : Node forest kind start text children) (hlocated : forest.Located json) :
    children.Located json := by
  induction h with
  | here => exact hlocated.2.1
  | inside h ih => exact ih hlocated.2.1
  | later h ih => exact ih hlocated.2.2

theorem Node.within {low high : Nat} (h : Node forest kind start text children) (hwithin : forest.Within low high) :
    children.Within (start + 1) (start + text.length - 1) := by
  induction h generalizing low high with
  | here => exact hwithin.2.2.1
  | inside h ih => exact ih hwithin.2.2.1
  | later h ih => exact ih hwithin.2.2.2

end

/-! ### Parents and places -/

variable {forest children : Forest} {index node low high object stop : Nat} {parent : Int} {token : JsonToken}
  {tokens after : List JsonToken} {json name : Bytes}

theorem forestTokens_before (hparent : parent < index) (h : (forestTokens forest index parent)[node]? = some token) :
    token.parent < (index + node : Nat) := by
  induction forest generalizing index parent node with
  | nil => cases h
  | cons kind start text children next ih ih' =>
    rw [forestTokens] at h
    cases node with
    | zero =>
      cases h
      exact hparent
    | succ node =>
      rw [getElem?_cons_succ] at h
      by_cases hchild : node < children.size
      · rw [getElem?_append_left (by rwa [forestTokens_length])] at h
        have hbefore := ih (by omega) h
        omega
      · rw [getElem?_append_right (by rw [forestTokens_length]; omega), forestTokens_length] at h
        have hbefore := ih' (by omega) h
        omega

theorem forestTokens_parent_lt (hparent : parent < index) :
    ∀ token ∈ forestTokens forest index parent, token.parent < (index + forest.size : Nat) := by
  intro token htoken
  obtain ⟨node, hnode⟩ := mem_iff_getElem?.1 htoken
  have hbefore := forestTokens_before hparent hnode
  obtain ⟨hlength, -⟩ := List.getElem?_eq_some_iff.1 hnode
  rw [forestTokens_length] at hlength
  omega

theorem forestTokens_within (h : forest.Within low high) (index : Nat) (parent : Int) :
    ∀ token ∈ forestTokens forest index parent,
      low ≤ token.start ∧ token.start ≤ token.stop ∧ token.stop ≤ high := by
  induction forest generalizing low high index parent with
  | nil => exact fun token htoken => absurd htoken not_mem_nil
  | cons kind start text children next ih ih' =>
    obtain ⟨hstart, hstop, hchildren, hnext⟩ := h
    intro token htoken
    rcases mem_cons.1 htoken with rfl | htoken
    · exact ⟨hstart, Nat.le_add_right _ _, hstop⟩
    rcases mem_append.1 htoken with htoken | htoken
    · obtain ⟨hlow, hsome, hhigh⟩ := ih hchildren _ _ token htoken
      exact ⟨by omega, hsome, by omega⟩
    · obtain ⟨hlow, hsome, hhigh⟩ := ih' hnext _ _ token htoken
      exact ⟨by omega, hsome, hhigh⟩

theorem forestTokens_ordered (h : forest.Within low high) (hparent : parent < index) :
    (forestTokens forest index parent).Pairwise fun a b => a.parent = b.parent → a.stop ≤ b.start := by
  induction forest generalizing low high index parent with
  | nil => exact .nil
  | cons kind start text children next ih ih' =>
    obtain ⟨-, -, hchildren, hnext⟩ := h
    have hbelow := forestTokens_parent children (index + 1) index
    have hbeside := forestTokens_parent next (index + 1 + children.size) parent
    rw [forestTokens, pairwise_cons, pairwise_append]
    refine ⟨fun token htoken hsame => ?_, ih hchildren (by omega), ih' hnext (by omega), ?_⟩
    · change parent = token.parent at hsame
      rcases mem_append.1 htoken with htoken | htoken
      · rcases hbelow token htoken with hother | hother <;> omega
      · exact (forestTokens_within hnext _ _ token htoken).1
    · intro token htoken other hother hsame
      have hlt := forestTokens_parent_lt (by omega : (index : Int) < (index + 1 : Nat)) token htoken
      rcases hbelow token htoken with hfirst | hfirst <;> rcases hbeside other hother with hsecond | hsecond <;> omega

/-! ### The tokens below a token -/

/-- The tokens around a token: those of its children follow it, and no other token has it as its parent. -/
structure Around (tokens : List JsonToken) (node : Nat) (children : Forest) (token : JsonToken)
    (before after : List JsonToken) : Prop where
  tokens : tokens = before ++ token :: (forestTokens children (node + 1) node ++ after)
  before : ∀ other ∈ before, other.parent < (node : Int)
  after : ∀ other ∈ after, other.parent ≠ (node : Int)

theorem forestTokens_around (hparent : parent < index) (h : (forestTokens forest index parent)[node]? = some token) :
    ∃ kind start text children, Node forest kind start text children ∧
      token = ⟨.ofKind kind, start, start + text.length, token.parent, children.roots⟩ ∧
      ∃ before after, before.length = node ∧
        Around (forestTokens forest index parent) (index + node) children token before after := by
  induction forest generalizing index parent node with
  | nil => cases h
  | cons kind start text children next ih ih' =>
    have hbeside := forestTokens_parent next (index + 1 + children.size) parent
    rw [forestTokens] at h ⊢
    cases node with
    | zero =>
      cases h
      refine ⟨kind, start, text, children, .here, rfl, [], _, rfl, rfl, fun _ h => absurd h not_mem_nil,
        fun other hother hsame => ?_⟩
      rcases hbeside other hother with hsecond | hsecond <;> omega
    | succ node =>
      rw [getElem?_cons_succ] at h
      by_cases hchild : node < children.size
      · rw [getElem?_append_left (by rwa [forestTokens_length])] at h
        obtain ⟨kind', start', text', children', hnode, htoken, before, after, hlength, haround⟩ := ih (by omega) h
        rw [show index + 1 + node = index + (node + 1) by omega] at haround
        refine ⟨kind', start', text', children', .inside hnode, htoken,
          ⟨.ofKind kind, start, start + text.length, parent, children.roots⟩ :: before,
          after ++ forestTokens next (index + 1 + children.size) parent, ?_, ?_, ?_, ?_⟩
        · rw [length_cons, hlength]
        · rw [haround.tokens]
          simp only [cons_append, append_assoc]
        · refine forall_mem_cons.2 ⟨?_, haround.before⟩
          change parent < _
          omega
        · refine forall_mem_append.2 ⟨haround.after, fun other hother hsame => ?_⟩
          rcases hbeside other hother with hsecond | hsecond <;> omega
      · rw [getElem?_append_right (by rw [forestTokens_length]; omega), forestTokens_length] at h
        obtain ⟨kind', start', text', children', hnode, htoken, before, after, hlength, haround⟩ := ih' (by omega) h
        rw [show index + 1 + children.size + (node - children.size) = index + (node + 1) by omega] at haround
        refine ⟨kind', start', text', children', .later hnode, htoken,
          ⟨.ofKind kind, start, start + text.length, parent, children.roots⟩ ::
            (forestTokens children (index + 1) index ++ before), after, ?_, ?_, ?_, haround.after⟩
        · rw [length_cons, length_append, forestTokens_length, hlength]
          omega
        · rw [haround.tokens, cons_append, append_assoc]
        · refine forall_mem_cons.2 ⟨?_, forall_mem_append.2 ⟨fun other hother => ?_, haround.before⟩⟩
          · change parent < _
            omega
          · have hlt := forestTokens_parent_lt (by omega : (index : Int) < (index + 1 : Nat)) other hother
            omega

/-! ### Children -/

/-- The indices of the tokens that have a token as their parent. -/
def childrenOf (tokens : List JsonToken) (node : Nat) : List Nat := tokens.findIdxs fun token => token.parent == (node : Int)

/-- The indices of the nodes that stand side by side, the first of them at an index. -/
def rootIndices : Forest → Nat → List Nat
  | .nil, _ => []
  | .cons _ _ _ children next, index => index :: rootIndices next (index + 1 + children.size)

theorem rootIndices_length (forest : Forest) (index : Nat) : (rootIndices forest index).length = forest.roots := by
  induction forest generalizing index with
  | nil => rfl
  | cons kind start text children next _ ih => rw [rootIndices, length_cons, ih, Forest.roots]

theorem findIdxs_none (h : ∀ token ∈ tokens, token.parent ≠ (node : Int))
    (first : Nat) : tokens.findIdxs (fun token => token.parent == (node : Int)) first = [] := by
  apply findIdxs_eq_nil_iff.2
  intro token htoken
  exact beq_false_of_ne (h token htoken)

theorem findIdxs_roots (hindex : node < index) :
    (forestTokens forest index node).findIdxs (fun token => token.parent == (node : Int)) index =
      rootIndices forest index := by
  induction forest generalizing index with
  | nil => rfl
  | cons kind start text children next _ ih =>
    have hbelow : ∀ token ∈ forestTokens children (index + 1) index, token.parent ≠ (node : Int) := by
      intro token htoken hsame
      rcases forestTokens_parent _ _ _ token htoken with hother | hother <;> omega
    rw [forestTokens, findIdxs_cons, if_pos (beq_self_eq_true _), findIdxs_append, findIdxs_none hbelow,
      nil_append, forestTokens_length, ih (by omega), rootIndices]

theorem Around.childrenOf {before : List JsonToken}
    (h : Around tokens node children token before after) (hlength : before.length = node)
    (hself : token.parent < (node : Int)) : childrenOf tokens node = rootIndices children (node + 1) := by
  unfold Update.childrenOf
  have hbefore : ∀ other ∈ before, other.parent ≠ (node : Int) := fun other hother => Int.ne_of_lt (h.before other hother)
  rw [h.tokens, findIdxs_append, findIdxs_none hbefore, nil_append, hlength, findIdxs_cons,
    if_neg (by simpa using Int.ne_of_lt hself), findIdxs_append, Nat.zero_add, findIdxs_roots (Nat.lt_succ_self _),
    findIdxs_none h.after, append_nil]

/-! ### Members -/

def textAt (json : Bytes) (tokens : List JsonToken) (index : Nat) : Option Bytes :=
  (tokens[index]?).map (·.text json)

/-- The indices of the keys, each with that of its value. -/
def members : Forest → Nat → List (Nat × Nat)
  | .cons _ _ _ children (.cons _ _ _ children' next), index =>
    (index, index + 1 + children.size) :: members next (index + 1 + children.size + 1 + children'.size)
  | _, _ => []

theorem rootIndices_members (h : Pairs forest) (index : Nat) :
    rootIndices forest index = (members forest index).flatMap fun member => [member.1, member.2] := by
  induction h generalizing index with
  | nil => rfl
  | cons hnext ih => rw [rootIndices, rootIndices, ih, members, flatMap_cons, cons_append, cons_append, nil_append]

theorem findObjectMember_none
    (h : ∀ token ∈ tokens, token.parent ≠ (object : Int)) (index : Nat) (expectKey keyMatches : Bool) :
    findObjectMember json name object stop index expectKey keyMatches tokens = none := by
  induction tokens generalizing index with
  | nil => rfl
  | cons token tokens ih =>
    obtain ⟨htoken, hrest⟩ := forall_mem_cons.1 h
    rw [findObjectMember, if_pos htoken, ih hrest]
    split <;> rfl

theorem findObjectMember_skip {others : List JsonToken}
    (h : ∀ token ∈ others, token.parent ≠ (object : Int)) (hstop : ∀ token ∈ others, token.start < stop)
    (index : Nat) (expectKey keyMatches : Bool) (tokens : List JsonToken) :
    findObjectMember json name object stop index expectKey keyMatches (others ++ tokens) =
      findObjectMember json name object stop (index + others.length) expectKey keyMatches tokens := by
  induction others generalizing index with
  | nil => rfl
  | cons token others ih =>
    obtain ⟨htoken, hrest⟩ := forall_mem_cons.1 h
    obtain ⟨hbelow, hstop⟩ := forall_mem_cons.1 hstop
    rw [cons_append, findObjectMember, if_neg (Nat.not_le.2 hbelow), if_pos htoken, ih hrest hstop, length_cons]
    congr 1
    omega

theorem jsonStringEquals_iff {text : Bytes} (htype : token.type = .string)
    (htext : token.text json = text) (hstop : token.stop = token.start + text.length) :
    jsonStringEquals json token name = true ↔ text = name := by
  unfold jsonStringEquals
  rw [decide_eq_true_iff, htext, hstop, Nat.add_sub_cancel_left]
  exact ⟨fun h => h.2.2, fun h => ⟨htype, congrArg List.length h, h⟩⟩

section

variable {json key text name : Bytes} {tokens after : List JsonToken} {object index start start' : Nat} {kind : Kind}
  {children next : Forest}

theorem forestTokens_pair :
    forestTokens (.cons .string start key .nil (.cons kind start' text children next)) index object =
      ⟨.string, start, start + key.length, object, 0⟩ ::
        ⟨.ofKind kind, start', start' + text.length, object, children.roots⟩ ::
          (forestTokens children (index + 2) (index + 1 : Nat) ++
            forestTokens next (index + 2 + children.size) object) := rfl

theorem members_pair : members (.cons .string start key .nil (.cons kind start' text children next)) index =
    (index, index + 1) :: members next (index + 2 + children.size) := rfl

theorem tokens_pair (hkey : ∃ after, json.drop start = key ++ after)
    (htokens : tokens.drop index =
      forestTokens (.cons .string start key .nil (.cons kind start' text children next)) index object ++ after) :
    (∃ token, tokens[index]? = some token ∧ token.type = .string) ∧ textAt json tokens index = some key ∧
      tokens.drop (index + 2 + children.size) = forestTokens next (index + 2 + children.size) object ++ after := by
  rw [forestTokens_pair] at htokens
  have hfirst : tokens[index]? = some ⟨.string, start, start + key.length, object, 0⟩ := by
    rw [← Nat.add_zero index, ← getElem?_drop, htokens]
    rfl
  refine ⟨⟨_, hfirst, rfl⟩, ?_, ?_⟩
  · rw [textAt, hfirst, map_some, token_text hkey rfl]
  · rw [Nat.add_assoc, ← drop_drop, htokens, ← drop_drop]
    simp only [cons_append, drop_succ_cons, drop_zero, append_assoc]
    rw [drop_left' (forestTokens_length _ _ _), Nat.add_assoc]

/-- The search among the members of an object, which end where the text of the object does. -/
theorem findObjectMember_members {stop : Nat} {forest : Forest} (hpairs : Pairs forest) (hlocated : forest.Located json)
    (hafter : ∀ token ∈ after, token.parent ≠ (object : Int)) (hindex : object < index)
    (hstop : ∀ token ∈ forestTokens forest index object, token.start < stop)
    (htokens : tokens.drop index = forestTokens forest index object ++ after) (keyMatches : Bool) :
    findObjectMember json name object stop index true keyMatches (tokens.drop index) =
      ((members forest index).find? fun member => textAt json tokens member.1 = some name).map Prod.snd := by
  induction hpairs generalizing index keyMatches with
  | nil =>
    rw [htokens, forestTokens, nil_append]
    exact findObjectMember_none hafter _ _ _
  | @cons start start' key text kind children next hnext ih =>
    obtain ⟨hkey, -, -, -, hlocated⟩ := hlocated
    have hbelow : ∀ token ∈ forestTokens children (index + 2) (index + 1 : Nat), token.parent ≠ (object : Int) := by
      intro token htoken hsame
      rcases forestTokens_parent _ _ _ token htoken with hother | hother <;> omega
    obtain ⟨-, hkeyAt, hdrop⟩ := tokens_pair hkey htokens
    obtain ⟨hstopKey, hstop⟩ := forall_mem_cons.1 hstop
    obtain ⟨hstopValue, hstop⟩ := forall_mem_cons.1 hstop
    obtain ⟨hstopBelow, hstopNext⟩ := forall_mem_append.1 hstop
    have hmatch : jsonStringEquals json ⟨.string, start, start + key.length, object, 0⟩ name = decide (key = name) := by
      rw [Bool.eq_iff_iff, decide_eq_true_iff]
      exact jsonStringEquals_iff rfl (token_text hkey rfl) rfl
    rw [htokens, forestTokens_pair, members_pair, cons_append, cons_append, findObjectMember,
      if_neg (Nat.not_le.2 hstopKey), if_neg (not_not.2 rfl), if_pos rfl, if_neg (not_not.2 rfl), hmatch,
      findObjectMember, if_neg (Nat.not_le.2 hstopValue), if_neg (not_not.2 rfl), if_neg Bool.false_ne_true]
    by_cases hname : key = name
    · rw [if_pos (decide_eq_true hname), find?_cons_of_pos (by simpa [hkeyAt] using hname)]
      rfl
    · rw [if_neg (by simpa using hname), find?_cons_of_neg (by simpa [hkeyAt] using hname), append_assoc,
        findObjectMember_skip hbelow hstopBelow, forestTokens_length, ← hdrop]
      exact ih hlocated (by omega) hstopNext hdrop _

variable {forest : Forest}

theorem members_text (hpairs : Pairs forest) (hlocated : forest.Located json)
    (htokens : tokens.drop index = forestTokens forest index object ++ after) :
    (members forest index).map (fun member => textAt json tokens member.1) = forest.keys.map some := by
  induction hpairs generalizing index with
  | nil => rfl
  | cons hnext ih =>
    obtain ⟨hkey, -, -, -, hlocated⟩ := hlocated
    obtain ⟨-, hkeyAt, hdrop⟩ := tokens_pair hkey htokens
    rw [members_pair, map_cons, hkeyAt, ih hlocated hdrop, Forest.keys, map_cons]

theorem members_keys (hpairs : Pairs forest) (hlocated : forest.Located json)
    (htokens : tokens.drop index = forestTokens forest index object ++ after) :
    ∀ member ∈ members forest index, ∃ token, tokens[member.1]? = some token ∧ token.type = .string := by
  induction hpairs generalizing index with
  | nil => exact fun member hmember => absurd hmember not_mem_nil
  | cons hnext ih =>
    obtain ⟨hkey, -, -, -, hlocated⟩ := hlocated
    obtain ⟨hfirst, -, hdrop⟩ := tokens_pair hkey htokens
    exact forall_mem_cons.2 ⟨hfirst, ih hlocated hdrop⟩

end

/-- In a list without repetitions the first entry that fits is the only one. -/
theorem find_iff_mem {α β : Type} [DecidableEq β] {f : α → β} {entries : List α} {a : α} {b : β}
    (hdistinct : entries.Pairwise fun a b => f a ≠ f b) :
    (entries.find? fun a => f a = b) = some a ↔ a ∈ entries ∧ f a = b := by
  induction entries with
  | nil => exact iff_of_false nofun fun h => absurd h.1 not_mem_nil
  | cons first entries ih =>
    obtain ⟨hfirst, hdistinct⟩ := pairwise_cons.1 hdistinct
    by_cases hfits : f first = b
    · rw [find?_cons_of_pos (by simpa using hfits), some_inj, mem_cons]
      constructor
      · rintro rfl
        exact ⟨.inl rfl, hfits⟩
      · rintro ⟨rfl | hmem, hsame⟩
        · rfl
        · exact absurd (hfits.trans hsame.symm) (hfirst a hmem)
    · rw [find?_cons_of_neg (by simpa using hfits), ih hdistinct, mem_cons]
      refine and_congr_left fun hsame => (or_iff_right ?_).symm
      rintro rfl
      exact hfits hsame

/-- The members of an object: their keys and values are its children in turn, no key is there twice, and each key leads to
its value. -/
structure Members (json : Bytes) (tokens : List JsonToken) (object : Nat) (members : List (Nat × Nat)) : Prop where
  alternate : childrenOf tokens object = members.flatMap fun member => [member.1, member.2]
  keys : ∀ member ∈ members, ∃ key, tokens[member.1]? = some key ∧ key.type = .string
  distinct : members.Pairwise fun a b => textAt json tokens a.1 ≠ textAt json tokens b.1
  found : ∀ name value, jsonFindObjectMember json tokens object name = some value ↔
    ∃ key, (key, value) ∈ members ∧ textAt json tokens key = some name
  absent : ∀ name, jsonFindObjectMember json tokens object name = none ↔
    ∀ member ∈ members, textAt json tokens member.1 ≠ some name

/-- A table of tokens that says what a document holds: the tokens are the nodes in preorder. -/
structure TokenTree (json : Bytes) (tokens : List JsonToken) : Prop where
  preorder : ∃ forest, Document ShortEscape VisibleCharacter json forest ∧ tokens = forestTokens forest 0 (-1)
  before : ∀ (node : Nat) (token : JsonToken), tokens[node]? = some token → token.parent < (node : Int)
  nested : ∀ (node : Nat) (outer : JsonToken), tokens[node]? = some outer → ∀ token ∈ tokens, token.parent = (node : Int) →
    outer.start < token.start ∧ token.start ≤ token.stop ∧ token.stop < outer.stop
  ordered : tokens.Pairwise fun a b => a.parent = b.parent → a.stop ≤ b.start
  counted : ∀ (node : Nat) (token : JsonToken), tokens[node]? = some token →
    token.childCount = (childrenOf tokens node).length
  objects : ∀ (node : Nat) (token : JsonToken), tokens[node]? = some token → token.type = .object →
    ∃ pairs, Members json tokens node pairs

theorem jsonFindObjectMember_of_token (htoken : tokens[object]? = some token) :
    jsonFindObjectMember json tokens object name = if token.type ≠ .object then none
      else findObjectMember json name object token.stop (object + 1) true false (tokens.drop (object + 1)) := by
  unfold jsonFindObjectMember
  dsimp only
  rw [htoken]

theorem members_of_pairs
    (htoken : tokens[object]? = some token) (htype : token.type = .object) (hpairs : Pairs children)
    (hkeys : children.keys.Nodup) (hlocated : children.Located json)
    (hchildren : childrenOf tokens object = rootIndices children (object + 1))
    (hafter : ∀ token ∈ after, token.parent ≠ (object : Int))
    (hstop : ∀ other ∈ forestTokens children (object + 1) object, other.start < token.stop)
    (htokens : tokens.drop (object + 1) = forestTokens children (object + 1) object ++ after) :
    Members json tokens object (members children (object + 1)) := by
  have hdistinct : (members children (object + 1)).Pairwise fun a b => textAt json tokens a.1 ≠ textAt json tokens b.1 := by
    have hnodup : ((members children (object + 1)).map fun member => textAt json tokens member.1).Nodup := by
      rw [members_text hpairs hlocated htokens]
      exact pairwise_map.2 (hkeys.imp fun hne hsame => hne (some.inj hsame))
    exact pairwise_map.1 hnodup
  have hfind (name : Bytes) : jsonFindObjectMember json tokens object name =
      ((members children (object + 1)).find? fun member => textAt json tokens member.1 = some name).map Prod.snd := by
    have hsearch := @findObjectMember_members json name tokens after object (object + 1) token.stop children
      hpairs hlocated hafter (Nat.lt_succ_self _) hstop htokens false
    rw [jsonFindObjectMember_of_token htoken, if_neg (not_not.2 htype), hsearch]
  constructor
  · rw [hchildren, rootIndices_members hpairs]
  · exact members_keys hpairs hlocated htokens
  · exact hdistinct
  · intro name value
    rw [hfind, map_eq_some_iff]
    constructor
    · rintro ⟨member, hfound, rfl⟩
      obtain ⟨hmem, htext⟩ := (find_iff_mem hdistinct).1 hfound
      exact ⟨member.1, hmem, htext⟩
    · rintro ⟨key, hmem, htext⟩
      exact ⟨(key, value), (find_iff_mem hdistinct).2 ⟨hmem, htext⟩, rfl⟩
  · intro name
    rw [hfind, map_eq_none_iff, find?_eq_none]
    simp only [decide_eq_true_eq, ne_eq]

/-- The tokens of an accepted document are a tree, and the search for a key finds its value. -/
theorem parseJson_tokenTree {json : Bytes} {tokenCapacity maxDepth : Nat}
    (h : (parseJson json tokenCapacity maxDepth).error = .ok) :
    TokenTree json (parseJson json tokenCapacity maxDepth).tokens := by
  obtain ⟨-, forest, hdocument, -, -, htokens⟩ := parseJson_sound h
  rw [htokens]
  have hroot : (-1 : Int) < (0 : Nat) := by decide
  have hlocated := hdocument.located
  obtain ⟨hbefore, hvalue, hspace⟩ := id hdocument
  have hobjects := text_objects hvalue
  have hwithin := hvalue.within
  have hself : ∀ (node : Nat) (token : JsonToken), (forestTokens forest 0 (-1))[node]? = some token →
      token.parent < (node : Int) := by
    intro node token htoken
    have hlt := forestTokens_before hroot htoken
    rwa [Nat.zero_add] at hlt
  constructor
  · exact ⟨forest, hdocument, rfl⟩
  · exact hself
  · intro node outer houter token htoken hparent
    obtain ⟨kind, start, text, children, hnode, hkind, before, after, hlength, haround⟩ := forestTokens_around hroot houter
    rw [Nat.zero_add] at haround
    rw [haround.tokens] at htoken
    rcases mem_append.1 htoken with htoken | htoken
    · exact absurd hparent (Int.ne_of_lt (haround.before token htoken))
    rcases mem_cons.1 htoken with rfl | htoken
    · exact absurd hparent (Int.ne_of_lt (hself node token houter))
    rcases mem_append.1 htoken with htoken | htoken
    · obtain ⟨hlow, hsome, hhigh⟩ := forestTokens_within (hnode.within hwithin) _ _ token htoken
      rw [hkind]
      change start < token.start ∧ _ ∧ token.stop < start + text.length
      omega
    · exact absurd hparent (haround.after token htoken)
  · exact forestTokens_ordered hwithin hroot
  · intro node token htoken
    obtain ⟨kind, start, text, children, hnode, hkind, before, after, hlength, haround⟩ := forestTokens_around hroot htoken
    rw [Nat.zero_add] at haround
    rw [haround.childrenOf hlength (hself node token htoken), rootIndices_length, hkind]
  · intro node token htoken htype
    obtain ⟨kind, start, text, children, hnode, hkind, before, after, hlength, haround⟩ := forestTokens_around hroot htoken
    rw [Nat.zero_add] at haround
    have hobject : kind = .object := by
      rw [hkind] at htype
      cases kind <;> first | rfl | cases htype
    obtain ⟨hpairs, hkeys⟩ := hnode.objects hobjects hobject
    refine ⟨members children (node + 1), members_of_pairs htoken htype hpairs hkeys (hnode.located hlocated)
      (haround.childrenOf hlength (hself node token htoken)) haround.after ?_ ?_⟩
    · intro other hother
      obtain ⟨hlow, hsome, hhigh⟩ := forestTokens_within (hnode.within hwithin) _ _ other hother
      rw [hkind]
      change other.start < start + text.length
      omega
    · rw [haround.tokens, ← drop_drop, drop_left' hlength]
      rfl

theorem parseJson_tokenTree_pair :
    TokenTree (ascii "\x7b\"a\":[1]\x7d") (parseJson (ascii "\x7b\"a\":[1]\x7d") 8 8).tokens :=
  parseJson_tokenTree (by decide +kernel)

end Bmx.Update
