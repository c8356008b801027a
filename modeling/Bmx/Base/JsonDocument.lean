import Bmx.Base.JsonGrammar

/-!
# JSON documents

The rules of RFC 8259 for values, over the places where they stand. What a text holds is a forest of
nodes, in which the members of an object are keys and values in turn.
-/

namespace Bmx.Json

open List

inductive Kind
  | object | array | string | number | true | false | null
  deriving DecidableEq, Repr

/-- Nodes side by side, each with the text it stands for and its children. -/
inductive Forest
  | nil
  | cons (kind : Kind) (start : Nat) (text : Bytes) (children next : Forest)

namespace Forest

def leaf (kind : Kind) (start : Nat) (text : Bytes) : Forest := .cons kind start text .nil .nil

def append : Forest → Forest → Forest
  | .nil, other => other
  | .cons kind start text children next, other => .cons kind start text children (next.append other)

instance : Append Forest := ⟨append⟩

/-- How many nodes stand side by side. -/
def roots : Forest → Nat
  | .nil => 0
  | .cons _ _ _ _ next => next.roots + 1

def size : Forest → Nat
  | .nil => 0
  | .cons _ _ _ children next => children.size + 1 + next.size

/-- How deep the nodes are nested. -/
def height : Forest → Nat
  | .nil => 0
  | .cons _ _ _ children next => max (children.height + 1) next.height

/-- The texts of the keys, where keys and values stand in turn. -/
def keys : Forest → List Bytes
  | .cons _ _ key _ (.cons _ _ _ _ next) => key :: next.keys
  | _ => []

/-- Every node stands for the text at its place in the whole text. -/
def Located (whole : Bytes) : Forest → Prop
  | .nil => True
  | .cons _ start text children next =>
    (∃ after, whole.drop start = text ++ after) ∧ children.Located whole ∧ next.Located whole

/-- Every node stands between two places, after the nodes before it and within the brackets of the one it belongs to. -/
def Within : Nat → Nat → Forest → Prop
  | _, _, .nil => True
  | low, high, .cons _ start text children next =>
    low ≤ start ∧ start + text.length ≤ high ∧ children.Within (start + 1) (start + text.length - 1) ∧
      next.Within (start + text.length) high

/-- All nodes are of a sort. -/
def All (p : Kind → Bytes → Prop) : Forest → Prop
  | .nil => True
  | .cons kind _ text children next => p kind text ∧ children.All p ∧ next.All p

variable {first second : Forest} {low high : Nat}

@[simp] theorem nil_append (forest : Forest) : Forest.nil ++ forest = forest := rfl

@[simp] theorem cons_append (kind : Kind) (start : Nat) (text : Bytes) (children next forest : Forest) :
    Forest.cons kind start text children next ++ forest =
      .cons kind start text children (next ++ forest) := rfl

@[simp] theorem roots_append (first second : Forest) : (first ++ second).roots = first.roots + second.roots := by
  induction first with
  | nil => rw [nil_append, roots, Nat.zero_add]
  | cons kind start text children next _ ih =>
    rw [cons_append, roots, roots, ih]
    omega

@[simp] theorem size_append (first second : Forest) : (first ++ second).size = first.size + second.size := by
  induction first with
  | nil => rw [nil_append, size, Nat.zero_add]
  | cons kind start text children next _ ih =>
    rw [cons_append, size, size, ih]
    omega

@[simp] theorem height_append (first second : Forest) :
    (first ++ second).height = max first.height second.height := by
  induction first with
  | nil => rw [nil_append, height, Nat.zero_max]
  | cons kind start text children next _ ih => rw [cons_append, height, height, ih, Nat.max_assoc]

theorem Located.append {whole : Bytes} (h : first.Located whole)
    (h' : second.Located whole) : (first ++ second).Located whole := by
  induction first with
  | nil => exact h'
  | cons kind start text children next _ ih => exact ⟨h.1, h.2.1, ih h.2.2⟩

theorem Within.mono {low' high' : Nat} {forest : Forest} (h : forest.Within low high) (hlow : low' ≤ low)
    (hhigh : high ≤ high') : forest.Within low' high' := by
  induction forest generalizing low low' with
  | nil => trivial
  | cons kind start text children next _ ih =>
    obtain ⟨hstart, hstop, hchildren, hnext⟩ := h
    exact ⟨by omega, by omega, hchildren, ih hnext (Nat.le_refl _)⟩

theorem Within.append {middle : Nat} (h : first.Within low middle)
    (h' : second.Within middle high) (hlow : low ≤ middle) (hhigh : middle ≤ high) :
    (first ++ second).Within low high := by
  induction first generalizing low with
  | nil => exact h'.mono hlow (Nat.le_refl _)
  | cons kind start text children next _ ih =>
    obtain ⟨hstart, hstop, hchildren, hnext⟩ := h
    exact ⟨hstart, by omega, hchildren, ih hnext hstop⟩

theorem All.append {p : Kind → Bytes → Prop} (h : first.All p) (h' : second.All p) : (first ++ second).All p := by
  induction first with
  | nil => exact h'
  | cons kind start text children next _ ih => exact ⟨h.1, h.2.1, ih h.2.2⟩

end Forest

/-! ### Values -/

inductive Literal : Kind → Bytes → Prop
  | true : Literal .true (ascii "true")
  | false : Literal .false (ascii "false")
  | null : Literal .null (ascii "null")

inductive Item
  | value | member

inductive Brackets : Kind → UInt8 → UInt8 → Item → Prop
  | object : Brackets .object 123 125 .member
  | array : Brackets .array 91 93 .value

inductive Shape
  | one (item : Item)
  | list (item : Item)

/-- What stands at a place, with the whitespace after it if it is a list. The characters of keys and
those that a backslash by itself may escape are parameters. -/
inductive Text (single key : UInt8 → Prop) : Shape → Nat → Bytes → Forest → Prop
  | literal {start : Nat} {kind : Kind} {word : Bytes} (hword : Literal kind word) :
      Text single key (.one .value) start word (.leaf kind start word)
  | number {start : Nat} {text : Bytes} (hnumber : Number text) :
      Text single key (.one .value) start text (.leaf .number start text)
  | string {start : Nat} {text : Bytes} (hcharacters : Characters single text) :
      Text single key (.one .value) start (34 :: (text ++ [34])) (.leaf .string (start + 1) text)
  | empty {start : Nat} {kind : Kind} {opening closing : UInt8} {item : Item} {space : Bytes}
      (hbrackets : Brackets kind opening closing item) (hspace : Spaces space) :
      Text single key (.one .value) start (opening :: (space ++ [closing]))
        (.leaf kind start (opening :: (space ++ [closing])))
  | filled {start : Nat} {kind : Kind} {opening closing : UInt8} {item : Item} {space items : Bytes}
      {children : Forest} (hbrackets : Brackets kind opening closing item) (hspace : Spaces space)
      (hitems : Text single key (.list item) (start + 1 + space.length) items children)
      (hkeys : item = .member → children.keys.Nodup) :
      Text single key (.one .value) start (opening :: (space ++ (items ++ [closing])))
        (.cons kind start (opening :: (space ++ (items ++ [closing]))) children .nil)
  | member {start : Nat} {name before after text : Bytes} {value : Forest}
      (hname : ∀ c ∈ name, key c) (hbefore : Spaces before) (hafter : Spaces after)
      (hvalue : Text single key (.one .value) (start + 1 + name.length + 1 + before.length + 1 + after.length)
        text value) :
      Text single key (.one .member) start (34 :: (name ++ 34 :: (before ++ 58 :: (after ++ text))))
        (.cons .string (start + 1) name .nil value)
  | last {item : Item} {start : Nat} {text space : Bytes} {node : Forest}
      (hitem : Text single key (.one item) start text node) (hspace : Spaces space) :
      Text single key (.list item) start (text ++ space) node
  | more {item : Item} {start : Nat} {text before after items : Bytes} {node forest : Forest}
      (hitem : Text single key (.one item) start text node) (hbefore : Spaces before)
      (hafter : Spaces after)
      (hitems : Text single key (.list item)
        (start + text.length + before.length + 1 + after.length) items forest) :
      Text single key (.list item) start (text ++ (before ++ 44 :: (after ++ items))) (node ++ forest)

/-- One value, with nothing but whitespace around it. -/
inductive Document (single key : UInt8 → Prop) : Bytes → Forest → Prop
  | mk {before text after : Bytes} {forest : Forest} (hbefore : Spaces before)
      (hvalue : Text single key (.one .value) before.length text forest) (hafter : Spaces after) :
      Document single key (before ++ (text ++ after)) forest

/-! ### Places -/

variable {whole text : Bytes} {start : Nat} {single key : UInt8 → Prop} {shape : Shape} {forest : Forest}

theorem drop_of_append (first second : Bytes)
    (h : whole.drop start = first ++ second) : whole.drop (start + first.length) = second := by
  rw [← drop_drop, h, drop_left]

theorem Text.located {after : Bytes} (h : Text single key shape start text forest)
    (hwhole : whole.drop start = text ++ after) : forest.Located whole := by
  induction h generalizing after with
  | literal hword | number hnumber | empty hbrackets hspace => exact ⟨⟨after, hwhole⟩, trivial, trivial⟩
  | @string start text hcharacters =>
    have hinner := drop_of_append [34] (text ++ ([34] ++ after)) (by rw [hwhole]; simp)
    exact ⟨⟨_, hinner⟩, trivial, trivial⟩
  | @filled start kind opening closing item space items children hbrackets hspace hitems hkeys ih =>
    have hinner := drop_of_append (opening :: space) (items ++ (closing :: after)) (by rw [hwhole]; simp)
    have hplace : start + (opening :: space).length = start + 1 + space.length := by
      rw [length_cons]
      omega
    rw [hplace] at hinner
    exact ⟨⟨after, hwhole⟩, ih hinner, trivial⟩
  | @member start name before afterColon text value hname hbefore hafter hvalue ih =>
    have hinner := drop_of_append [34]
      (name ++ (34 :: (before ++ 58 :: (afterColon ++ text)) ++ after)) (by rw [hwhole]; simp)
    have hlast := drop_of_append (34 :: (name ++ 34 :: (before ++ 58 :: afterColon))) (text ++ after)
      (by rw [hwhole]; simp)
    have hplace : start + (34 :: (name ++ 34 :: (before ++ 58 :: afterColon))).length =
        start + 1 + name.length + 1 + before.length + 1 + afterColon.length := by
      simp only [length_cons, length_append]
      omega
    rw [hplace] at hlast
    exact ⟨⟨_, hinner⟩, trivial, ih hlast⟩
  | @last item start text space node hitem hspace ih =>
    exact ih (by rw [hwhole, append_assoc])
  | @more item start text before afterComma items node forest hitem hbefore hafter hitems ih ih' =>
    have hfirst : whole.drop start = text ++ (before ++ 44 :: (afterComma ++ items) ++ after) := by
      rw [hwhole]
      simp
    have hlast := drop_of_append (text ++ (before ++ 44 :: afterComma)) (items ++ after)
      (by rw [hwhole]; simp)
    have hplace : start + (text ++ (before ++ 44 :: afterComma)).length =
        start + text.length + before.length + 1 + afterComma.length := by
      simp only [length_cons, length_append]
      omega
    rw [hplace] at hlast
    exact (ih hfirst).append (ih' hlast)

theorem Text.within (h : Text single key shape start text forest) : forest.Within start (start + text.length) := by
  induction h with
  | literal hword | number hnumber | empty hbrackets hspace => exact ⟨Nat.le_refl _, Nat.le_refl _, trivial, trivial⟩
  | string hcharacters =>
    refine ⟨Nat.le_succ _, ?_, trivial, trivial⟩
    simp only [length_cons, length_append, length_nil]
    omega
  | filled hbrackets hspace hitems hkeys ih =>
    refine ⟨Nat.le_refl _, Nat.le_refl _, ih.mono (by omega) ?_, trivial⟩
    simp only [length_cons, length_append, length_nil]
    omega
  | member hname hbefore hafter hvalue ih =>
    simp only [length_cons, length_append]
    exact ⟨Nat.le_succ _, by omega, trivial, ih.mono (by omega) (by omega)⟩
  | last hitem hspace ih =>
    refine ih.mono (Nat.le_refl _) ?_
    rw [length_append]
    omega
  | more hitem hbefore hafter hitems ih ih' =>
    simp only [length_cons, length_append]
    exact ih.append (ih'.mono (by omega) (by omega)) (by omega) (by omega)

/-! ### What may be escaped, and the bytes of a text -/

theorem Text.of_mem {single' key' : UInt8 → Prop} (h : Text single key shape start text forest)
    (hsingle : ∀ c ∈ text, single c → single' c) (hkey : ∀ c, key c → key' c) :
    Text single' key' shape start text forest := by
  induction h with
  | literal hword => exact .literal hword
  | number hnumber => exact .number hnumber
  | string hcharacters =>
    refine .string (hcharacters.of_mem fun c hc => hsingle c ?_)
    exact mem_cons_of_mem _ (mem_append_left _ hc)
  | empty hbrackets hspace => exact .empty hbrackets hspace
  | filled hbrackets hspace hitems hkeys ih =>
    refine .filled hbrackets hspace (ih fun c hc => hsingle c ?_) hkeys
    simp [hc]
  | member hname hbefore hafter hvalue ih =>
    refine .member (fun c hc => hkey c (hname c hc)) hbefore hafter (ih fun c hc => hsingle c ?_)
    simp [hc]
  | last hitem hspace ih => exact .last (ih fun c hc => hsingle c (by simp [hc])) hspace
  | more hitem hbefore hafter hitems ih ih' =>
    refine .more (ih fun c hc => hsingle c ?_) hbefore hafter (ih' fun c hc => hsingle c ?_)
    · simp [hc]
    · simp [hc]

theorem literal_printable {kind : Kind} {word : Bytes} (h : Literal kind word) : ∀ c ∈ word, 0x20 ≤ c := by
  have hall : word.all (fun c => 0x20 ≤ c) = true := by cases h <;> decide
  exact fun c hc => of_decide_eq_true (all_eq_true.1 hall c hc)

/-- The bytes that a text may hold. -/
def Admitted (single key : UInt8 → Prop) (c : UInt8) : Prop :=
  0x20 ≤ c ∨ isWhitespace c = true ∨ single c ∨ key c

theorem Text.mem (h : Text single key shape start text forest) : ∀ c ∈ text, Admitted single key c := by
  have hspaces : ∀ {space : Bytes}, Spaces space → ∀ c ∈ space, Admitted single key c :=
    fun hspace c hc => .inr (.inl (hspace c hc))
  have hbracket : ∀ {kind opening closing item}, Brackets kind opening closing item →
      Admitted single key opening ∧ Admitted single key closing := by
    intro kind opening closing item hbrackets
    cases hbrackets <;> exact ⟨.inl (by decide), .inl (by decide)⟩
  induction h with
  | literal hword => exact fun c hc => .inl (literal_printable hword c hc)
  | number hnumber => exact fun c hc => .inl (hnumber.printable c hc)
  | string hcharacters =>
    refine forall_mem_cons.2 ⟨.inl (by decide), forall_mem_append.2
      ⟨fun c hc => ?_, forall_mem_singleton.2 (.inl (by decide))⟩⟩
    exact (hcharacters.mem c hc).imp_right fun hsingle => .inr (.inl hsingle)
  | empty hbrackets hspace =>
    exact forall_mem_cons.2 ⟨(hbracket hbrackets).1, forall_mem_append.2
      ⟨hspaces hspace, forall_mem_singleton.2 (hbracket hbrackets).2⟩⟩
  | filled hbrackets hspace hitems hkeys ih =>
    exact forall_mem_cons.2 ⟨(hbracket hbrackets).1, forall_mem_append.2
      ⟨hspaces hspace, forall_mem_append.2 ⟨ih, forall_mem_singleton.2 (hbracket hbrackets).2⟩⟩⟩
  | member hname hbefore hafter hvalue ih =>
    refine forall_mem_cons.2 ⟨.inl (by decide), forall_mem_append.2
      ⟨fun c hc => .inr (.inr (.inr (hname c hc))), forall_mem_cons.2 ⟨.inl (by decide), ?_⟩⟩⟩
    exact forall_mem_append.2 ⟨hspaces hbefore, forall_mem_cons.2
      ⟨.inl (by decide), forall_mem_append.2 ⟨hspaces hafter, ih⟩⟩⟩
  | last hitem hspace ih => exact forall_mem_append.2 ⟨ih, hspaces hspace⟩
  | more hitem hbefore hafter hitems ih ih' =>
    exact forall_mem_append.2 ⟨ih, forall_mem_append.2 ⟨hspaces hbefore,
      forall_mem_cons.2 ⟨.inl (by decide), forall_mem_append.2 ⟨hspaces hafter, ih'⟩⟩⟩⟩

namespace Document

variable {single key : UInt8 → Prop} {json : Bytes} {forest : Forest}

theorem located (h : Document single key json forest) : forest.Located json := by
  cases h with
  | mk hbefore hvalue hafter => exact hvalue.located drop_left

theorem of_mem {single' key' : UInt8 → Prop} (h : Document single key json forest)
    (hsingle : ∀ c ∈ json, single c → single' c) (hkey : ∀ c, key c → key' c) :
    Document single' key' json forest := by
  cases h with
  | mk hbefore hvalue hafter =>
    exact .mk hbefore (hvalue.of_mem (fun c hc => hsingle c (by simp [hc])) hkey) hafter

theorem mem (h : Document single key json forest) : ∀ c ∈ json, Admitted single key c := by
  cases h with
  | mk hbefore hvalue hafter =>
    exact forall_mem_append.2 ⟨fun c hc => .inr (.inl (hbefore c hc)),
      forall_mem_append.2 ⟨hvalue.mem, fun c hc => .inr (.inl (hafter c hc))⟩⟩

end Document

end Bmx.Json
