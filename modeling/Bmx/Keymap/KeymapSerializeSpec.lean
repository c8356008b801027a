import Mathlib.Data.List.Perm.Basic
import Bmx.Keymap.KeymapBlockSpec
import Bmx.Keymap.KeymapEditorSpec
import Bmx.Keymap.KeymapSerialize

/-!
# The block means the model

The block has every binding once, the bindings of a key with the unspecific ones first, and what it has can be read back:
the tokens of the keys, and the targets.
-/

namespace Bmx.Keymap

open List

/-! ### The order of the bindings -/

def pending (entries : Entries) : List EditorBinding := (entries.filter fun entry => !entry.2).map Prod.fst

def isKey (keycode : Int) (binding : EditorBinding) : Bool := binding.keycode = keycode

theorem pending_append (front back : Entries) : pending (front ++ back) = pending front ++ pending back := by
  simp [pending]

@[simp] theorem pending_emitted (binding : EditorBinding) (entries : Entries) :
    pending ((binding, true) :: entries) = pending entries := rfl

@[simp] theorem pending_left (binding : EditorBinding) (entries : Entries) :
    pending ((binding, false) :: entries) = binding :: pending entries := rfl

@[simp] theorem pending_nil : pending [] = [] := rfl

/-- The best binding of a key in a list of entries. -/
def Best (keycode : Int) (entries : Entries) : Option (Nat × EditorBinding) → Prop
  | none => ∀ binding ∈ pending entries, binding.keycode ≠ keycode
  | some (best, binding) => ∃ front back, entries = front ++ (binding, false) :: back ∧ front.length = best ∧
      binding.keycode = keycode ∧
      ∀ other ∈ pending entries, other.keycode = keycode → sourceSpecificity binding ≤ sourceSpecificity other

variable {keycode : Int} {entries : Entries} {order : List EditorBinding} {α : Type} {lines : List Bytes}
  {line : Bytes} {model : EditorModel}

/-- An entry that is not taken for the best leaves the best as it is. -/
theorem Best.snoc {best : Option (Nat × EditorBinding)} (h : Best keycode entries best) (entry : EditorBinding × Bool)
    (hentry : entry.2 = true ∨ entry.1.keycode ≠ keycode ∨
      ∃ other ∈ best, sourceSpecificity other.2 ≤ sourceSpecificity entry.1) : Best keycode (entries ++ [entry]) best := by
  obtain ⟨binding, emitted⟩ := entry
  have hpending : ∀ other ∈ pending (entries ++ [(binding, emitted)]), other ∈ pending entries ∨
      (other = binding ∧ emitted = false) := by
    intro other hother
    rw [pending_append] at hother
    rcases mem_append.1 hother with hother | hother
    · exact Or.inl hother
    · cases emitted with
      | true => simp at hother
      | false => exact Or.inr ⟨by simpa using hother, rfl⟩
  cases best with
  | none =>
    intro other hother
    rcases hpending other hother with hother | ⟨rfl, rfl⟩
    · exact h other hother
    · rcases hentry with hentry | hentry | ⟨best, hbest, -⟩
      · cases hentry
      · exact hentry
      · cases hbest
  | some best =>
    obtain ⟨front, back, hentries, hfront, hkey, hleast⟩ := h
    refine ⟨front, back ++ [(binding, emitted)], by rw [hentries]; simp, hfront, hkey, fun other hother hsame => ?_⟩
    rcases hpending other hother with hother | ⟨rfl, rfl⟩
    · exact hleast other hother hsame
    · rcases hentry with hentry | hentry | ⟨other', hother', hle⟩
      · cases hentry
      · exact absurd hsame hentry
      · cases hother'
        exact hle

theorem bestEntry_best {keycode : Int} {done : Entries} {best : Option (Nat × EditorBinding)} (rest : Entries)
    (h : Best keycode done best) : Best keycode (done ++ rest) (bestEntry keycode done.length best rest) := by
  induction rest generalizing done best with
  | nil =>
    rw [append_nil]
    exact h
  | cons entry rest ih =>
    obtain ⟨binding, emitted⟩ := entry
    have hlength : done.length + 1 = (done ++ [(binding, emitted)]).length := by simp
    have hdone : done ++ (binding, emitted) :: rest = (done ++ [(binding, emitted)]) ++ rest := by simp
    unfold bestEntry
    rw [hdone, hlength]
    split
    · rename_i hskip
      exact ih (h.snoc _ (hskip.imp_right Or.inl))
    · rename_i hskip
      rw [not_or, Bool.not_eq_true, not_not] at hskip
      obtain ⟨rfl, hkey⟩ := hskip
      split
      · rename_i hless
        apply ih
        refine ⟨done, [], rfl, rfl, hkey, fun other hother hsame => ?_⟩
        rw [pending_append] at hother
        rcases mem_append.1 hother with hother | hother
        · cases best with
          | none => exact absurd hsame (h other hother)
          | some best =>
            obtain ⟨-, -, -, -, -, hleast⟩ := h
            exact Nat.le_trans (Nat.le_of_lt (of_decide_eq_true hless)) (hleast other hother hsame)
        · exact Nat.le_of_eq (congrArg sourceSpecificity (mem_singleton.1 hother).symm)
      · rename_i hless
        apply ih
        cases best with
        | none => exact absurd rfl hless
        | some best =>
          exact h.snoc _ (Or.inr (Or.inr ⟨best, rfl, Nat.le_of_not_lt fun hlt => hless (decide_eq_true hlt)⟩))

/-- The entries with all bindings of a key emitted. -/
def marked (keycode : Int) (entries : Entries) : Entries :=
  entries.map fun entry => (entry.1, entry.2 || isKey keycode entry.1)

theorem pending_marked (keycode : Int) (entries : Entries) :
    pending (marked keycode entries) = (pending entries).filter fun binding => !isKey keycode binding := by
  induction entries with
  | nil => rfl
  | cons entry entries ih =>
    obtain ⟨binding, emitted⟩ := entry
    cases emitted with
    | true => exact ih
    | false =>
      have hmarked : marked keycode ((binding, false) :: entries) =
          (binding, isKey keycode binding) :: marked keycode entries := rfl
      rw [hmarked, pending_left, filter_cons]
      cases isKey keycode binding with
      | true => exact ih
      | false => rw [pending_left, ih]; rfl

theorem marked_of_none (h : ∀ binding ∈ pending entries, binding.keycode ≠ keycode) :
    marked keycode entries = entries := by
  induction entries with
  | nil => rfl
  | cons entry entries ih =>
    obtain ⟨binding, emitted⟩ := entry
    have hrest : ∀ other ∈ pending entries, other.keycode ≠ keycode := by
      intro other hother
      cases emitted with
      | true => exact h other hother
      | false => exact h other (mem_cons_of_mem _ hother)
    have hcons : marked keycode ((binding, emitted) :: entries) =
        (binding, emitted || isKey keycode binding) :: marked keycode entries := rfl
    rw [hcons, ih hrest]
    cases emitted with
    | true => rfl
    | false =>
      have hkey : isKey keycode binding = false := decide_eq_false (h binding mem_cons_self)
      rw [hkey]
      rfl

/-- The bindings of a key as they are written, in an order. -/
def chained : List EditorBinding → List EditorBinding
  | [] => []
  | binding :: rest => withAllowOther (!rest.isEmpty) binding :: chained rest

theorem hasLater_eq (keycode : Int) (entries : Entries) :
    hasLater keycode entries = !((pending entries).filter (isKey keycode)).isEmpty := by
  induction entries with
  | nil => rfl
  | cons entry entries ih =>
    obtain ⟨binding, emitted⟩ := entry
    have hcons : hasLater keycode ((binding, emitted) :: entries) =
        ((!emitted && isKey keycode binding) || hasLater keycode entries) := rfl
    rw [hcons, ih]
    cases emitted with
    | true => rfl
    | false =>
      rw [pending_left, filter_cons]
      cases isKey keycode binding <;> rfl

/-- Less specific bindings come first. -/
abbrev BySpecificity (bindings : List EditorBinding) : Prop :=
  bindings.Pairwise fun a b => sourceSpecificity a ≤ sourceSpecificity b

/-- What the inner loop does to entries: it marks the bindings of its key and has them in an order. -/
def Emits (keycode : Int) (entries : Entries) (result : List EditorBinding × Entries) : Prop :=
  result.2 = marked keycode entries ∧
    ∃ order, order.Perm ((pending entries).filter (isKey keycode)) ∧ BySpecificity order ∧ result.1 = chained order

theorem emits_none (h : ∀ binding ∈ pending entries, binding.keycode ≠ keycode) :
    Emits keycode entries ([], entries) := by
  have hempty : (pending entries).filter (isKey keycode) = [] :=
    filter_eq_nil_iff.2 fun binding hbinding => by simpa [isKey] using h binding hbinding
  refine ⟨(marked_of_none h).symm, [], ?_, List.Pairwise.nil, rfl⟩
  rw [hempty]

/-- The inner loop emits the bindings of its key, the less specific ones first. -/
theorem emitKeycode_emits {keycode : Int} {rounds : Nat} {entries : Entries}
    (hrounds : ((pending entries).filter (isKey keycode)).length ≤ rounds) :
    Emits keycode entries (emitKeycode keycode rounds entries) := by
  induction rounds generalizing entries with
  | zero =>
    apply emits_none
    intro binding hbinding hsame
    have hmem : binding ∈ (pending entries).filter (isKey keycode) := mem_filter.2 ⟨hbinding, decide_eq_true hsame⟩
    rw [length_eq_zero_iff.1 (Nat.le_zero.1 hrounds)] at hmem
    cases hmem
  | succ rounds ih =>
    have hbest := @bestEntry_best keycode [] none entries (by simp [Best])
    rw [nil_append, length_nil] at hbest
    unfold emitKeycode
    cases hfound : bestEntry keycode 0 none entries with
    | none =>
      rw [hfound] at hbest
      exact emits_none hbest
    | some found =>
      obtain ⟨best, binding⟩ := found
      rw [hfound] at hbest
      obtain ⟨front, back, hentries, hindex, hkey, hleast⟩ := hbest
      have hset : entries.set best (binding, true) = front ++ (binding, true) :: back := by
        rw [hentries, ← hindex]
        simp
      have hbinding : isKey keycode binding = true := decide_eq_true hkey
      have hpending : pending entries = pending front ++ binding :: pending back := by
        rw [hentries, pending_append, pending_left]
      have hleft : pending (front ++ (binding, true) :: back) = pending front ++ pending back := by
        rw [pending_append, pending_emitted]
      have hperm : ((pending entries).filter (isKey keycode)).Perm
          (binding :: (pending (front ++ (binding, true) :: back)).filter (isKey keycode)) := by
        rw [hpending, hleft, filter_append, filter_cons_of_pos hbinding, filter_append]
        exact perm_middle
      have hmarked : marked keycode (front ++ (binding, true) :: back) = marked keycode entries := by
        rw [hentries]
        simp [marked, hbinding]
      have hlength := hperm.length_eq
      rw [length_cons] at hlength
      obtain ⟨hfinal, order, horder, hsorted, hwritten⟩ := @ih (front ++ (binding, true) :: back) (by omega)
      dsimp only
      rw [hset]
      refine ⟨hfinal.trans hmarked, binding :: order, ?_, ?_, ?_⟩
      · exact (horder.cons binding).trans hperm.symm
      · rw [BySpecificity, pairwise_cons]
        refine ⟨fun other hother => ?_, hsorted⟩
        obtain ⟨hmem, hsame⟩ := mem_filter.1 (horder.subset hother)
        apply hleast other _ (of_decide_eq_true hsame)
        rw [hpending]
        rw [hleft] at hmem
        rcases mem_append.1 hmem with hmem | hmem
        · exact mem_append_left _ hmem
        · exact mem_append_right _ (mem_cons_of_mem _ hmem)
      · rw [hwritten, hasLater_eq, chained, horder.isEmpty_eq]

theorem withAllowOther_specificity (later : Bool) (binding : EditorBinding) :
    sourceSpecificity (withAllowOther later binding) = sourceSpecificity binding := by
  have hflags : sourceFlags (withAllowOther later binding).flags = sourceFlags binding.flags := by
    unfold withAllowOther sourceFlags
    cases later with
    | true =>
      change (binding.flags ||| allowOther) &&& hostFlagMask = _
      have hnone : allowOther &&& hostFlagMask = 0 := rfl
      rw [and_or_distrib_right, hnone, Int32.or_zero]
    | false =>
      change (binding.flags &&& ~~~allowOther) &&& hostFlagMask = _
      rw [Int32.and_assoc]
      rfl
  unfold sourceSpecificity
  rw [hflags]

theorem chained_keys (h : ∀ binding ∈ order, isKey keycode binding = true) :
    ∀ binding ∈ chained order, isKey keycode binding = true := by
  induction order with
  | nil => exact h
  | cons first order ih =>
    intro binding hbinding
    rcases mem_cons.1 hbinding with rfl | hbinding
    · exact h first mem_cons_self
    · exact ih (fun other hother => h other (mem_cons_of_mem _ hother)) binding hbinding

theorem chained_specificity (order : List EditorBinding) :
    (chained order).map sourceSpecificity = order.map sourceSpecificity := by
  induction order with
  | nil => rfl
  | cons binding order ih => rw [chained, map_cons, map_cons, ih, withAllowOther_specificity]

theorem chained_allowOther {front : List EditorBinding} {last : EditorBinding} (h : chained order = front ++ [last]) :
    (∀ binding ∈ front, binding.flags &&& allowOther = allowOther) ∧ last.flags &&& allowOther = 0 := by
  induction order generalizing front with
  | nil => simp [chained] at h
  | cons binding order ih =>
    cases front with
    | nil =>
      obtain ⟨hlast, hnil⟩ := cons.inj h
      have hempty : order = [] := by
        cases order with
        | nil => rfl
        | cons next order => cases hnil
      refine ⟨by simp, ?_⟩
      rw [← hlast, hempty]
      change (binding.flags &&& ~~~allowOther) &&& allowOther = 0
      rw [Int32.and_assoc, Int32.not_and_self, Int32.and_zero]
    | cons first front =>
      obtain ⟨hfirst, hrest⟩ := cons.inj h
      obtain ⟨hfront, hlast⟩ := ih hrest
      refine ⟨fun other hother => ?_, hlast⟩
      rcases mem_cons.1 hother with rfl | hother
      · have hmore : order.isEmpty = false := by
          cases order with
          | nil => simp [chained] at hrest
          | cons next order => rfl
        rw [← hfirst, hmore]
        change (binding.flags ||| allowOther) &&& allowOther = allowOther
        apply Int32.toBitVec_inj.1
        rw [Int32.toBitVec_and, Int32.toBitVec_or, BitVec.and_or_distrib_right, BitVec.and_self]
        apply BitVec.eq_of_getLsbD_eq
        intro i hi
        rw [BitVec.getLsbD_or, BitVec.getLsbD_and]
        cases (allowOther.toBitVec).getLsbD i <;> simp
      · exact hfront other hother

/-- Lists in which the bindings of every key are written in an order of theirs. -/
def WrittenAs (bindings written : List EditorBinding) : Prop :=
  ∃ order : List EditorBinding, order.Perm bindings ∧ ∀ keycode, BySpecificity (order.filter (isKey keycode)) ∧
    written.filter (isKey keycode) = chained (order.filter (isKey keycode))

/-- The outer loop writes the bindings that are not emitted, if it comes past all of them. -/
theorem emitFrom_written {indices : List Nat} {entries : Entries}
    (hindices : ∀ i binding, entries[i]? = some (binding, false) → i ∈ indices) :
    WrittenAs (pending entries) (emitFrom indices entries) := by
  induction indices generalizing entries with
  | nil =>
    have hnone : pending entries = [] := by
      apply eq_nil_iff_forall_not_mem.2
      intro binding hbinding
      obtain ⟨entry, hentry, hfirst⟩ := mem_map.1 hbinding
      obtain ⟨hmem, hleft⟩ := mem_filter.1 hentry
      obtain ⟨i, hi⟩ := mem_iff_getElem?.1 hmem
      have hfalse : entry = (entry.1, false) := Prod.ext rfl (by simpa using hleft)
      rw [hfalse] at hi
      exact absurd (hindices i entry.1 hi) not_mem_nil
    rw [hnone]
    exact ⟨[], List.Perm.refl _, fun keycode => ⟨List.Pairwise.nil, rfl⟩⟩
  | cons i indices ih =>
    have hlater : (∀ binding, entries[i]? ≠ some (binding, false)) → WrittenAs (pending entries) (emitFrom indices entries) := by
      intro hnone
      apply ih
      intro j binding hj
      rcases mem_cons.1 (hindices j binding hj) with rfl | hmem
      · exact absurd hj (hnone binding)
      · exact hmem
    unfold emitFrom
    split
    · rename_i binding hentry
      obtain ⟨hfinal, order, horder, hsorted, hwritten⟩ := @emitKeycode_emits binding.keycode (entries.length + 1) entries (by
        have hfilter := length_filter_le (isKey binding.keycode) (pending entries)
        have hpending : (pending entries).length ≤ entries.length := by
          unfold pending
          rw [length_map]
          exact length_filter_le _ _
        omega)
      obtain ⟨rest, hrest, hkeys⟩ := @ih (marked binding.keycode entries) (by
        intro j other hj
        unfold marked at hj
        rw [getElem?_map] at hj
        obtain ⟨entry, hplace, hsame⟩ := Option.map_eq_some_iff.1 hj
        obtain ⟨rfl, hleft⟩ := Prod.mk.inj hsame
        rw [Bool.or_eq_false_iff] at hleft
        have hfalse : entry = (entry.1, false) := Prod.ext rfl hleft.1
        rw [hfalse] at hplace
        rcases mem_cons.1 (hindices j entry.1 hplace) with rfl | hmem
        · rw [hentry] at hplace
          have hbinding : binding = entry.1 := (Prod.mk.inj (Option.some.inj hplace)).1
          have hkey := hleft.2
          rw [← hbinding] at hkey
          exact absurd rfl (of_decide_eq_false hkey)
        · exact hmem)
      rw [pending_marked] at hrest
      have horderKey : ∀ other ∈ order, isKey binding.keycode other = true :=
        fun other hother => (mem_filter.1 (horder.subset hother)).2
      have hrestKey : ∀ other ∈ rest, isKey binding.keycode other = false := by
        intro other hother
        simpa using (mem_filter.1 (hrest.subset hother)).2
      refine ⟨order ++ rest, ?_, fun keycode => ?_⟩
      · exact (horder.append hrest).trans (filter_append_perm _ _)
      · dsimp only
        rw [hwritten, hfinal, filter_append, filter_append]
        obtain ⟨hrestSorted, hrestWritten⟩ := hkeys keycode
        by_cases hkey : keycode = binding.keycode
        · -- the first bindings are those of the key, and no other has it
          have hnone : rest.filter (isKey keycode) = [] := by
            rw [hkey]
            exact filter_eq_nil_iff.2 fun other hother => by simp [hrestKey other hother]
          have hall : order.filter (isKey keycode) = order := by
            rw [hkey]
            exact filter_eq_self.2 horderKey
          have hallChained : (chained order).filter (isKey keycode) = chained order := by
            rw [hkey]
            exact filter_eq_self.2 (chained_keys horderKey)
          rw [hrestWritten, hnone, hall, hallChained, chained, append_nil, append_nil]
          exact ⟨hsorted, rfl⟩
        · have hother : ∀ other, isKey binding.keycode other = true → isKey keycode other = false := by
            intro other hsame
            apply decide_eq_false
            rw [of_decide_eq_true hsame]
            exact fun heq => hkey heq.symm
          have hnone : order.filter (isKey keycode) = [] :=
            filter_eq_nil_iff.2 fun other hmem => by simp [hother other (horderKey other hmem)]
          have hnoneChained : (chained order).filter (isKey keycode) = [] :=
            filter_eq_nil_iff.2 fun other hmem => by simp [hother other (chained_keys horderKey other hmem)]
          rw [hnone, hnoneChained, nil_append, nil_append]
          exact ⟨hrestSorted, hrestWritten⟩
    · rename_i hentry
      exact hlater fun binding hsome => hentry binding hsome

theorem writtenBindings_written (bindings : List EditorBinding) : WrittenAs bindings (writtenBindings bindings) := by
  have hpending : pending (bindings.map fun binding => (binding, false)) = bindings := by
    induction bindings with
    | nil => rfl
    | cons binding bindings ih => rw [map_cons, pending_left, ih]
  have hwritten := @emitFrom_written (List.range bindings.length) (bindings.map fun binding => (binding, false)) (by
    intro i binding hentry
    rw [getElem?_map] at hentry
    obtain ⟨other, hother, -⟩ := Option.map_eq_some_iff.1 hentry
    obtain ⟨hi, -⟩ := List.getElem?_eq_some_iff.1 hother
    exact mem_range.2 hi)
  rw [hpending] at hwritten
  exact hwritten

/-! ### The text -/

theorem foldlM_appendf {size : Nat} {buffer : Bytes} (hbuffer : buffer.length < size) (lines : List Bytes) :
    lines.foldlM (fun buffer line => appendf size buffer (line ++ [lf])) buffer =
      if (buffer ++ linesText lines).length < size then some (buffer ++ linesText lines) else none := by
  induction lines generalizing buffer with
  | nil =>
    have hnil : linesText [] = [] := rfl
    rw [hnil, append_nil, if_pos hbuffer]
    rfl
  | cons line lines ih =>
    rw [foldlM_cons, linesText_cons]
    have hlength : (buffer ++ (line ++ lf :: linesText lines)).length =
        buffer.length + (line ++ [lf]).length + (linesText lines).length := by
      simp only [length_append, length_cons, length_nil]
      omega
    unfold appendf
    rw [if_neg (by omega)]
    by_cases hfull : (line ++ [lf]).length ≥ size - buffer.length
    · rw [if_pos hfull, if_neg (by omega)]
      rfl
    · have hroom : (buffer ++ (line ++ [lf])).length < size := by
        rw [length_append]
        omega
      have hrest := ih hroom
      have hsame : buffer ++ (line ++ [lf]) ++ linesText lines = buffer ++ (line ++ lf :: linesText lines) := by simp
      rw [if_neg hfull]
      rw [hsame] at hrest
      exact hrest

theorem serializeBlock_eq (model : EditorModel) (bufferSize : Nat) :
    serializeBlock model bufferSize =
      (blockLines model).bind fun lines => if (linesText lines).length < bufferSize then some (linesText lines) else none := by
  unfold serializeBlock
  cases hlines : blockLines model with
  | none => rfl
  | some lines =>
    change lines.foldlM (fun buffer line => appendf bufferSize buffer (line ++ [lf])) [] = _
    by_cases hzero : bufferSize = 0
    · rw [hzero, Option.bind_some, if_neg (Nat.not_lt_zero _)]
      cases lines with
      | nil =>
        obtain ⟨undef, -, hrest⟩ := Option.bind_eq_some_iff.1 hlines
        obtain ⟨bindings, -, hnil⟩ := Option.bind_eq_some_iff.1 hrest
        cases hnil
      | cons line lines => rfl
    · rw [foldlM_appendf (by rw [length_nil]; omega)]
      rfl

theorem mapM_some {f : α → Option Bytes} {items : List α}
    (h : items.mapM f = some lines) : items.map f = lines.map some := by
  induction items generalizing lines with
  | nil =>
    cases h
    rfl
  | cons item items ih =>
    rw [mapM_cons] at h
    obtain ⟨line, hline, hrest⟩ := Option.bind_eq_some_iff.1 h
    obtain ⟨rest, hmap, hcons⟩ := Option.bind_eq_some_iff.1 hrest
    cases hcons
    rw [map_cons, map_cons, hline, ih hmap]

/-! ### The lines -/

/-- The characters of a line: neither the end of a line nor of a text. -/
def LineChars (line : Bytes) : Prop := ∀ c ∈ line, c ≠ lf ∧ c ≠ 0

theorem LineChars.append {front back : Bytes} (hfront : LineChars front) (hback : LineChars back) :
    LineChars (front ++ back) := fun c hc => (mem_append.1 hc).elim (hfront c) (hback c)

theorem LineChars.cons {c : UInt8} {line : Bytes} (hc : c ≠ lf ∧ c ≠ 0) (hline : LineChars line) : LineChars (c :: line) :=
  fun x hx => (mem_cons.1 hx).elim (fun h => h ▸ hc) (hline x)

theorem formatDecimal_lineChars (n : Int) : LineChars (formatDecimal n) := by
  have hbyte : ∀ c : UInt8, c = 45 ∨ (48 ≤ c ∧ c ≤ 57) → c ≠ lf ∧ c ≠ 0 := forall_byte (by decide +kernel)
  exact fun c hc => hbyte c (formatDecimal_chars n c hc)

theorem formatThree_lineChars (a b c : Int32) : LineChars (formatThree a b c) :=
  (formatDecimal_lineChars _).append
    (((formatDecimal_lineChars _).append ((formatDecimal_lineChars _).cons (by decide))).cons (by decide))

theorem IsToken.lineChars {token : Bytes} (h : IsToken token) : LineChars token := by
  have hbyte : ∀ c : UInt8, c = 95 ∨ (48 ≤ c ∧ c ≤ 57) ∨ (65 ≤ c ∧ c ≤ 90) ∨ (97 ≤ c ∧ c ≤ 122) → c ≠ lf ∧ c ≠ 0 :=
    forall_byte (by decide +kernel)
  exact fun c hc => hbyte c (h.2.2 c hc)

def NoComment (line : Bytes) : Prop := LineChars line ∧ line.head? ≠ some 35

theorem NoComment.unmarked (h : NoComment line) (comment : Bytes) : (35 :: comment).isPrefixOf line = false := by
  rw [Bool.eq_false_iff]
  intro hprefix
  obtain ⟨rest, rfl⟩ := isPrefixOf_iff_prefix.1 hprefix
  exact h.2 rfl

theorem undefLine_spec (h : undefLine keycode = some line) :
    ∃ token, keycodeFromVkmToken token = keycode ∧ line = ascii "!UNDEF " ++ token ∧ NoComment line := by
  unfold undefLine at h
  rw [keycodeFormatVkmToken_eq] at h
  obtain ⟨token, htoken, rfl⟩ := Option.map_eq_some_iff.1 h
  obtain ⟨hkey, hisToken⟩ := vkmToken_spec htoken
  refine ⟨token, hkey, rfl, ?_, by simp [ascii]⟩
  exact LineChars.append (by unfold LineChars; decide) hisToken.lineChars

theorem bindingLine_spec {binding : EditorBinding} (h : bindingLine binding = some line) :
    ∃ token, keycodeFromVkmToken token = binding.keycode ∧
      line = token ++ 32 :: formatThree binding.row binding.column binding.flags ∧ NoComment line := by
  unfold bindingLine at h
  rw [keycodeFormatVkmToken_eq] at h
  obtain ⟨token, htoken, rfl⟩ := Option.map_eq_some_iff.1 h
  obtain ⟨hkey, hisToken⟩ := vkmToken_spec htoken
  refine ⟨token, hkey, rfl, hisToken.lineChars.append ((formatThree_lineChars _ _ _).cons (by decide)), ?_⟩
  obtain ⟨first, rest, rfl⟩ := exists_cons_of_ne_nil hisToken.1
  have hfirst := hisToken.2.2 first mem_cons_self
  intro hhead
  have hcomment : first = 35 := Option.some.inj hhead
  rw [hcomment] at hfirst
  exact absurd hfirst (by decide)

theorem targetLine_spec (target : EditorTarget) : LineChars (targetLine target) ∧
    versionPrefix.isPrefixOf (targetLine target) = false ∧ markerAt blockBegin (targetLine target) = false ∧
    markerAt blockEnd (targetLine target) = false :=
  ⟨LineChars.append (by unfold LineChars; decide) (formatThree_lineChars _ _ _), rfl, rfl, rfl⟩

/-- The lines between the markers. -/
def innerLines (targets : List EditorTarget) (undef bindings : List Bytes) : List Bytes :=
  headerLines ++ (targets.map targetLine ++ ([] :: (undef ++ ([] :: bindings))))

theorem blockLines_eq (h : blockLines model = some lines) :
    ∃ undef bindings, model.undefKeys.map undefLine = undef.map some ∧
      (writtenBindings model.bindings).map bindingLine = bindings.map some ∧
      lines = blockBegin :: (innerLines model.targets undef bindings ++ [blockEnd]) := by
  obtain ⟨undef, hundef, hrest⟩ := Option.bind_eq_some_iff.1 h
  obtain ⟨bindings, hbindings, hlines⟩ := Option.bind_eq_some_iff.1 hrest
  cases hlines
  refine ⟨undef, bindings, mapM_some hundef, mapM_some hbindings, ?_⟩
  unfold innerLines
  simp only [append_assoc, cons_append]

theorem noComment_of_map {f : α → Option Bytes} {items : List α}
    (h : items.map f = lines.map some) (hf : ∀ item line, f item = some line → NoComment line) :
    ∀ line ∈ lines, NoComment line := by
  intro line hline
  have hmem : some line ∈ items.map f := by
    rw [h]
    exact mem_map.2 ⟨line, hline, rfl⟩
  obtain ⟨item, -, hitem⟩ := mem_map.1 hmem
  exact hf item line hitem

theorem noComment_nil : NoComment [] := ⟨fun c hc => absurd hc not_mem_nil, by simp⟩

section

variable {undef bindings : List Bytes} (hundef : ∀ line ∈ undef, NoComment line) (hbindings : ∀ line ∈ bindings, NoComment line)

include hundef hbindings

theorem plain_rest : ∀ line ∈ [] :: (undef ++ [] :: bindings), NoComment line := by
  intro line hline
  rcases mem_cons.1 hline with rfl | hline
  · exact noComment_nil
  · rcases mem_append.1 hline with hline | hline
    · exact hundef line hline
    · rcases mem_cons.1 hline with rfl | hline
      · exact noComment_nil
      · exact hbindings line hline

theorem innerLines_plain (targets : List EditorTarget) : ∀ line ∈ innerLines targets undef bindings,
    LineChars line ∧ markerAt blockBegin line = false ∧ markerAt blockEnd line = false := by
  intro line hline
  rcases mem_append.1 hline with hheader | hline
  · have hall : ∀ line ∈ headerLines, LineChars line ∧ markerAt blockBegin line = false ∧ markerAt blockEnd line = false := by
      unfold LineChars
      decide
    exact hall line hheader
  · rcases mem_append.1 hline with htarget | hrest
    · obtain ⟨target, -, rfl⟩ := mem_map.1 htarget
      obtain ⟨hchars, -, hbegin, hend⟩ := targetLine_spec target
      exact ⟨hchars, hbegin, hend⟩
    · have hplain := plain_rest hundef hbindings line hrest
      have hnot : ∀ marker, marker.head? = some 35 → markerAt marker line = false := by
        intro marker hmarker
        obtain ⟨rest, rfl⟩ := head?_eq_some_iff.1 hmarker
        unfold markerAt
        rw [hplain.unmarked, Bool.false_and]
      exact ⟨hplain.1, hnot blockBegin rfl, hnot blockEnd rfl⟩

end

/-! ### Reading the targets back -/

theorem textLines_linesText (hlines : ∀ line ∈ lines, LineChars line) : textLines (linesText lines) = lines := by
  have hlf : ∀ line ∈ lines, lf ∉ line := fun line hline hmem => (hlines line hline lf hmem).1 rfl
  unfold textLines linesText
  rw [fileLines_texts hlf, map_map]
  calc lines.map ((fun line => line.takeWhile (· ≠ lf)) ∘ (· ++ [lf])) = lines.map id := by
        apply map_congr_left
        intro line hline
        change (line ++ [lf]).takeWhile (· ≠ lf) = line
        rw [takeWhile_append_of_pos fun c hc => by simpa using (hlines line hline c hc).1]
        simp
    _ = lines := List.map_id _

theorem afterLine_line (hline : LineChars line) (rest : Bytes) : afterLine (line ++ lf :: rest) = rest := by
  induction line with
  | nil => simp [afterLine, lf]
  | cons c line ih =>
    obtain ⟨hlf, hnul⟩ := hline c mem_cons_self
    rw [cons_append, afterLine_cons hlf hnul, ih fun x hx => hline x (mem_cons_of_mem _ hx)]

theorem scanThree_formatThree (a b c : Int32) : scanThree (formatThree a b c) = some (a, b, c, []) := by
  have hspace : ∀ rest : Bytes, ∀ c ∈ (32 :: rest).head?, digitValue 10 c = none := by
    intro rest c hc
    cases hc
    rfl
  have hfirst := scanNumber_formatDecimal a.toInt (hspace (formatDecimal b.toInt ++ 32 :: formatDecimal c.toInt))
  have hsecond := scanNumber_formatDecimal b.toInt (hspace (formatDecimal c.toInt))
  have hthird := @scanNumber_formatDecimal c.toInt [] (by simp)
  rw [append_nil] at hthird
  unfold scanThree formatThree
  rw [hfirst]
  simp only [Option.bind_eq_bind, Option.bind_some, scanNumber_space, hsecond, hthird, Int32.ofInt_toInt]
  rfl

theorem readVersion_plain (hlines : ∀ line ∈ lines, versionPrefix.isPrefixOf line = false)
    (seen : Option Int) : readVersion seen lines = some (seen.getD 1) := by
  induction lines with
  | nil => rfl
  | cons line lines ih =>
    rw [readVersion, hlines line mem_cons_self]
    exact ih fun other hother => hlines other (mem_cons_of_mem _ hother)

theorem mergeLines_plain (hlines : ∀ line ∈ lines, targetPrefix.isPrefixOf line = false)
    (model : EditorModel) (rest : List Bytes) :
    mergeLines blockVersion model (lines ++ rest) = mergeLines blockVersion model rest := by
  induction lines with
  | nil => rfl
  | cons line lines ih =>
    have hversion : ¬ (blockVersion < blockVersion ∧ line ≠ [] ∧ line.head? ≠ some 35 ∧ line.head? ≠ some 33) :=
      fun h => absurd h.1 (Int.lt_irrefl _)
    rw [cons_append, mergeLines, hlines line mem_cons_self, if_neg hversion]
    exact ih fun other hother => hlines other (mem_cons_of_mem _ hother)

theorem addTarget_self {model : EditorModel} {target : EditorTarget} (hclean : Clean target) (hagrees : Agrees target)
    (hnew : targetListContains model.targets target = false) (hroom : model.targets.length < maxTargets) :
    addTarget model target.row target.column target.mappingFlags =
      ({ model with targets := model.targets ++ [target] }, true) := by
  have hsame : EditorTarget.mk target.row target.column (normalizedTargetFlags target.mappingFlags)
      (targetMappingFlags target.mappingFlags) = target := by
    rw [hclean, hagrees]
  unfold addTarget
  rw [hsame, if_neg (by simp [hnew]), if_neg (by omega)]

/-- The lines of targets bring them back behind those that the model has. -/
theorem mergeLines_targets {done targets : List EditorTarget} (hwell : TargetsWell (done ++ targets))
    (hagree : ∀ target ∈ targets, Agrees target) (model : EditorModel) (rest : List Bytes) :
    mergeLines blockVersion { model with targets := done } (targets.map targetLine ++ rest) =
      mergeLines blockVersion { model with targets := done ++ targets } rest := by
  induction targets generalizing done with
  | nil => rw [append_nil]; rfl
  | cons target targets ih =>
    have hnext : (done ++ [target]) ++ targets = done ++ target :: targets := by simp
    have hprefix : targetPrefix.isPrefixOf (targetLine target) = true :=
      isPrefixOf_iff_prefix.2 (prefix_append _ _)
    have hdrop : (targetLine target).drop targetPrefix.length =
        formatThree target.row target.column target.mappingFlags := drop_left
    have hnew : targetListContains done target = false := by
      rw [targetListContains_eq_false]
      intro other hother
      exact (pairwise_append.1 hwell.distinct).2.2 other hother target mem_cons_self
    have hroom : done.length < maxTargets := by
      have hlength := hwell.length_le
      rw [length_append, length_cons] at hlength
      omega
    have hclean := hwell.clean target (mem_append_right _ mem_cons_self)
    have hadd := @addTarget_self { model with targets := done } target hclean (hagree target mem_cons_self) hnew hroom
    rw [map_cons, cons_append, mergeLines, if_pos hprefix, hdrop, scanThree_formatThree]
    dsimp only
    have hblank : ¬ (!onlyBlanks []) = true := by decide
    rw [if_neg hblank, hadd]
    rw [← hnext]
    exact ih (hnext ▸ hwell) fun other hother => hagree other (mem_cons_of_mem _ hother)

/-- Merging the targets of a block into a model that has none gives it the targets of the model that was written. -/
theorem merge_block (hmodel : Invariant model) (hagree : ∀ target ∈ model.targets, Agrees target)
    {undef bindings : List Bytes} (hundef : ∀ line ∈ undef, NoComment line) (hbindings : ∀ line ∈ bindings, NoComment line)
    {into : EditorModel} (hinto : into.targets = []) :
    mergeTargetCatalog into (linesText (blockBegin :: (innerLines model.targets undef bindings ++ [blockEnd]))) =
      ({ into with targets := model.targets }, true) := by
  have hplain := innerLines_plain hundef hbindings model.targets
  let block : EditorBlock :=
    { lines := innerLines model.targets undef bindings
      plain := fun line hline => by
        obtain ⟨hchars, hbegin, hend⟩ := hplain line hline
        exact ⟨⟨fun hmem => (hchars lf hmem).1 rfl, hbegin⟩, ⟨fun hmem => (hchars lf hmem).1 rfl, hend⟩⟩
      nul := fun line hline hmem => ((hplain line hline).1 0 hmem).2 rfl }
  have hbytes : linesText (blockBegin :: (innerLines model.targets undef bindings ++ [blockEnd])) = block.bytes := by
    unfold EditorBlock.bytes EditorBlock.opening linesText
    simp [block]
  have hfound : findMarkerLine blockBegin block.bytes = some ([], block.bytes) := by
    have hbegin := @block.find_begin [] (by simp [LineStart]) (noLine_nil isMarker_begin) (by simp)
    rwa [nil_append] at hbegin
  have hmarker : LineChars blockBegin := by
    unfold LineChars
    decide
  have hopening : textLines (afterLine block.opening) = innerLines model.targets undef bindings := by
    unfold EditorBlock.opening
    rw [linesText_cons, afterLine_line hmarker, textLines_linesText fun line hline => (hplain line hline).1]
  have hrest := plain_rest hundef hbindings
  have hversion : readVersion none (innerLines model.targets undef bindings) = some blockVersion := by
    have hlater : ∀ line ∈ model.targets.map targetLine ++ ([] :: (undef ++ ([] :: bindings))),
        versionPrefix.isPrefixOf line = false := by
      intro line hline
      rcases mem_append.1 hline with htarget | hline
      · obtain ⟨target, -, rfl⟩ := mem_map.1 htarget
        exact (targetLine_spec target).2.1
      · exact (hrest line hline).unmarked _
    exact readVersion_plain hlater (some blockVersion)
  have hheader : ∀ line ∈ headerLines, targetPrefix.isPrefixOf line = false := by decide
  have hlines : mergeLines blockVersion into (innerLines model.targets undef bindings) =
      ({ into with targets := model.targets }, true) := by
    have hself : into = { into with targets := [] } := by rw [← hinto]
    have htargets := @mergeLines_targets [] model.targets hmodel.targets hagree into ([] :: (undef ++ ([] :: bindings)))
    have hend := mergeLines_plain (fun line hline => (hrest line hline).unmarked _)
      { into with targets := model.targets } []
    rw [append_nil] at hend
    unfold innerLines
    rw [mergeLines_plain hheader, hself, htargets]
    exact hend
  rw [hbytes]
  unfold mergeTargetCatalog
  rw [hfound]
  dsimp only
  rw [block.find_end]
  dsimp only
  rw [hopening, hversion]
  exact hlines

/-! ### The whole block -/

structure BlockMeans (model : EditorModel) (block : Bytes) : Prop where
  /-- The lines: the targets, a line for every key that is undefined, and then the bindings. -/
  text : ∃ undef bindings written, block = linesText (blockBegin :: (innerLines model.targets undef bindings ++ [blockEnd])) ∧
    List.Forall₂ (fun keycode line => ∃ token, keycodeFromVkmToken token = keycode ∧ line = ascii "!UNDEF " ++ token)
      model.undefKeys undef ∧
    List.Forall₂ (fun binding line => ∃ token, keycodeFromVkmToken token = binding.keycode ∧
      line = token ++ 32 :: formatThree binding.row binding.column binding.flags) written bindings ∧
    WrittenAs model.bindings written ∧
    ∀ keycode, BySpecificity (written.filter (isKey keycode)) ∧
      ∀ front last, written.filter (isKey keycode) = front ++ [last] →
        (∀ binding ∈ front, binding.flags &&& allowOther = allowOther) ∧ last.flags &&& allowOther = 0
  merge : ∀ into : EditorModel, into.targets = [] →
    mergeTargetCatalog into block = ({ into with targets := model.targets }, true)

theorem bySpecificity_chained (h : BySpecificity order) : BySpecificity (chained order) := by
  have hmap : ((chained order).map sourceSpecificity).Pairwise (· ≤ ·) := by
    rw [chained_specificity]
    exact pairwise_map.2 h
  exact pairwise_map.1 hmap

theorem forall₂_of_map {f : α → Option Bytes} {P : α → Bytes → Prop} {items : List α}
    (h : items.map f = lines.map some) (hf : ∀ item line, f item = some line → P item line) : List.Forall₂ P items lines := by
  induction items generalizing lines with
  | nil =>
    obtain rfl := map_eq_nil_iff.1 h.symm
    exact .nil
  | cons item items ih =>
    cases lines with
    | nil => cases h
    | cons line lines =>
      obtain ⟨hline, hrest⟩ := cons.inj h
      exact .cons (hf item line hline) (ih hrest)

/-- A block that is written means the model, and it is written exactly if there is room for it. -/
theorem serializeBlock_means {model : EditorModel} (hmodel : Invariant model)
    (hagree : ∀ target ∈ model.targets, Agrees target) {bufferSize : Nat} {block : Bytes}
    (h : serializeBlock model bufferSize = some block) :
    BlockMeans model block ∧
      ∀ size, serializeBlock model size = if block.length < size then some block else none := by
  rw [serializeBlock_eq] at h
  obtain ⟨lines, hlines, hroom⟩ := Option.bind_eq_some_iff.1 h
  split at hroom
  · cases hroom
    obtain ⟨undef, bindings, hundef, hbindings, rfl⟩ := blockLines_eq hlines
    refine ⟨⟨⟨undef, bindings, writtenBindings model.bindings, rfl, ?_, ?_, writtenBindings_written _, fun keycode => ?_⟩,
      fun into hinto => ?_⟩, fun size => ?_⟩
    · apply forall₂_of_map hundef
      intro keycode line hline
      obtain ⟨token, hkey, hline, -⟩ := undefLine_spec hline
      exact ⟨token, hkey, hline⟩
    · apply forall₂_of_map hbindings
      intro binding line hline
      obtain ⟨token, hkey, hline, -⟩ := bindingLine_spec hline
      exact ⟨token, hkey, hline⟩
    · obtain ⟨order, -, hkeys⟩ := writtenBindings_written model.bindings
      obtain ⟨hsorted, hwritten⟩ := hkeys keycode
      rw [hwritten]
      exact ⟨bySpecificity_chained hsorted, fun front last => chained_allowOther⟩
    · apply merge_block hmodel hagree _ _ hinto
      · exact noComment_of_map hundef fun keycode line hline => (undefLine_spec hline).choose_spec.2.2
      · exact noComment_of_map hbindings fun binding line hline => (bindingLine_spec hline).choose_spec.2.2
    · rw [serializeBlock_eq, hlines]
      rfl
  · cases hroom

def shiftedKeys : EditorModel := runCalls {} [.init (some [{ keyA with flags := mapModShift }, keyA])]

theorem shiftedKeys_block : ∃ block, serializeBlock shiftedKeys 1024 = some block ∧ BlockMeans shiftedKeys block := by
  obtain ⟨block, hblock⟩ := Option.isSome_iff_exists.1
    (show (serializeBlock shiftedKeys 1024).isSome = true by decide +kernel)
  have hinvariant := runCalls_invariant empty_invariant [.init (some [{ keyA with flags := mapModShift }, keyA])]
  have hagree := runCalls_agrees empty_invariant (by simp)
    (fun call (hcall : call ∈ [EditorCall.init (some [{ keyA with flags := mapModShift }, keyA])]) => by
      rw [mem_singleton.1 hcall]
      trivial)
  exact ⟨block, hblock, (serializeBlock_means hinvariant hagree hblock).1⟩

end Bmx.Keymap
