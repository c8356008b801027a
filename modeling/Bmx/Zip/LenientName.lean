import Bmx.Zip.OpenSpec

/-!
# Names as the lenient reader takes them

`NormalizeLenientPath` writes a name part by part. What it writes is the list of the parts between separators, each one
trimmed, with one slash between them; a name that the strict reader takes already has this form.
-/

namespace Bmx.Zip

open Interaction Update Fallible List

/-! ### Parts -/

/-- What stands between the separators of a name. -/
def nameParts (name : Bytes) : List Bytes := (name.splitOnP isSeparator).filter (!·.isEmpty)

/-- A part without the spaces before it and the spaces and dots after it. -/
def trimmedPart (part : Bytes) : Bytes :=
  ((part.dropWhile (· == 32)).reverse.dropWhile (fun c => c == 32 || c == 46)).reverse

def endsInSeparator (name : Bytes) : Bool := (name.getLast?.map isSeparator).getD false

/-- The trimmed parts of a name, and a slash after them if it ends in a separator. -/
def lenientName (name : Bytes) : Bytes :=
  [slash].intercalate ((nameParts name).map trimmedPart) ++ if endsInSeparator name then [slash] else []

variable {value : UInt8} {out path : Bytes} {parts : List Bytes} {capacity maximum : Nat}

theorem nameParts_separator (hvalue : isSeparator value = true) (rest : Bytes) :
    nameParts (value :: rest) = nameParts rest := by
  rw [nameParts, splitOnP_cons_eq_if_modifyHead, if_pos hvalue, filter_cons_of_neg (by simp)]
  rfl

theorem nameParts_dropWhile (name : Bytes) : nameParts (name.dropWhile isSeparator) = nameParts name := by
  induction name with
  | nil => rfl
  | cons value rest ih =>
    by_cases hvalue : isSeparator value = true
    · rw [dropWhile_cons_of_pos hvalue, ih, nameParts_separator hvalue]
    · rw [dropWhile_cons_of_neg hvalue]

theorem nameParts_first (hvalue : isSeparator value = false) (rest : Bytes) :
    nameParts (value :: rest) =
      (value :: rest).takeWhile (!isSeparator ·) :: nameParts ((value :: rest).dropWhile (!isSeparator ·)) := by
  have hsplit := takeWhile_append_dropWhile (p := (!isSeparator ·)) (l := value :: rest)
  have hfirst : (value :: rest).takeWhile (!isSeparator ·) ≠ [] := by
    rw [takeWhile_cons_of_pos (by simp [hvalue])]
    exact cons_ne_nil _ _
  have hfree : ∀ c ∈ (value :: rest).takeWhile (!isSeparator ·), isSeparator c = false := by
    intro c hc
    simpa using mem_takeWhile_imp hc
  generalize (value :: rest).takeWhile (!isSeparator ·) = first at *
  have hhead := head?_dropWhile_not (!isSeparator ·) (value :: rest)
  generalize (value :: rest).dropWhile (!isSeparator ·) = after at *
  rw [← hsplit]
  cases after with
  | nil =>
    rw [nameParts, append_nil, splitOnP_eq_singleton hfree, filter_cons_of_pos (by simpa using hfirst)]
    rfl
  | cons separator after =>
    have hseparator : isSeparator separator = true := by simpa using hhead
    rw [nameParts_separator hseparator, nameParts, splitOnP_append_cons _ _ hseparator,
      splitOnP_eq_singleton hfree, singleton_append, filter_cons_of_pos (by simpa using hfirst)]
    rfl

/-! ### Joining -/

/-- `out` with a slash after it, where it is not empty. -/
def joined (out : Bytes) : Bytes := if out.isEmpty then out else out ++ [slash]

/-- What is written after `out` with more parts. -/
def extended : (out : Bytes) → List Bytes → Bytes
  | out, [] => out
  | out, part :: parts => extended (joined out ++ part) parts

theorem length_le_extended (out : Bytes) (parts : List Bytes) : out.length ≤ (extended out parts).length := by
  induction parts generalizing out with
  | nil => exact le_rfl
  | cons part parts ih =>
    refine le_trans ?_ (ih _)
    unfold joined
    split <;> simp only [length_append] <;> omega

theorem extended_eq (hout : out ≠ []) (hparts : ∀ part ∈ parts, part ≠ []) :
    extended out parts = [slash].intercalate (out :: parts) := by
  induction parts generalizing out with
  | nil => rw [extended, intercalate_singleton]
  | cons part parts ih =>
    obtain ⟨hpart, hrest⟩ := forall_mem_cons.1 hparts
    rw [extended, joined, if_neg (by simpa using hout), ih (by simp) hrest, intercalate_cons_cons]
    cases parts with
    | nil => rw [intercalate_singleton, intercalate_singleton]
    | cons next parts =>
      rw [intercalate_cons_cons, intercalate_cons_cons]
      simp only [append_assoc]

theorem extended_nil (hparts : ∀ part ∈ parts, part ≠ []) : extended [] parts = [slash].intercalate parts := by
  cases parts with
  | nil => rfl
  | cons part parts =>
    obtain ⟨hpart, hrest⟩ := forall_mem_cons.1 hparts
    exact extended_eq hpart hrest

theorem extended_ne_nil (hparts : parts ≠ []) (hpart : ∀ part ∈ parts, part ≠ []) : extended out parts ≠ [] := by
  cases parts with
  | nil => exact absurd rfl hparts
  | cons part parts =>
    have hgrows := length_le_extended (joined out ++ part) parts
    have hfirst := length_pos_iff.2 (hpart part mem_cons_self)
    rw [length_append] at hgrows
    exact length_pos_iff.1 (by rw [extended]; omega)

/-! ### Normalizing -/

theorem normalizeComponents_cons (capacity fuel : Nat) (out : Bytes) (value : UInt8) (rest : Bytes) :
    normalizeComponents capacity (fuel + 1) out (value :: rest) =
      if trimmedPart ((value :: rest).takeWhile (!isSeparator ·)) = [] ∨
          capacity ≤ (joined out ++ trimmedPart ((value :: rest).takeWhile (!isSeparator ·))).length then none
      else
        normalizeComponents capacity fuel (joined out ++ trimmedPart ((value :: rest).takeWhile (!isSeparator ·)))
          (((value :: rest).dropWhile (!isSeparator ·)).dropWhile isSeparator) := by
  rw [normalizeComponents, if_neg (by simp)]
  refine if_congr ?_ rfl rfl
  change (trimmedPart _).isEmpty = true ∨ (¬ out.isEmpty = true ∧ out.length + 1 ≥ capacity) ∨
    (joined out).length + (trimmedPart _).length ≥ capacity ↔ _
  rw [List.isEmpty_iff, length_append]
  constructor
  · rintro (hempty | ⟨hout, hroom⟩ | hroom)
    · exact .inl hempty
    · by_cases hempty : trimmedPart ((value :: rest).takeWhile (!isSeparator ·)) = []
      · exact .inl hempty
      · have hpart := length_pos_iff.2 hempty
        rw [joined, if_neg hout, length_append, length_singleton]
        exact .inr (by omega)
    · exact .inr hroom
  · rintro (hempty | hroom)
    · exact .inl hempty
    · exact .inr (.inr hroom)

/-- What the component loop writes: it stops at a part of which nothing is left and at a name that does not fit. -/
theorem normalizeComponents_iff {capacity fuel : Nat} {out rest result : Bytes} (hfuel : rest.length ≤ fuel)
    (hrest : ∀ value, rest.head? = some value → isSeparator value = false) :
    normalizeComponents capacity fuel out rest = some result ↔
      (∀ part ∈ nameParts rest, trimmedPart part ≠ []) ∧
        extended out ((nameParts rest).map trimmedPart) = result ∧
        (nameParts rest ≠ [] → result.length < capacity) := by
  induction fuel generalizing out rest with
  | zero =>
    obtain rfl := length_eq_zero_iff.1 (Nat.le_zero.1 hfuel)
    change some out = some result ↔ (∀ part ∈ [], _) ∧ out = result ∧ ([] ≠ [] → _)
    simp
  | succ fuel ih =>
    cases rest with
    | nil =>
      change some out = some result ↔ (∀ part ∈ [], _) ∧ out = result ∧ ([] ≠ [] → _)
      simp
    | cons value rest =>
      have hvalue := hrest value rfl
      have hafter : ((value :: rest).dropWhile (!isSeparator ·)).length ≤ rest.length := by
        rw [dropWhile_cons_of_pos (by simp [hvalue])]
        exact (dropWhile_sublist _).length_le
      rw [normalizeComponents_cons, nameParts_first hvalue, map_cons, extended, forall_mem_cons,
        ← nameParts_dropWhile ((value :: rest).dropWhile (!isSeparator ·))]
      generalize (value :: rest).dropWhile (!isSeparator ·) = after at hafter
      generalize (value :: rest).takeWhile (!isSeparator ·) = part
      have hnext := @ih (joined out ++ trimmedPart part) (after.dropWhile isSeparator)
        ((dropWhile_sublist _).length_le.trans (hafter.trans (Nat.le_of_succ_le_succ hfuel)))
        fun next hnext => by simpa [hnext] using head?_dropWhile_not isSeparator after
      have hgrows := length_le_extended (joined out ++ trimmedPart part)
        ((nameParts (after.dropWhile isSeparator)).map trimmedPart)
      change _ ↔ _ ∧ extended (joined out ++ trimmedPart part) _ = result ∧ _
      by_cases hstop : trimmedPart part = [] ∨ capacity ≤ (joined out ++ trimmedPart part).length
      · rw [if_pos hstop]
        refine iff_of_false nofun ?_
        rintro ⟨⟨hpart, -⟩, rfl, hfits⟩
        have hfits := hfits (cons_ne_nil _ _)
        exact hstop.elim hpart fun hroom => absurd hfits (by omega)
      · rw [not_or, not_le] at hstop
        rw [if_neg (by rw [not_or, not_le]; exact hstop), hnext]
        constructor
        · rintro ⟨hparts, rfl, hfits⟩
          refine ⟨⟨hstop.1, hparts⟩, rfl, fun _ => ?_⟩
          by_cases hmore : nameParts (after.dropWhile isSeparator) = []
          · rw [hmore]
            exact hstop.2
          · exact hfits hmore
        · rintro ⟨⟨-, hparts⟩, hresult, hfits⟩
          exact ⟨hparts, hresult, fun _ => hfits (cons_ne_nil _ _)⟩

/-- What `NormalizeLenientPath` writes. -/
theorem normalizeLenientPath_iff {raw name : Bytes} {isDirectory : Bool} :
    normalizeLenientPath capacity raw = some (name, isDirectory) ↔
      nameParts raw ≠ [] ∧ (∀ part ∈ nameParts raw, trimmedPart part ≠ []) ∧ lenientName raw = name ∧
        endsInSeparator raw = isDirectory ∧ name.length < capacity := by
  have hlength : (raw.dropWhile isSeparator).length ≤ raw.length := (dropWhile_sublist _).length_le
  have hloop (out : Bytes) := @normalizeComponents_iff capacity _ [] _ out hlength
    fun value hvalue => by simpa [hvalue] using head?_dropWhile_not isSeparator raw
  simp only [nameParts_dropWhile] at hloop
  unfold normalizeLenientPath
  by_cases hraw : raw = []
  · rw [hraw]
    simp [nameParts]
  rw [if_neg (by simpa using hraw)]
  split
  · rename_i hstopped
    refine iff_of_false nofun ?_
    rintro ⟨hparts, htrimmed, rfl, -, hfits⟩
    have hsome := (hloop _).2 ⟨htrimmed, rfl, fun _ => ?_⟩
    · rw [hstopped] at hsome
      cases hsome
    · rw [extended_nil (by simpa using htrimmed)]
      rw [lenientName, length_append] at hfits
      omega
  · rename_i out hout
    obtain ⟨htrimmed, rfl, hfits⟩ := (hloop out).1 hout
    have hname : extended [] ((nameParts raw).map trimmedPart) ++ (if endsInSeparator raw then [slash] else []) =
        lenientName raw := by rw [extended_nil (by simpa using htrimmed), lenientName]
    by_cases hparts : nameParts raw = []
    · rw [if_pos (by simp [hparts, extended])]
      exact iff_of_false nofun fun h => h.1 hparts
    rw [if_neg (by simpa using extended_ne_nil (by simpa using hparts) (by simpa using htrimmed)), ← hname]
    change (if endsInSeparator raw = true then _ else _) = _ ↔ _
    cases endsInSeparator raw with
    | false =>
      rw [if_neg Bool.false_ne_true, if_neg Bool.false_ne_true, append_nil, Option.some.injEq, Prod.mk.injEq]
      constructor
      · rintro ⟨rfl, rfl⟩
        exact ⟨hparts, htrimmed, rfl, rfl, hfits hparts⟩
      · rintro ⟨-, -, hwritten, hdirectory, -⟩
        exact ⟨hwritten, hdirectory⟩
    | true =>
      rw [if_pos rfl, if_pos rfl]
      split
      · rename_i hroom
        refine iff_of_false nofun ?_
        rintro ⟨-, -, rfl, -, hfits⟩
        rw [length_append, length_singleton] at hfits
        omega
      · rename_i hroom
        rw [Option.some.injEq, Prod.mk.injEq]
        constructor
        · rintro ⟨rfl, rfl⟩
          refine ⟨hparts, htrimmed, rfl, rfl, ?_⟩
          rw [length_append, length_singleton]
          omega
        · rintro ⟨-, -, hwritten, hdirectory, -⟩
          exact ⟨hwritten, hdirectory⟩

/-! ### Names that are taken as they are -/

theorem trimmedPart_of_valid {part : Bytes} (h : portableComponentValid part = true) : trimmedPart part = part := by
  simp only [portableComponentValid, componentShapeValid, Bool.and_eq_true, bne_iff_ne, ne_eq] at h
  obtain ⟨⟨⟨⟨⟨hlength, -⟩, hspace⟩, hdot⟩, hhead⟩, -⟩ := h
  have hleft : part.dropWhile (· == 32) = part := by
    cases part with
    | nil => rfl
    | cons value rest => exact dropWhile_cons_of_neg (by simpa using hhead)
  have hright : part.reverse.dropWhile (fun c => c == 32 || c == 46) = part.reverse := by
    cases hreverse : part.reverse with
    | nil => rfl
    | cons value rest =>
      have hlast : part.getLast? = some value := by rw [getLast?_eq_head?_reverse, hreverse]; rfl
      rw [hlast] at hspace hdot
      exact dropWhile_cons_of_neg (by simpa using And.intro hspace hdot)
  rw [trimmedPart, hleft, hright, reverse_reverse]

theorem splitOnP_slash (h : ∀ c ∈ path, isSeparator c = true → c = slash) :
    path.splitOnP isSeparator = path.splitOn slash := by
  induction path with
  | nil => rfl
  | cons value rest ih =>
    obtain ⟨hvalue, hrest⟩ := forall_mem_cons.1 h
    rw [splitOnP_cons_eq_if_modifyHead, splitOn_cons_eq_if_modifyHead, ih hrest]
    refine if_congr ⟨fun hseparator => beq_iff_eq.2 (hvalue hseparator), fun hslash => ?_⟩ rfl rfl
    rw [beq_iff_eq.1 hslash]
    rfl

theorem portable_separator (h : FatRelativePath path maximum) : ∀ c ∈ path, isSeparator c = true → c = slash := by
  intro c hc hseparator
  rcases scanComponents_characters h.scan hc with rfl | hportable
  · rfl
  · simp only [isSeparator, Bool.or_eq_true, beq_iff_eq] at hseparator
    rcases hseparator with rfl | rfl
    · rfl
    · exact absurd hportable (by decide)

/-- The parts of a portable path: it has no separator but slashes, and there is nothing to trim. -/
theorem nameParts_of_valid (h : FatRelativePath path maximum) :
    nameParts path = path.splitOn slash ∧ ∀ part ∈ path.splitOn slash, part ≠ [] ∧ trimmedPart part = part := by
  have hvalid : ∀ part ∈ path.splitOn slash, portableComponentValid part = true := by
    obtain ⟨first, rest, hsplit⟩ := exists_cons_of_ne_nil (splitOn_ne_nil slash path)
    have hscan := (scanComponents_iff hsplit).1 h.scan
    rw [hsplit, forall_mem_cons]
    exact ⟨hscan.1.2, fun part hpart => (hscan.2 part hpart).2⟩
  have hsome : ∀ part ∈ path.splitOn slash, part ≠ [] := by
    rintro part hpart rfl
    exact absurd (hvalid [] hpart) (by decide)
  refine ⟨?_, fun part hpart => ⟨hsome part hpart, trimmedPart_of_valid (hvalid part hpart)⟩⟩
  rw [nameParts, splitOnP_slash (portable_separator h)]
  exact filter_eq_self.2 fun part hpart => by simpa using hsome part hpart

theorem endsInSeparator_of_valid (h : FatRelativePath path maximum) : endsInSeparator path = false := by
  rw [endsInSeparator, Bool.eq_false_iff]
  intro hends
  obtain ⟨front, value, rfl⟩ := (eq_nil_or_concat' path).resolve_left (length_pos_iff.1 h.length_pos.1)
  obtain rfl := portable_separator h value (by simp) (by simpa using hends)
  have hlast : [] ∈ (front ++ [slash]).splitOn slash := by
    rw [splitOn_append_cons_self]
    simp
  exact ((nameParts_of_valid h).2 [] hlast).1 rfl

/-- The name of an entry with a portable path, as it stands in the archive, is normalized already. -/
theorem normalizeLenientPath_stored {entry : ZipEntry}
    (h : FatRelativePath entry.path maximum) (hcapacity : (storedName entry).length < capacity) :
    normalizeLenientPath capacity (storedName entry) = some (storedName entry, entry.isDirectory) := by
  obtain ⟨hparts, hpieces⟩ := nameParts_of_valid h
  have hjoin : [slash].intercalate ((nameParts entry.path).map trimmedPart) = entry.path := by
    rw [hparts, map_congr_left fun part hpart => (hpieces part hpart).2, map_id', intercalate_splitOn]
  have hstored : nameParts (storedName entry) = nameParts entry.path := by
    unfold storedName
    split
    · rw [nameParts, splitOnP_append_cons _ _ (by rfl), filter_append]
      exact append_nil _
    · rfl
  rw [normalizeLenientPath_iff, lenientName, hstored, hjoin, hparts]
  refine ⟨splitOn_ne_nil _ _, fun part hpart => ?_, ?_, ?_, hcapacity⟩
  · rw [(hpieces part hpart).2]
    exact (hpieces part hpart).1
  · unfold storedName
    split
    · rw [if_pos (by simp [endsInSeparator, isSeparator])]
    · rw [if_neg (by simp [endsInSeparator_of_valid h]), append_nil]
  · unfold storedName
    cases entry.isDirectory with
    | true => simp [endsInSeparator, isSeparator]
    | false => exact endsInSeparator_of_valid h

end Bmx.Zip
