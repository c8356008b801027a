import Bmx.Switch.BootPlanSpec

/-!
# Rendering replaces what is managed

A rendered config.txt has the plan's options between its markers and its own lines around them, a rendered
cmdline.txt its own lines around the one with the options. Rendering it again with the same plan changes nothing.
-/

namespace Bmx.Switch

open List

theorem foldlM_at {σ α : Type} {f : σ → α → Option σ} {before after : List α} {a : α} {s s₁ s' : σ}
    (hbefore : before.foldlM f s = some s₁) (h : (before ++ a :: after).foldlM f s = some s') :
    ∃ s₂, f s₁ a = some s₂ ∧ after.foldlM f s₂ = some s' := by
  rw [foldlM_append, hbefore] at h
  exact Option.bind_eq_some_iff.1 h

/-! ### The lines of a file -/

abbrev Reads : Type := List (Bytes × Bool)

def Reads.text (reads : Reads) : Bytes := (reads.map Prod.fst).flatten

theorem Reads.text_append (before after : Reads) : Reads.text (before ++ after) = before.text ++ after.text := by
  simp [Reads.text]

theorem Reads.text_cons (read : Bytes × Bool) (after : Reads) : Reads.text (read :: after) = read.1 ++ after.text := rfl

theorem readsFrom_text (line input : Bytes) : Reads.text (readsFrom line input) = line ++ input := by
  induction input generalizing line with
  | nil =>
    rw [readsFrom]
    split
    · next hline => rw [hline]; rfl
    · rw [Reads.text_cons]
      rfl
  | cons c input ih =>
    rw [readsFrom]
    split
    · rw [Reads.text_cons, ih, nil_append, append_assoc]
      rfl
    · rw [ih, append_assoc]
      rfl

theorem fileReads_text (input : Bytes) : Reads.text (fileReads input) = input := readsFrom_text [] input

variable {line input output : Bytes} {read : Bytes × Bool} {after before : Reads} {plan : BootPlan}
  {s s' : ConfigRender}

theorem readsFrom_tail (h : readsFrom line input = read :: after) : ∃ rest, after = fileReads rest := by
  induction input generalizing line with
  | nil =>
    rw [readsFrom] at h
    split at h
    · cases h
    · cases h
      exact ⟨[], rfl⟩
  | cons c input ih =>
    rw [readsFrom] at h
    split at h
    · cases h
      exact ⟨input, rfl⟩
    · exact ih h

theorem fileReads_after {input : Bytes} {before after : Reads} (h : fileReads input = before ++ after) :
    fileReads after.text = after := by
  have hrest : ∃ rest, after = fileReads rest := by
    induction before generalizing input with
    | nil => exact ⟨input, h.symm⟩
    | cons read before ih =>
      obtain ⟨rest, hrest⟩ := readsFrom_tail h
      exact ih hrest.symm
  obtain ⟨rest, rfl⟩ := hrest
  rw [fileReads_text]

theorem readsFrom_whole {line text : Bytes} (htext : lf ∉ text) (hlength : (line ++ text).length + 1 < configTxtLineLen)
    (input : Bytes) : readsFrom line (text ++ lf :: input) = (line ++ text ++ [lf], false) :: fileReads input := by
  induction text generalizing line with
  | nil => simp [readsFrom, fileReads]
  | cons c text ih =>
    have hc : c ≠ lf := fun h => htext (h ▸ mem_cons_self ..)
    have hshort : line.length + 2 ≠ configTxtLineLen := by
      rw [length_append, length_cons] at hlength
      omega
    have hrest := @ih (line ++ [c]) (fun h => htext (mem_cons_of_mem _ h)) (by simpa using hlength)
    rw [cons_append, readsFrom, if_neg (by simp [hc, hshort]), hrest]
    simp

theorem fileReads_whole (hline : WholeLine line) (input : Bytes) :
    fileReads (line ++ input) = (line, false) :: fileReads input := by
  obtain ⟨text, rfl, htext, hlength⟩ := hline
  have hread := @readsFrom_whole [] text htext (by simpa using hlength) input
  simpa [fileReads] using hread

theorem fileReads_wholes {lines : List Bytes} (hlines : ∀ line ∈ lines, WholeLine line) (input : Bytes) :
    fileReads (lines.flatten ++ input) = lines.map (fun line => (line, false)) ++ fileReads input := by
  induction lines with
  | nil => rfl
  | cons line lines ih =>
    rw [flatten_cons, append_assoc, fileReads_whole (hlines line (mem_cons_self ..)),
      ih fun other hin => hlines other (mem_cons_of_mem _ hin)]
    rfl

theorem readsFrom_shape (hline : lf ∉ line)
    (hlength : line.length + 1 < configTxtLineLen) (h : readsFrom line input = read :: after) :
    (read.2 = true ∧ after = [] ∧ lf ∉ read.1) ∨ (read.2 = false ∧ (lf ∈ read.1 → WholeLine read.1)) := by
  induction input generalizing line with
  | nil =>
    rw [readsFrom] at h
    split at h
    · cases h
    · cases h
      exact .inl ⟨rfl, rfl, hline⟩
  | cons c input ih =>
    rw [readsFrom] at h
    split at h
    · next hend =>
      cases h
      refine .inr ⟨rfl, fun hin => ⟨line, ?_, hline, hlength⟩⟩
      rw [mem_append, mem_singleton] at hin
      rw [hin.resolve_left hline]
    · next hend =>
      rw [not_or] at hend
      refine ih ?_ ?_ h
      · rw [mem_append, mem_singleton, not_or]
        exact ⟨hline, fun h => hend.1 h.symm⟩
      · rw [length_append, length_singleton]
        omega

theorem readsFrom_ne (h : readsFrom line input = read :: after) : read.1 ≠ [] := by
  induction input generalizing line with
  | nil =>
    rw [readsFrom] at h
    split at h
    · cases h
    · next hline =>
      cases h
      exact hline
  | cons c input ih =>
    rw [readsFrom] at h
    split at h
    · cases h
      simp
    · exact ih h

theorem wholeLine_of_reads (h : fileReads input = before ++ read :: after) (hafter : after ≠ [])
    (hfits : overlong read.1 read.2 = false) : WholeLine read.1 ∧ read.2 = false := by
  have hread := fileReads_after h
  rcases readsFrom_shape not_mem_nil (by decide) hread with ⟨-, hnil, -⟩ | ⟨heof, hwhole⟩
  · exact absurd hnil hafter
  · refine ⟨hwhole ?_, heof⟩
    simpa [overlong, heof] using hfits

theorem cString_of_nul (hline : 0 ∉ line) : cString line = line :=
  takeWhile_eq_self_iff.2 fun c hc => decide_eq_true fun h => hline (by rw [← h]; exact hc)

theorem nul_of_reads (hinput : 0 ∉ input) (hread : read ∈ fileReads input) :
    0 ∉ read.1 := fun h => by
  apply hinput
  rw [← fileReads_text input]
  exact mem_flatten.2 ⟨read.1, mem_map_of_mem hread, h⟩

def Reads.strings (reads : Reads) : Bytes := (reads.map fun read => cString read.1).flatten

variable {reads : Reads}

theorem Reads.strings_text (hreads : ∀ read ∈ reads, 0 ∉ read.1) : reads.strings = reads.text := by
  unfold Reads.strings Reads.text
  exact congrArg List.flatten (map_congr_left fun read hin => cString_of_nul (hreads read hin))

/-! ### config.txt -/

def fits (read : Bytes × Bool) : Prop := overlong (cString read.1) read.2 = false

def lineMarker (read : Bytes × Bool) : Option ConfigMarker := markerOf (cString read.1)

def managedBlock (plan : BootPlan) : Bytes :=
  configBeginMarker ++ lf :: (plan.configOptions ++ (configEndMarker ++ [lf]))

theorem renderConfigLine_eq (plan : BootPlan) (s : ConfigRender) (hfits : fits read) :
    renderConfigLine plan s read =
      match lineMarker read with
      | some .opening =>
        if s.inManagedBlock || s.foundBegin then none
        else some { s with output := s.output ++ managedBlock plan, inManagedBlock := true, foundBegin := true }
      | some .closing => if !s.inManagedBlock then none else some { s with inManagedBlock := false, foundEnd := true }
      | none => if !s.inManagedBlock then some { s with output := s.output ++ cString read.1 } else some s := by
  have hfits' : ¬ overlong (cString read.1) read.2 := Bool.eq_false_iff.1 hfits
  unfold renderConfigLine lineMarker markerOf
  simp only [hfits', Bool.false_eq_true, if_false]
  split
  · rfl
  · split <;> rfl

theorem fits_of_renderConfigLine (h : renderConfigLine plan s read = some s') : fits read := by
  unfold renderConfigLine at h
  unfold fits
  by_contra hlong
  simp [hlong] at h

theorem renderConfig_outside {plan : BootPlan} {s : ConfigRender} (hout : s.inManagedBlock = false) {reads : Reads}
    (hfits : ∀ read ∈ reads, fits read) (hplain : ∀ read ∈ reads, lineMarker read = none) :
    reads.foldlM (renderConfigLine plan) s = some { s with output := s.output ++ reads.strings } := by
  induction reads generalizing s with
  | nil => simp [Reads.strings]
  | cons read reads ih =>
    have hline : renderConfigLine plan s read = some { s with output := s.output ++ cString read.1 } := by
      rw [renderConfigLine_eq plan s (hfits read (mem_cons_self ..)), hplain read (mem_cons_self ..)]
      simp [hout]
    rw [foldlM_cons, hline]
    have hrest := @ih { s with output := s.output ++ cString read.1 } hout
      (fun other hin => hfits other (mem_cons_of_mem _ hin))
      fun other hin => hplain other (mem_cons_of_mem _ hin)
    refine hrest.trans ?_
    simp [Reads.strings]

theorem renderConfig_inside {plan : BootPlan} {s : ConfigRender} (hin : s.inManagedBlock) {reads : Reads}
    (hfits : ∀ read ∈ reads, fits read) (hplain : ∀ read ∈ reads, lineMarker read = none) :
    reads.foldlM (renderConfigLine plan) s = some s := by
  induction reads with
  | nil => rfl
  | cons read reads ih =>
    have hline : renderConfigLine plan s read = some s := by
      rw [renderConfigLine_eq plan s (hfits read (mem_cons_self ..)), hplain read (mem_cons_self ..)]
      simp [hin]
    rw [foldlM_cons, hline]
    exact ih (fun other hin => hfits other (mem_cons_of_mem _ hin))
      fun other hin => hplain other (mem_cons_of_mem _ hin)

theorem reads_split (reads : Reads) :
    (∀ read ∈ reads, lineMarker read = none) ∨
      ∃ before read after marker, reads = before ++ read :: after ∧ (∀ other ∈ before, lineMarker other = none) ∧
        lineMarker read = some marker := by
  induction reads with
  | nil => exact .inl (by simp)
  | cons read reads ih =>
    cases hread : lineMarker read with
    | some marker => exact .inr ⟨[], read, reads, marker, rfl, by simp, hread⟩
    | none =>
      rcases ih with hplain | ⟨before, other, after, marker, rfl, hplain, hmarker⟩
      · exact .inl (by simpa [hread] using hplain)
      · exact .inr ⟨read :: before, other, after, marker, rfl, by simpa [hread] using hplain, hmarker⟩

/-- A config.txt with one block. -/
structure OneBlock (reads before inside after : Reads) (opening closing : Bytes × Bool) : Prop where
  reads : reads = before ++ opening :: (inside ++ closing :: after)
  opening : lineMarker opening = some .opening
  closing : lineMarker closing = some .closing
  before : ∀ read ∈ before, lineMarker read = none
  inside : ∀ read ∈ inside, lineMarker read = none
  after : ∀ read ∈ after, lineMarker read = none

theorem renderConfigFile_oneBlock {plan : BootPlan} {input : Bytes} {before inside after : Reads}
    {opening closing : Bytes × Bool} (hblock : OneBlock (fileReads input) before inside after opening closing)
    (hfits : ∀ read ∈ fileReads input, fits read) :
    renderConfigFile plan input = some (before.strings ++ managedBlock plan ++ after.strings) := by
  have hmem : ∀ read, read ∈ before ∨ read = opening ∨ read ∈ inside ∨ read = closing ∨ read ∈ after → fits read := by
    intro read hin
    refine hfits read ?_
    rw [hblock.reads]
    simpa using hin
  have hbefore := @renderConfig_outside plan {} rfl before (fun read hin => hmem read (.inl hin)) hblock.before
  have hopening := renderConfigLine_eq plan { output := before.strings } (hmem opening (.inr (.inl rfl)))
  rw [hblock.opening] at hopening
  have hinside := @renderConfig_inside plan
    { output := before.strings ++ managedBlock plan, inManagedBlock := true, foundBegin := true } rfl inside
    (fun read hin => hmem read (.inr (.inr (.inl hin)))) hblock.inside
  have hclosing := renderConfigLine_eq plan
    { output := before.strings ++ managedBlock plan, inManagedBlock := true, foundBegin := true }
    (hmem closing (.inr (.inr (.inr (.inl rfl)))))
  rw [hblock.closing] at hclosing
  have hafter := @renderConfig_outside plan
    { output := before.strings ++ managedBlock plan, foundBegin := true, foundEnd := true } rfl after
    (fun read hin => hmem read (.inr (.inr (.inr (.inr hin))))) hblock.after
  unfold renderConfigFile
  rw [hblock.reads, foldlM_append, hbefore]
  simp only [nil_append, Option.bind_eq_bind, Option.bind_some, foldlM_cons, foldlM_append]
  rw [hopening]
  simp only [Bool.or_self, Bool.false_eq_true, if_false, Option.bind_some]
  rw [hinside]
  simp only [Option.bind_some]
  rw [hclosing]
  simp only [Bool.not_true, Bool.false_eq_true, if_false, Option.bind_some]
  rw [hafter]
  rfl

theorem forall_of_foldlM {σ α : Type} {step : σ → α → Option σ} {P : α → Prop}
    (hstep : ∀ s a s', step s a = some s' → P a) {items : List α} {s s' : σ} (h : items.foldlM step s = some s') :
    ∀ a ∈ items, P a := by
  induction items generalizing s with
  | nil => simp
  | cons a items ih =>
    obtain ⟨between, hfirst, hrest⟩ := Option.bind_eq_some_iff.1 h
    exact forall_mem_cons.2 ⟨hstep s a between hfirst, ih hrest⟩

/-- A config.txt that is rendered has one block, and no line of it is too long. -/
theorem oneBlock_of_renderConfigFile (h : renderConfigFile plan input = some output) :
    (∀ read ∈ fileReads input, fits read) ∧
      ∃ before inside after opening closing, OneBlock (fileReads input) before inside after opening closing := by
  obtain ⟨s, hfold, hend⟩ := Option.bind_eq_some_iff.1 h
  have hfits := forall_of_foldlM (fun _ _ _ hline => fits_of_renderConfigLine hline) hfold
  refine ⟨hfits, ?_⟩
  have hdone : s.inManagedBlock = false ∧ s.foundBegin ∧ s.foundEnd := by
    by_contra hopen
    have hnone : s.inManagedBlock || !s.foundBegin || !s.foundEnd := by
      cases hin : s.inManagedBlock <;> cases hbegin : s.foundBegin <;> cases hclose : s.foundEnd <;> simp_all
    rw [if_pos hnone] at hend
    cases hend
  generalize fileReads input = reads at hfold hfits
  rcases reads_split reads with hplain | ⟨before, opening, after, marker, rfl, hbefore, hmarker⟩
  · have houtside := @renderConfig_outside plan {} rfl reads hfits hplain
    rw [houtside] at hfold
    cases hfold
    simp at hdone
  have houtside := @renderConfig_outside plan {} rfl before
    (fun read hin => hfits read (mem_append_left _ hin)) hbefore
  obtain ⟨s₂, hopening, hfold⟩ := foldlM_at houtside hfold
  rw [renderConfigLine_eq plan _ (hfits opening (by simp)), hmarker] at hopening
  cases marker with
  | closing => simp at hopening
  | opening =>
    have hafter : ∀ read ∈ after, fits read := fun read hin => hfits read (by simp [hin])
    simp only [Bool.or_self, Bool.false_eq_true, if_false, Option.some.injEq] at hopening
    rcases reads_split after with hplain | ⟨inside, closing, rest, marker', rfl, hinside, hmarker'⟩
    · have hopen := @renderConfig_inside plan s₂ (by rw [← hopening]) after hafter hplain
      rw [hopen] at hfold
      cases hfold
      rw [← hopening] at hdone
      simp at hdone
    have hopen := @renderConfig_inside plan s₂ (by rw [← hopening]) inside
      (fun read hin => hafter read (mem_append_left _ hin)) hinside
    obtain ⟨s₃, hclosing, hfold⟩ := foldlM_at hopen hfold
    rw [renderConfigLine_eq plan _ (hafter closing (by simp)), hmarker', ← hopening] at hclosing
    cases marker' with
    | opening => simp at hclosing
    | closing =>
      simp only [Bool.not_true, Bool.false_eq_true, if_false, Option.some.injEq] at hclosing
      have hrest : ∀ read ∈ rest, fits read := fun read hin => hafter read (by simp [hin])
      rcases reads_split rest with hplain | ⟨before', again, rest', marker'', rfl, hbefore', hmarker''⟩
      · exact ⟨before, inside, rest, opening, closing, rfl, hmarker, hmarker', hbefore, hinside, hplain⟩
      have hclosed := @renderConfig_outside plan s₃ (by rw [← hclosing]) before'
        (fun read hin => hrest read (mem_append_left _ hin)) hbefore'
      obtain ⟨s₄, hagain, -⟩ := foldlM_at hclosed hfold
      rw [renderConfigLine_eq plan _ (hrest again (by simp)), hmarker'', ← hclosing] at hagain
      cases marker'' <;> simp at hagain

/-- The markers of a file, in order. -/
def configMarkers (input : Bytes) : List ConfigMarker := (fileReads input).filterMap lineMarker

theorem OneBlock.markers {inside : Reads} {opening closing : Bytes × Bool}
    (hblock : OneBlock reads before inside after opening closing) :
    reads.filterMap lineMarker = [.opening, .closing] := by
  rw [hblock.reads, filterMap_append, filterMap_cons, hblock.opening, filterMap_append, filterMap_cons, hblock.closing,
    filterMap_eq_nil_iff.2 hblock.before, filterMap_eq_nil_iff.2 hblock.inside, filterMap_eq_nil_iff.2 hblock.after]
  rfl

/-- A file whose block is missing, repeated, nested or not closed is refused. -/
theorem renderConfigFile_refused
    (hmarkers : configMarkers input ≠ [.opening, .closing]) : renderConfigFile plan input = none := by
  cases hrender : renderConfigFile plan input with
  | none => rfl
  | some output =>
    obtain ⟨-, before, inside, after, opening, closing, hblock⟩ := oneBlock_of_renderConfigFile hrender
    exact absurd hblock.markers hmarkers

/-- A rendered config.txt: its lines around the block are those of the input, and the block is the plan's. -/
structure ConfigRendered (plan : BootPlan) (input output : Bytes) : Prop where
  frame : ∃ before inside after opening closing, OneBlock (fileReads input) before inside after opening closing ∧
    input = before.text ++ opening.1 ++ inside.text ++ closing.1 ++ after.text ∧
    output = before.text ++ (configBeginMarker ++ [lf]) ++ plan.configOptions ++ (configEndMarker ++ [lf]) ++ after.text
  again : renderConfigFile plan output = some output

theorem opening_canonical : lineMarker (configBeginMarker ++ [lf], false) = some .opening := by decide

theorem closing_canonical : lineMarker (configEndMarker ++ [lf], false) = some .closing := by decide

theorem wholeLine_opening : WholeLine (configBeginMarker ++ [lf]) := ⟨configBeginMarker, rfl, by decide, by decide⟩

theorem wholeLine_closing : WholeLine (configEndMarker ++ [lf]) := ⟨configEndMarker, rfl, by decide, by decide⟩

theorem fits_whole (hline : WholeLine line) (hnul : 0 ∉ line) : fits (line, false) := by
  obtain ⟨text, rfl, -, -⟩ := hline
  simp [fits, overlong, cString_of_nul hnul]

theorem wholes_of_all (hreads : ∀ read ∈ reads, WholeLine read.1 ∧ read.2 = false) :
    (∀ line ∈ reads.map Prod.fst, WholeLine line) ∧ reads = (reads.map Prod.fst).map fun line => (line, false) := by
  refine ⟨fun line hin => ?_, ?_⟩
  · obtain ⟨read, hread, rfl⟩ := mem_map.1 hin
    exact (hreads read hread).1
  · rw [map_map]
    refine ((map_congr_left fun read hin => ?_).trans (List.map_id reads)).symm
    exact Prod.ext rfl (hreads read hin).2.symm

theorem wholes_of_reads (h : fileReads input = before ++ after)
    (hafter : after ≠ []) (hnul : 0 ∉ input) (hfits : ∀ read ∈ fileReads input, fits read) :
    (∀ line ∈ before.map Prod.fst, WholeLine line) ∧ before = (before.map Prod.fst).map fun line => (line, false) := by
  refine wholes_of_all fun read hin => ?_
  obtain ⟨first, rest, rfl⟩ := append_of_mem hin
  have hmem : read ∈ fileReads input := by simp [h]
  have hfits' := hfits read hmem
  rw [fits, cString_of_nul (nul_of_reads hnul hmem)] at hfits'
  rw [append_assoc, cons_append] at h
  exact wholeLine_of_reads h (by simp [hafter]) hfits'

theorem configRendered (hplan : plan.Built) (hinput : 0 ∉ input)
    (h : renderConfigFile plan input = some output) : ConfigRendered plan input output := by
  obtain ⟨hfits, before, inside, after, opening, closing, hblock⟩ := oneBlock_of_renderConfigFile h
  obtain ⟨options, hoptions, hwhole⟩ := hplan.wellFormed.config
  have hmem : ∀ read, read ∈ before ∨ read ∈ after → read ∈ fileReads input := by
    intro read hin
    rw [hblock.reads]
    rcases hin with hin | hin <;> simp [hin]
  have hbefore : before.strings = before.text :=
    Reads.strings_text fun read hin => nul_of_reads hinput (hmem read (.inl hin))
  have hafter : after.strings = after.text :=
    Reads.strings_text fun read hin => nul_of_reads hinput (hmem read (.inr hin))
  have houtput := @renderConfigFile_oneBlock plan _ _ _ _ _ _ hblock hfits
  rw [h, hbefore, hafter, managedBlock] at houtput
  have houtput' : output = before.text ++ (configBeginMarker ++ [lf]) ++ plan.configOptions ++
      (configEndMarker ++ [lf]) ++ after.text := by
    rw [Option.some.inj houtput]
    simp
  have hinput' : input = before.text ++ opening.1 ++ inside.text ++ closing.1 ++ after.text := by
    conv => lhs; rw [← fileReads_text input, hblock.reads]
    simp [Reads.text_append, Reads.text_cons]
  refine ⟨⟨before, inside, after, opening, closing, hblock, hinput', houtput'⟩, ?_⟩
  obtain ⟨hlines, hbeforeReads⟩ := wholes_of_reads hblock.reads (by simp) hinput hfits
  have hafterReads : fileReads after.text = after := by
    refine @fileReads_after input (before ++ opening :: (inside ++ [closing])) after ?_
    rw [hblock.reads]
    simp
  have hreads : fileReads output = before ++ (configBeginMarker ++ [lf], false) ::
      (options.map (fun line => (line, false)) ++ (configEndMarker ++ [lf], false) :: after) := by
    rw [houtput', hoptions, Reads.text]
    simp only [append_assoc]
    rw [fileReads_wholes hlines, ← hbeforeReads, ← append_assoc configBeginMarker, fileReads_whole wholeLine_opening,
      fileReads_wholes fun line hin => (hwhole line hin).1, ← append_assoc configEndMarker,
      fileReads_whole wholeLine_closing, hafterReads]
  have hrendered : OneBlock (fileReads output) before (options.map fun line => (line, false)) after
      (configBeginMarker ++ [lf], false) (configEndMarker ++ [lf], false) := by
    refine ⟨hreads, opening_canonical, closing_canonical, hblock.before, fun read hin => ?_, hblock.after⟩
    obtain ⟨line, hline, rfl⟩ := mem_map.1 hin
    rw [lineMarker, cString_of_nul (hwhole line hline).2.1]
    exact (hwhole line hline).2.2
  have hfits' : ∀ read ∈ fileReads output, fits read := by
    intro read hin
    rw [hreads] at hin
    simp only [mem_append, mem_cons, mem_map] at hin
    rcases hin with hin | rfl | ⟨line, hin, rfl⟩ | rfl | hin
    · exact hfits read (hmem read (.inl hin))
    · exact fits_whole wholeLine_opening (by decide)
    · exact fits_whole (hwhole line hin).1 (hwhole line hin).2.1
    · exact fits_whole wholeLine_closing (by decide)
    · exact hfits read (hmem read (.inr hin))
  rw [renderConfigFile_oneBlock hrendered hfits', hbefore, hafter, houtput', managedBlock]
  simp

end Bmx.Switch
