import Bmx.Switch.BootFilesSpec

/-!
# Rendering the command line

Of the one line with content the options with unmanaged keys are kept, and the plan's options follow them. The other
lines stay as they are.
-/

namespace Bmx.Switch

open Reads List

/-! ### The options of a line -/

def keptOptions (plan : BootPlan) (line : Bytes) : List Bytes :=
  (words isOptionEnd line).filter fun token => !cmdlineKeyManaged plan (optionKey token)

def planOptions (plan : BootPlan) : List Bytes := words isOptionEnd plan.cmdlineOptions

def renderedLine (plan : BootPlan) (line : Bytes) : Bytes :=
  joined space (keptOptions plan line ++ planOptions plan) ++ [lf]

section Options

variable {plan : BootPlan}

theorem planOptions_spec (hplan : plan.WellFormed) :
    plan.cmdlineOptions = joined space (planOptions plan) ∧
      ∀ option ∈ planOptions plan, option ≠ [] ∧ (∀ c ∈ option, isOptionEnd c = false ∧ c ≠ 0) ∧
        cmdlineKeyManaged plan (optionKey option) ∧ cmdlineContentLine option := by
  obtain ⟨options, hoptions, hall⟩ := hplan.cmdline
  have hwords : planOptions plan = options := by
    rw [planOptions, hoptions]
    exact words_joined rfl (fun option hin => (hall option hin).1) fun option hin c hc => ((hall option hin).2.1 c hc).1
  rw [hwords]
  exact ⟨hoptions, hall⟩

variable {before tokens : List Bytes}

theorem appendOption_joined (hbefore : ∀ token ∈ before, token ≠ []) {after : List Bytes} (hafter : after ≠ []) :
    appendOption (joined space before) (joined space after) =
      if (joined space (before ++ after)).length < configTxtLineLen then some (joined space (before ++ after)) else none := by
  have hjoined : joined space before ++ ((if joined space before = [] then [] else [space]) ++ joined space after) =
      joined space (before ++ after) := by
    by_cases hempty : before = []
    · simp [hempty, joined]
    · rw [if_neg (mt (joined_eq_nil hbefore).1 hempty), joined_append hempty hafter]
      simp
  rw [appendOption, appendFormat, ← length_append, hjoined]

theorem keepOptions_some {output : Bytes} (hbefore : ∀ token ∈ before, token ≠ [])
    (htokens : ∀ token ∈ tokens, token ≠ [])
    (h : tokens.foldlM (keepOption plan) (joined space before) = some output) :
    output = joined space (before ++ tokens.filter fun token => !cmdlineKeyManaged plan (optionKey token)) := by
  induction tokens generalizing before with
  | nil =>
    cases h
    simp
  | cons token tokens ih =>
    have hrest := fun other hin => htokens other (mem_cons_of_mem _ hin)
    obtain ⟨between, hkeep, h⟩ := Option.bind_eq_some_iff.1 h
    unfold keepOption at hkeep
    by_cases hmanaged : cmdlineKeyManaged plan (optionKey token)
    · rw [if_pos hmanaged] at hkeep
      cases hkeep
      rw [ih hbefore hrest h, filter_cons_of_neg (by simp [hmanaged])]
    · have happend := @appendOption_joined before hbefore [token] (cons_ne_nil _ _)
      rw [if_neg hmanaged] at hkeep
      rw [joined] at happend
      rw [happend] at hkeep
      split at hkeep
      · cases hkeep
        have hbefore' : ∀ other ∈ before ++ [token], other ≠ [] :=
          forall_mem_append.2 ⟨hbefore, forall_mem_singleton.2 (htokens token mem_cons_self)⟩
        rw [ih hbefore' hrest h, filter_cons_of_pos (by simp [hmanaged]), append_assoc]
        rfl
      · cases hkeep

theorem joined_length_append (before after : List Bytes) :
    (joined space before).length ≤ (joined space (before ++ after)).length := by
  by_cases hbefore : before = []
  · simp [hbefore, joined]
  · by_cases hafter : after = []
    · simp [hafter]
    · rw [joined_append hbefore hafter, length_append]
      omega

theorem keepOptions_fits (hbefore : ∀ token ∈ before, token ≠ []) (htokens : ∀ token ∈ tokens, token ≠ [])
    (hfits : (joined space (before ++ tokens.filter fun token => !cmdlineKeyManaged plan (optionKey token))).length <
      configTxtLineLen) :
    tokens.foldlM (keepOption plan) (joined space before) =
      some (joined space (before ++ tokens.filter fun token => !cmdlineKeyManaged plan (optionKey token))) := by
  induction tokens generalizing before with
  | nil => simp
  | cons token tokens ih =>
    have hrest := fun other hin => htokens other (mem_cons_of_mem _ hin)
    rw [foldlM_cons, keepOption]
    by_cases hmanaged : cmdlineKeyManaged plan (optionKey token)
    · rw [filter_cons_of_neg (by simp [hmanaged])] at hfits ⊢
      rw [if_pos hmanaged]
      exact ih hbefore hrest hfits
    · have happend := @appendOption_joined before hbefore [token] (cons_ne_nil _ _)
      rw [filter_cons_of_pos (by simp [hmanaged]), ← singleton_append, ← append_assoc] at hfits ⊢
      have hlength := joined_length_append (before ++ [token])
        (tokens.filter fun token => !cmdlineKeyManaged plan (optionKey token))
      rw [joined, if_pos (by omega)] at happend
      have hbefore' : ∀ other ∈ before ++ [token], other ≠ [] :=
        forall_mem_append.2 ⟨hbefore, forall_mem_singleton.2 (htokens token mem_cons_self)⟩
      rw [if_neg hmanaged, happend]
      exact ih hbefore' hrest hfits

theorem keptOptions_nonempty (plan : BootPlan) (line : Bytes) : ∀ token ∈ keptOptions plan line, token ≠ [] :=
  fun token hin => words_nonempty line token (mem_filter.1 hin).1

theorem renderCmdline_eq (hplan : plan.WellFormed) (line : Bytes) :
    renderCmdline plan line =
      if (renderedLine plan line).length < configTxtLineLen then some (renderedLine plan line) else none := by
  obtain ⟨hoptions, hall⟩ := planOptions_spec hplan
  have hkeptNe := keptOptions_nonempty plan line
  have hnil : joined space [] = ([] : Bytes) := rfl
  have hlonger := joined_length_append (keptOptions plan line) (planOptions plan)
  have hlength : (renderedLine plan line).length =
      (joined space (keptOptions plan line ++ planOptions plan)).length + 1 := by
    rw [renderedLine, length_append, length_singleton]
  have hlast : ∀ output : Bytes, output = joined space (keptOptions plan line ++ planOptions plan) →
      (if output.length + 1 ≥ configTxtLineLen then none else pure (output ++ [lf]) : Option Bytes) =
        if (renderedLine plan line).length < configTxtLineLen then some (renderedLine plan line) else none := by
    intro output houtput
    by_cases hshort : (renderedLine plan line).length < configTxtLineLen
    · rw [if_pos hshort, houtput, if_neg (by omega)]
      rfl
    · rw [if_neg hshort, houtput, if_pos (by omega)]
  have hadd : (if plan.cmdlineOptions ≠ [] then
        (appendOption (joined space (keptOptions plan line)) plan.cmdlineOptions).bind fun output =>
          if output.length + 1 ≥ configTxtLineLen then none else pure (output ++ [lf])
      else
        if (joined space (keptOptions plan line)).length + 1 ≥ configTxtLineLen then none
        else pure (joined space (keptOptions plan line) ++ [lf])) =
      if (renderedLine plan line).length < configTxtLineLen then some (renderedLine plan line) else none := by
    by_cases hempty : plan.cmdlineOptions = []
    · have hnone : planOptions plan = [] := by rw [planOptions, hempty, words_nil]
      rw [if_neg (not_not.2 hempty)]
      exact hlast _ (by rw [hnone, append_nil])
    · have hsome : planOptions plan ≠ [] := fun h => hempty (by rw [hoptions, h]; rfl)
      have happend := appendOption_joined hkeptNe hsome
      rw [← hoptions] at happend
      rw [if_pos hempty, happend]
      split
      · exact hlast _ rfl
      · rw [if_neg (by omega)]
        rfl
  unfold renderCmdline
  by_cases hkept : (joined space (keptOptions plan line)).length < configTxtLineLen
  · have hfold := @keepOptions_fits plan [] (words isOptionEnd line) (by simp) (words_nonempty line) hkept
    rw [hnil, nil_append] at hfold
    rw [hfold]
    exact hadd
  · have hlong : ¬ (renderedLine plan line).length < configTxtLineLen := by omega
    rw [if_neg hlong] at hadd ⊢
    cases hfold : (words isOptionEnd line).foldlM (keepOption plan) [] with
    | none => rfl
    | some output =>
      rw [← hnil] at hfold
      have houtput := keepOptions_some (by simp) (words_nonempty line) hfold
      rw [houtput]
      exact hadd

/-- The options of the line that is written: those that are kept, and those of the plan. -/
theorem words_renderedLine (hplan : plan.WellFormed) (line : Bytes) :
    words isOptionEnd (renderedLine plan line) = keptOptions plan line ++ planOptions plan := by
  obtain ⟨-, hall⟩ := planOptions_spec hplan
  have hne : ∀ token ∈ keptOptions plan line ++ planOptions plan, token ≠ [] := by
    intro token hin
    rcases mem_append.1 hin with hin | hin
    · exact keptOptions_nonempty plan line token hin
    · exact (hall token hin).1
  have hchars : ∀ token ∈ keptOptions plan line ++ planOptions plan, ∀ c ∈ token, isOptionEnd c = false := by
    intro token hin c hc
    rcases mem_append.1 hin with hin | hin
    · exact (words_chars line token (mem_filter.1 hin).1 c hc).2
    · exact ((hall token hin).2.1 c hc).1
  rw [renderedLine, words_append_sep rfl, words_joined rfl hne hchars, words_nil, append_nil]

theorem renderedLine_again (hplan : plan.WellFormed) (line : Bytes) :
    renderedLine plan (renderedLine plan line) = renderedLine plan line := by
  obtain ⟨-, hall⟩ := planOptions_spec hplan
  have hkept : keptOptions plan (renderedLine plan line) = keptOptions plan line := by
    conv => lhs; rw [keptOptions, words_renderedLine hplan, filter_append]
    have hmanaged : (planOptions plan).filter (fun token => !cmdlineKeyManaged plan (optionKey token)) = [] := by
      rw [filter_eq_nil_iff]
      intro token hin
      simp [(hall token hin).2.2.1]
    rw [hmanaged, append_nil, keptOptions, filter_filter]
    simp
  conv => lhs; rw [renderedLine, hkept]
  rfl

end Options

/-! ### cmdline.txt -/

def hasContent (read : Bytes × Bool) : Bool := cmdlineContentLine (cString read.1)

variable {read : Bytes × Bool} {plan : BootPlan} {s s' : CmdlineRender} {reads before after : Reads}
  {input output line : Bytes}

theorem renderCmdlineLine_eq (plan : BootPlan) (s : CmdlineRender) (hfits : fits read) :
    renderCmdlineLine plan s read =
      if hasContent read then
        if s.replaced then none
        else (renderCmdline plan (cString read.1)).map fun line => { output := s.output ++ line, replaced := true }
      else some { s with output := s.output ++ cString read.1 } := by
  have hfits' : ¬ overlong (cString read.1) read.2 := Bool.eq_false_iff.1 hfits
  unfold renderCmdlineLine hasContent
  simp only [hfits', Bool.false_eq_true, if_false]
  by_cases hcontent : cmdlineContentLine (cString read.1)
  · rw [if_pos hcontent, if_pos hcontent]
    split
    · rfl
    · cases renderCmdline plan (cString read.1) <;> rfl
  · rw [if_neg hcontent, if_neg hcontent]

theorem fits_of_renderCmdlineLine (h : renderCmdlineLine plan s read = some s') : fits read := by
  unfold renderCmdlineLine at h
  unfold fits
  by_contra hlong
  simp [hlong] at h

theorem renderCmdline_others (hfits : ∀ read ∈ reads, fits read) (hothers : ∀ read ∈ reads, ¬ hasContent read) :
    reads.foldlM (renderCmdlineLine plan) s = some { s with output := s.output ++ reads.strings } := by
  induction reads generalizing s with
  | nil => simp [strings]
  | cons read reads ih =>
    have hline := renderCmdlineLine_eq plan s (hfits read (mem_cons_self ..))
    rw [if_neg (hothers read (mem_cons_self ..))] at hline
    rw [foldlM_cons, hline]
    have hrest := @ih { s with output := s.output ++ cString read.1 }
      (fun other hin => hfits other (mem_cons_of_mem _ hin))
      fun other hin => hothers other (mem_cons_of_mem _ hin)
    refine hrest.trans ?_
    simp [strings]

theorem content_split (reads : Reads) :
    (∀ read ∈ reads, ¬ hasContent read) ∨
      ∃ before read after, reads = before ++ read :: after ∧ (∀ other ∈ before, ¬ hasContent other) ∧ hasContent read := by
  induction reads with
  | nil => exact .inl (by simp)
  | cons read reads ih =>
    by_cases hread : hasContent read
    · exact .inr ⟨[], read, reads, rfl, by simp, hread⟩
    · rcases ih with hothers | ⟨before, other, after, rfl, hothers, hcontent⟩
      · exact .inl (by simpa [hread] using hothers)
      · exact .inr ⟨read :: before, other, after, rfl, by simpa [hread] using hothers, hcontent⟩

theorem renderCmdlineFile_content (hplan : plan.WellFormed) (hreads : fileReads input = before ++ read :: after)
    (hfits : ∀ read ∈ fileReads input, fits read) (hbefore : ∀ read ∈ before, ¬ hasContent read)
    (hafter : ∀ read ∈ after, ¬ hasContent read) (hread : hasContent read) :
    renderCmdlineFile plan input =
      if (renderedLine plan (cString read.1)).length < configTxtLineLen then
        some (before.strings ++ renderedLine plan (cString read.1) ++ after.strings)
      else none := by
  rw [hreads] at hfits
  have hbefore' := @renderCmdline_others plan {} before (fun read hin => hfits read (mem_append_left _ hin)) hbefore
  have hline := renderCmdlineLine_eq plan { output := before.strings } (hfits read (by simp))
  rw [if_pos hread, renderCmdline_eq hplan] at hline
  simp only [Bool.false_eq_true, if_false] at hline
  unfold renderCmdlineFile
  rw [hreads, foldlM_append, hbefore']
  simp only [nil_append, Option.bind_eq_bind, Option.bind_some, foldlM_cons]
  rw [hline]
  by_cases hshort : (renderedLine plan (cString read.1)).length < configTxtLineLen
  · have hafter' := @renderCmdline_others plan
      { output := before.strings ++ renderedLine plan (cString read.1), replaced := true } after
      (fun read hin => hfits read (by simp [hin])) hafter
    rw [if_pos hshort, if_pos hshort, Option.map_some, Option.bind_some, hafter']
    rfl
  · rw [if_neg hshort, if_neg hshort]
    rfl

/-- Without one, the options are a line of their own behind the others. -/
theorem renderCmdlineFile_others (hfits : ∀ read ∈ fileReads input, fits read)
    (hothers : ∀ read ∈ fileReads input, ¬ hasContent read) :
    renderCmdlineFile plan input =
      if plan.cmdlineOptions.length + 1 < configTxtLineLen then
        some (strings (fileReads input) ++ (plan.cmdlineOptions ++ [lf]))
      else none := by
  have hfold := @renderCmdline_others plan {} _ hfits hothers
  unfold renderCmdlineFile
  rw [hfold]
  simp only [nil_append, Option.bind_eq_bind, Option.bind_some, Bool.false_eq_true, if_false]
  by_cases hshort : plan.cmdlineOptions.length + 1 < configTxtLineLen
  · rw [if_pos hshort, if_neg (by omega)]
    rfl
  · rw [if_neg hshort, if_pos (by omega)]

theorem fits_of_renderCmdlineFile
    (h : renderCmdlineFile plan input = some output) : ∀ read ∈ fileReads input, fits read := by
  obtain ⟨s, hfold, -⟩ := Option.bind_eq_some_iff.1 h
  exact forall_of_foldlM (fun _ _ _ hline => fits_of_renderCmdlineLine hline) hfold

theorem oneContent_of_renderCmdlineFile (h : renderCmdlineFile plan input = some output)
    (hreads : fileReads input = before ++ read :: after) (hbefore : ∀ read ∈ before, ¬ hasContent read)
    (hread : hasContent read) : ∀ other ∈ after, ¬ hasContent other := by
  have hfits := fits_of_renderCmdlineFile h
  obtain ⟨s, hfold, -⟩ := Option.bind_eq_some_iff.1 h
  rw [hreads] at hfold hfits
  rcases content_split after with hothers | ⟨middle, again, rest, rfl, hmiddle, hagain⟩
  · exact hothers
  have hbefore' := @renderCmdline_others plan {} before (fun read hin => hfits read (mem_append_left _ hin)) hbefore
  obtain ⟨s₁, hline, hfold⟩ := foldlM_at hbefore' hfold
  rw [renderCmdlineLine_eq plan _ (hfits read (by simp)), if_pos hread] at hline
  obtain ⟨line, -, hs₁⟩ := Option.map_eq_some_iff.1 hline
  have hmiddle' := @renderCmdline_others plan s₁ middle (fun read hin => hfits read (by simp [hin])) hmiddle
  obtain ⟨s₂, hline, -⟩ := foldlM_at hmiddle' hfold
  rw [renderCmdlineLine_eq plan _ (hfits again (by simp)), if_pos hagain, ← hs₁] at hline
  simp at hline

def contentLine (input : Bytes) : Bytes := ((fileReads input).find? hasContent).elim [] Prod.fst

/-- A file in which the options can be a line of their own: some line has content, or none is open. -/
def RoomForOptions (input : Bytes) : Prop :=
  (∃ read ∈ fileReads input, hasContent read) ∨ input = [] ∨ input.getLast? = some lf

/-- A rendered cmdline.txt: the lines around the options are those of the input, and the options are those that are kept
and those of the plan. -/
structure CmdlineRendered (plan : BootPlan) (input output : Bytes) : Prop where
  lines : ∃ before after : Reads,
    fileReads output = before ++ (renderedLine plan (contentLine input), false) :: after ∧
      (∀ read ∈ before ++ after, ¬ hasContent read) ∧
      ((∃ read, fileReads input = before ++ read :: after ∧ hasContent read) ∨ fileReads input = before ++ after)
  options : words isOptionEnd (renderedLine plan (contentLine input)) =
    keptOptions plan (contentLine input) ++ planOptions plan
  managed : ∀ option ∈ planOptions plan, cmdlineKeyManaged plan (optionKey option)
  again : cmdlineContentLine (renderedLine plan (contentLine input)) → renderCmdlineFile plan output = some output

theorem joined_chars (hplan : plan.WellFormed) (hline : 0 ∉ line) :
    ∀ c ∈ joined space (keptOptions plan line ++ planOptions plan), c ≠ lf ∧ c ≠ 0 := by
  obtain ⟨-, hall⟩ := planOptions_spec hplan
  have hend : ∀ c : UInt8, isOptionEnd c = false → c ≠ lf := fun c hc h => by
    rw [h] at hc
    cases hc
  intro c hc
  rcases mem_joined hc with rfl | ⟨token, hin, hc⟩
  · exact ⟨by decide, by decide⟩
  · rcases mem_append.1 hin with hin | hin
    · have hchar := words_chars line token (mem_filter.1 hin).1 c hc
      exact ⟨hend c hchar.2, fun h => hline (h ▸ hchar.1)⟩
    · have hchar := (hall token hin).2.1 c hc
      exact ⟨hend c hchar.1, hchar.2⟩

theorem renderedLine_nul (hplan : plan.WellFormed) (hline : 0 ∉ line) : 0 ∉ renderedLine plan line := by
  rw [renderedLine, mem_append, mem_singleton, not_or]
  exact ⟨fun hin => (joined_chars hplan hline 0 hin).2 rfl, by decide⟩

theorem wholeLine_rendered (hplan : plan.WellFormed) (hline : 0 ∉ line)
    (hfits : (renderedLine plan line).length < configTxtLineLen) : WholeLine (renderedLine plan line) := by
  rw [renderedLine, length_append, length_singleton] at hfits
  exact ⟨_, rfl, fun hin => (joined_chars hplan hline lf hin).1 rfl, hfits⟩

/-- The lines of a file in which the new line stands, and what rendering it does. -/
theorem rendered_reads (hplan : plan.WellFormed)
    (hline : 0 ∉ line) (hfits : (renderedLine plan line).length < configTxtLineLen)
    (hwhole : ∀ line ∈ before.map Prod.fst, WholeLine line)
    (hbefore : before = (before.map Prod.fst).map fun line => (line, false)) (hafter : fileReads after.text = after)
    (hall : ∀ read ∈ before ++ after, fits read ∧ 0 ∉ read.1 ∧ ¬ hasContent read)
    (houtput : output = before.text ++ renderedLine plan line ++ after.text) :
    fileReads output = before ++ (renderedLine plan line, false) :: after ∧
      (cmdlineContentLine (renderedLine plan line) → renderCmdlineFile plan output = some output) := by
  have hnul := renderedLine_nul hplan hline
  have hnew := wholeLine_rendered hplan hline hfits
  have hreads : fileReads output = before ++ (renderedLine plan line, false) :: after := by
    rw [houtput, append_assoc, text, fileReads_wholes hwhole, ← hbefore, fileReads_whole hnew, hafter]
  refine ⟨hreads, fun hcontent => ?_⟩
  have hsame : cString (renderedLine plan line) = renderedLine plan line := cString_of_nul hnul
  have hfits' : ∀ read ∈ fileReads output, fits read := by
    intro read hin
    rw [hreads, mem_append, mem_cons] at hin
    rcases hin with hin | rfl | hin
    · exact (hall read (mem_append_left _ hin)).1
    · exact fits_whole hnew hnul
    · exact (hall read (mem_append_right _ hin)).1
  have hrender := renderCmdlineFile_content hplan hreads hfits'
    (fun read hin => (hall read (mem_append_left _ hin)).2.2)
    (fun read hin => (hall read (mem_append_right _ hin)).2.2) (by rw [hasContent, hsame]; exact hcontent)
  rw [hsame, renderedLine_again hplan, if_pos hfits,
    strings_text fun read hin => (hall read (mem_append_left _ hin)).2.1,
    strings_text fun read hin => (hall read (mem_append_right _ hin)).2.1, ← houtput] at hrender
  exact hrender

theorem wholes_of_room (hinput : 0 ∉ input) (hroom : RoomForOptions input)
    (hothers : ∀ read ∈ fileReads input, ¬ hasContent read) (hfits : ∀ read ∈ fileReads input, fits read) :
    (∀ line ∈ (fileReads input).map Prod.fst, WholeLine line) ∧
      fileReads input = ((fileReads input).map Prod.fst).map fun line => (line, false) := by
  refine wholes_of_all fun read hin => ?_
  obtain ⟨first, rest, hreads⟩ := append_of_mem hin
  have hfits' := hfits read hin
  rw [fits, cString_of_nul (nul_of_reads hinput hin)] at hfits'
  by_cases hrest : rest = []
  · -- the last line is the one that the end of the file decides
    rw [hrest] at hreads
    have hlast := fileReads_after hreads
    have hne := readsFrom_ne hlast
    have hinput' : input = text first ++ read.1 := by
      conv => lhs; rw [← fileReads_text input, hreads]
      simp [text]
    rcases hroom with ⟨other, hother, hcontent⟩ | hempty | hended
    · exact absurd hcontent (hothers other hother)
    · rw [hempty] at hinput'
      exact absurd (append_eq_nil_iff.1 hinput'.symm).2 hne
    · rw [hinput', getLast?_append_of_ne_nil _ hne] at hended
      have hlf : lf ∈ read.1 := mem_of_getLast? hended
      rcases readsFrom_shape not_mem_nil (by decide) hlast with ⟨-, -, hopen⟩ | ⟨heof, hwhole⟩
      · exact absurd hlf hopen
      · exact ⟨hwhole hlf, heof⟩
  · exact wholeLine_of_reads hreads hrest hfits'

theorem cmdlineRendered (hplan : plan.Built) (hinput : 0 ∉ input)
    (hroom : RoomForOptions input) (h : renderCmdlineFile plan input = some output) :
    CmdlineRendered plan input output := by
  have hwellFormed := hplan.wellFormed
  have hfits := fits_of_renderCmdlineFile h
  obtain ⟨hoptions, hmanaged⟩ := planOptions_spec hwellFormed
  have hnul : ∀ read ∈ fileReads input, 0 ∉ read.1 := fun read hin => nul_of_reads hinput hin
  rcases content_split (fileReads input) with hothers | ⟨before, read, after, hreads, hbefore, hread⟩
  · have hline : contentLine input = [] := by
      rw [contentLine, find?_eq_none.2 fun read hin => hothers read hin]
      rfl
    have hnew : renderedLine plan [] = plan.cmdlineOptions ++ [lf] := by
      rw [renderedLine, keptOptions, words_nil, filter_nil, nil_append, ← hoptions]
    have hlength : (renderedLine plan []).length = plan.cmdlineOptions.length + 1 := by
      rw [hnew, length_append, length_singleton]
    have hrender := @renderCmdlineFile_others plan input hfits hothers
    rw [h, ← hnew, ← hlength, strings_text fun read hin => hnul read hin] at hrender
    split at hrender
    · next hshort =>
      obtain ⟨hwhole, hsame⟩ := wholes_of_room hinput hroom hothers hfits
      have hall : ∀ read ∈ fileReads input ++ [], fits read ∧ 0 ∉ read.1 ∧ ¬ hasContent read := by
        intro read hin
        rw [append_nil] at hin
        exact ⟨hfits read hin, hnul read hin, hothers read hin⟩
      obtain ⟨hlines, hagain⟩ := rendered_reads hwellFormed not_mem_nil hshort hwhole hsame rfl hall
        ((Option.some.inj hrender).trans (append_nil _).symm)
      refine ⟨?_, words_renderedLine hwellFormed _, fun option hin => (hmanaged option hin).2.2.1, ?_⟩
      · rw [hline]
        refine ⟨_, [], hlines, fun read hin => ?_, .inr (append_nil _).symm⟩
        rw [append_nil] at hin
        exact hothers read hin
      · rw [hline]
        exact hagain
    · cases hrender
  · have hafter := oneContent_of_renderCmdlineFile h hreads hbefore hread
    have hmem : ∀ other, other ∈ before ++ after → other ∈ fileReads input := by
      intro other hin
      rw [hreads]
      rcases mem_append.1 hin with hin | hin <;> simp [hin]
    have hreadNul := hnul read (by rw [hreads]; simp)
    have hline : contentLine input = read.1 := by
      rw [contentLine, hreads, find?_append, find?_eq_none.2 fun other hin => hbefore other hin,
        find?_cons_of_pos hread]
      rfl
    have hrender := renderCmdlineFile_content hwellFormed hreads hfits hbefore hafter hread
    rw [h, cString_of_nul hreadNul, strings_text fun other hin => hnul other (hmem other (mem_append_left _ hin)),
      strings_text fun other hin => hnul other (hmem other (mem_append_right _ hin))] at hrender
    split at hrender
    · next hshort =>
      obtain ⟨hwhole, hsame⟩ := wholes_of_reads hreads (cons_ne_nil _ _) hinput hfits
      have hafterReads : fileReads (text after) = after := by
        refine @fileReads_after input (before ++ [read]) after ?_
        rw [hreads]
        simp
      have hall : ∀ other ∈ before ++ after, fits other ∧ 0 ∉ other.1 ∧ ¬ hasContent other := by
        intro other hin
        refine ⟨hfits other (hmem other hin), hnul other (hmem other hin), ?_⟩
        rcases mem_append.1 hin with hin | hin
        · exact hbefore other hin
        · exact hafter other hin
      obtain ⟨hlines, hagain⟩ := rendered_reads hwellFormed hreadNul hshort hwhole hsame hafterReads hall
        (Option.some.inj hrender)
      refine ⟨?_, words_renderedLine hwellFormed _, fun option hin => (hmanaged option hin).2.2.1, ?_⟩
      · rw [hline]
        exact ⟨before, after, hlines, fun other hin => (hall other hin).2.2, .inl ⟨read, hreads, hread⟩⟩
      · rw [hline]
        exact hagain
    · cases hrender

/-! ### Rendering replaces exactly the managed parts -/

/-- Rendering with a plan that was built. A config.txt whose block is missing, repeated, nested or not closed is
refused. Of another one only the block changes, of a cmdline.txt only the managed options of the line with content, and
what was rendered is rendered to itself. -/
theorem boot_files_rendered (plan : BootPlan) (hplan : plan.Built) :
    (∀ input, configMarkers input ≠ [.opening, .closing] → renderConfigFile plan input = none) ∧
      (∀ input output, 0 ∉ input → renderConfigFile plan input = some output → ConfigRendered plan input output) ∧
      ∀ input output, 0 ∉ input → RoomForOptions input → renderCmdlineFile plan input = some output →
        CmdlineRendered plan input output := by
  refine ⟨fun input hmarkers => renderConfigFile_refused hmarkers, fun input output hinput h => ?_,
    fun input output hinput hroom h => ?_⟩
  · exact configRendered hplan hinput h
  · exact cmdlineRendered hplan hinput hroom h

/-- A plan with an option for each file. -/
def apiPlan : BootPlan where
  configOptions := ascii "arm_freq=1800\n"
  cmdlineOptions := ascii "api_mode=1"
  managedCmdlineKeys := [ascii "api_mode"]

theorem apiPlan_built : apiPlan.Built := by
  have hset : BootPlan.setCmdlineOption (ascii "api_mode") (ascii "1") {} =
      some { cmdlineOptions := ascii "api_mode=1", managedCmdlineKeys := [ascii "api_mode"] } := by rfl
  have hadd : BootPlan.addConfigOption (ascii "arm_freq") (ascii "1800")
      { cmdlineOptions := ascii "api_mode=1", managedCmdlineKeys := [ascii "api_mode"] } = some apiPlan := by rfl
  exact .config (.set .init (by decide) hset) (by decide) (by decide) hadd

def apiConfig : Bytes :=
  ascii "gpu_mem=64\n# BEGIN BMX MANAGED\narm_freq=1500\n# END BMX MANAGED\nkernel=bmx.img\n"

def apiCmdline : Bytes := ascii "# quiet\nroot=sd api_mode=0 fast\n"

theorem boot_files_rendered_api :
    (∃ output, renderConfigFile apiPlan apiConfig = some output ∧ ConfigRendered apiPlan apiConfig output ∧
      output = ascii "gpu_mem=64\n# BEGIN BMX MANAGED\narm_freq=1800\n# END BMX MANAGED\nkernel=bmx.img\n") ∧
    ∃ output, renderCmdlineFile apiPlan apiCmdline = some output ∧ CmdlineRendered apiPlan apiCmdline output ∧
      output = ascii "# quiet\nroot=sd fast api_mode=1\n" := by
  have hconfig : renderConfigFile apiPlan apiConfig =
      some (ascii "gpu_mem=64\n# BEGIN BMX MANAGED\narm_freq=1800\n# END BMX MANAGED\nkernel=bmx.img\n") := by
    decide +kernel
  have hcmdline : renderCmdlineFile apiPlan apiCmdline = some (ascii "# quiet\nroot=sd fast api_mode=1\n") := by
    decide +kernel
  have hroom : RoomForOptions apiCmdline := .inr (.inr (by decide))
  obtain ⟨-, hconfigs, hcmdlines⟩ := boot_files_rendered apiPlan apiPlan_built
  exact ⟨⟨_, hconfig, hconfigs _ _ (by decide) hconfig, rfl⟩, _, hcmdline, hcmdlines _ _ (by decide) hroom hcmdline, rfl⟩

/-- Markers are written anew, and an open comment at the end of cmdline.txt takes the options. -/
theorem rendering_changes_lines :
    renderConfigFile {} (ascii " # BEGIN BMX MANAGED\n# END BMX MANAGED") =
        some (ascii "# BEGIN BMX MANAGED\n# END BMX MANAGED\n") ∧
      apiPlan.Built ∧ renderCmdlineFile apiPlan (ascii "# quiet") = some (ascii "# quietapi_mode=1\n") ∧
        renderCmdlineFile apiPlan (ascii "# quietapi_mode=1\n") = some (ascii "# quietapi_mode=1\napi_mode=1\n") := by
  exact ⟨by decide, apiPlan_built, by decide, by decide⟩

end Bmx.Switch
