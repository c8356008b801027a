import Bmx.Switch.BootFiles
import Bmx.Base.Checked

/-!
# What a boot plan holds

The config options are whole lines, none of them a marker, and the options of the command line are single words whose
keys are managed. So a file that was rendered can be read again.
-/

namespace Bmx.Switch

open List Option

/-- A line that one call of `fgets` reads. -/
def WholeLine (line : Bytes) : Prop := ∃ text, line = text ++ [lf] ∧ lf ∉ text ∧ text.length + 1 < configTxtLineLen

inductive ConfigMarker
  | opening
  | closing
  deriving DecidableEq

def markerOf (line : Bytes) : Option ConfigMarker :=
  if lineIsMarker line configBeginMarker then some .opening
  else if lineIsMarker line configEndMarker then some .closing
  else none

variable {c : UInt8}

theorem trim_head (hc : isSpace c = false) (rest : Bytes) : ∃ rest', trim (c :: rest) = c :: rest' := by
  have hreverse : ((c :: rest).reverse.dropWhile isSpace).reverse = c :: (rest.reverse.dropWhile isSpace).reverse := by
    rw [reverse_cons, dropWhile_append]
    split
    · next hempty =>
      rw [List.isEmpty_iff] at hempty
      simp [dropWhile_cons_of_neg, hc, hempty]
    · rw [reverse_append]
      rfl
  refine ⟨(rest.reverse.dropWhile isSpace).reverse, ?_⟩
  rw [trim, hreverse, dropWhile_cons_of_neg (by simp [hc])]

theorem markerOf_head (hspace : isSpace c = false) (hc : c ≠ 35) (rest : Bytes) : markerOf (c :: rest) = none := by
  obtain ⟨rest', htrim⟩ := trim_head hspace rest
  have hother : ∀ marker : Bytes, marker.head? = some 35 → lineIsMarker (c :: rest) marker = false := by
    intro marker hmarker
    refine Bool.eq_false_iff.2 fun h => ?_
    have hsame : trim (c :: rest) = marker := (of_decide_eq_true h).2
    rw [← hsame, htrim] at hmarker
    exact hc (some.inj hmarker)
  rw [markerOf, hother configBeginMarker rfl, hother configEndMarker rfl]
  rfl

/-- A character that a key has is none that a marker, an end or a key and value are told by. -/
structure KeyChar (c : UInt8) : Prop where
  space : isSpace c = false
  hash : c ≠ 35
  equals : c ≠ equals
  optionEnd : isOptionEnd c = false
  lf : c ≠ lf
  nul : c ≠ 0

theorem keyChar (hc : isAlnum c || c = 95 || c = 45 || c = 46 || c = 58) : KeyChar c := by
  have hall : ∀ n < 256, (isAlnum (UInt8.ofNat n) || UInt8.ofNat n = 95 || UInt8.ofNat n = 45 || UInt8.ofNat n = 46 ||
      UInt8.ofNat n = 58) → isSpace (UInt8.ofNat n) = false ∧ UInt8.ofNat n ≠ 35 ∧ UInt8.ofNat n ≠ equals ∧
        isOptionEnd (UInt8.ofNat n) = false ∧ UInt8.ofNat n ≠ lf ∧ UInt8.ofNat n ≠ 0 := by
    decide +kernel
  have hvalue := hall c.toNat c.toNat_lt
  rw [UInt8.ofNat_toNat] at hvalue
  obtain ⟨hspace, hhash, hequals, hend, hlf, hnul⟩ := hvalue hc
  exact ⟨hspace, hhash, hequals, hend, hlf, hnul⟩

namespace BootPlan

/-- What a plan that is built has: whole lines without a marker, and managed options. -/
structure WellFormed (plan : BootPlan) : Prop where
  config : ∃ lines : List Bytes, plan.configOptions = lines.flatten ∧
    ∀ line ∈ lines, WholeLine line ∧ 0 ∉ line ∧ markerOf line = none
  cmdline : ∃ options : List Bytes, plan.cmdlineOptions = joined space options ∧
    ∀ option ∈ options, option ≠ [] ∧ (∀ c ∈ option, isOptionEnd c = false ∧ c ≠ 0) ∧
      cmdlineKeyManaged plan (optionKey option) ∧ cmdlineContentLine option

theorem appendFormat_some {size : Nat} {destination text result : Bytes}
    (h : appendFormat size destination text = some result) : result = destination ++ text := by
  unfold appendFormat at h
  split at h
  · exact (some.inj h).symm
  · cases h

variable {key value : Bytes} {plan plan' : BootPlan}

theorem validIdentifier_chars (hkey : validIdentifier key) : key ≠ [] ∧ ∀ c ∈ key, KeyChar c := by
  obtain ⟨hne, hall⟩ := of_decide_eq_true hkey
  refine ⟨hne, fun c hc => keyChar ?_⟩
  have hchar := all_eq_true.1 hall c hc
  simp only [Bool.or_eq_true] at hchar ⊢
  tauto

/-- What the key of an option is managed to: the other keys stay, and this one is there. -/
theorem manageCmdlineKey_some (h : plan.manageCmdlineKey key = some plan') :
    validIdentifier key ∧ plan'.configOptions = plan.configOptions ∧ plan'.cmdlineOptions = plan.cmdlineOptions ∧
      key ∈ plan'.managedCmdlineKeys ∧ plan.managedCmdlineKeys ⊆ plan'.managedCmdlineKeys := by
  unfold manageCmdlineKey at h
  split at h
  · cases h
  · next hvalid =>
    rw [not_or, not_not] at hvalid
    split at h
    · next hin =>
      cases h
      exact ⟨hvalid.1, rfl, rfl, hin, fun _ h => h⟩
    · split at h
      · cases h
      · cases h
        exact ⟨hvalid.1, rfl, rfl, mem_append_right _ (mem_singleton_self key), fun _ h =>
          mem_append_left _ h⟩

theorem setCmdlineOption_some (h : plan.setCmdlineOption key value = some plan') :
    value ≠ [] ∧ (∀ c ∈ value, isOptionEnd c = false) ∧ validIdentifier key ∧ plan'.configOptions = plan.configOptions ∧
      plan'.cmdlineOptions = plan.cmdlineOptions ++
        ((if plan.cmdlineOptions = [] then [] else [space]) ++ key ++ equals :: value) ∧
      key ∈ plan'.managedCmdlineKeys ∧ plan.managedCmdlineKeys ⊆ plan'.managedCmdlineKeys := by
  unfold setCmdlineOption at h
  split at h
  · cases h
  · next hvalue =>
    rw [not_or] at hvalue
    obtain ⟨between, hmanage, h⟩ := bind_eq_some_iff.1 h
    obtain ⟨options, happend, h⟩ := bind_eq_some_iff.1 h
    obtain ⟨hkey, hconfig, hcmdline, hin, hkeep⟩ := manageCmdlineKey_some hmanage
    have hoptions := appendFormat_some happend
    rw [hcmdline] at hoptions
    cases h
    refine ⟨hvalue.1, fun c hc => ?_, hkey, hconfig, hoptions, hin, hkeep⟩
    exact Bool.eq_false_iff.2 fun hend => hvalue.2 (any_eq_true.2 ⟨c, hc, hend⟩)

theorem addConfigOption_some (hkey : key.length < valueLen)
    (hvalue : 0 ∉ value ∧ value.length < valueLen) (h : plan.addConfigOption key value = some plan') :
    ∃ line, plan' = { plan with configOptions := plan.configOptions ++ line } ∧ WholeLine line ∧ 0 ∉ line ∧
      markerOf line = none := by
  unfold addConfigOption at h
  split at h
  · cases h
  · next hgiven =>
    rw [not_or, not_or] at hgiven
    obtain ⟨hne, -, hline⟩ := hgiven
    split at h
    · cases h
    · next hchars =>
      obtain ⟨options, happend, h⟩ := bind_eq_some_iff.1 h
      rw [not_not] at hchars
      have hkeyChars : ∀ c ∈ key, KeyChar c := fun c hc => keyChar (all_eq_true.1 hchars c hc)
      have hvalueLine : lf ∉ value := fun hin => hline (any_eq_true.2 ⟨lf, hin, rfl⟩)
      have hlf : lf ∉ key ++ equals :: value := by
        rw [mem_append, mem_cons, not_or, not_or]
        exact ⟨fun hin => (hkeyChars lf hin).lf rfl, by decide, hvalueLine⟩
      have hnul : (0 : UInt8) ∉ key ++ equals :: (value ++ [lf]) := by
        simp only [mem_append, mem_cons, not_or]
        exact ⟨fun hin => (hkeyChars 0 hin).nul rfl, by decide, hvalue.1, by decide, not_mem_nil⟩
      have hwhole : key ++ equals :: (value ++ [lf]) = (key ++ equals :: value) ++ [lf] := by simp
      have hoptions := appendFormat_some happend
      cases h
      refine ⟨key ++ equals :: (value ++ [lf]), by rw [hoptions], ⟨_, hwhole, hlf, ?_⟩, hnul, ?_⟩
      · have hbound : valueLen + valueLen + 1 < configTxtLineLen := by decide
        rw [length_append, length_cons]
        omega
      · cases key with
        | nil => exact absurd rfl hne
        | cons c key =>
          have hc := hkeyChars c (mem_cons_self ..)
          exact markerOf_head hc.space hc.hash _

theorem addInclude_some (h : plan.addInclude = some plan') :
    ∃ line, plan' = { plan with configOptions := plan.configOptions ++ line } ∧ WholeLine line ∧ 0 ∉ line ∧
      markerOf line = none := by
  obtain ⟨options, happend, h⟩ := bind_eq_some_iff.1 h
  have hoptions := appendFormat_some happend
  cases h
  refine ⟨ascii "include " ++ (activeKernelSelector ++ [lf]), by rw [hoptions], ?_, by decide, by decide⟩
  exact ⟨ascii "include " ++ activeKernelSelector, by decide, by decide, by decide⟩

theorem WellFormed.addLine (hplan : plan.WellFormed) {line : Bytes} (hline : WholeLine line)
    (hnul : 0 ∉ line) (hmarker : markerOf line = none) :
    { plan with configOptions := plan.configOptions ++ line }.WellFormed := by
  obtain ⟨lines, hlines, hall⟩ := hplan.config
  refine ⟨⟨lines ++ [line], ?_, fun other hin => ?_⟩, hplan.cmdline⟩
  · simp [hlines]
  · rcases mem_append.1 hin with hin | hin
    · exact hall other hin
    · rw [mem_singleton.1 hin]
      exact ⟨hline, hnul, hmarker⟩

theorem WellFormed.manage (hplan : plan.WellFormed)
    (hconfig : plan'.configOptions = plan.configOptions) (hcmdline : plan'.cmdlineOptions = plan.cmdlineOptions)
    (hkeys : plan.managedCmdlineKeys ⊆ plan'.managedCmdlineKeys) : plan'.WellFormed := by
  obtain ⟨options, hoptions, hall⟩ := hplan.cmdline
  refine ⟨by rw [hconfig]; exact hplan.config, options, hcmdline.trans hoptions, fun option hin => ?_⟩
  obtain ⟨hne, hchars, hmanaged, hcontent⟩ := hall option hin
  exact ⟨hne, hchars, decide_eq_true (hkeys (of_decide_eq_true hmanaged)), hcontent⟩

theorem content_of_head {c : UInt8} (hspace : isSpace c = false) (hhash : c ≠ 35) (rest : Bytes) :
    cmdlineContentLine (c :: rest) := by
  rw [cmdlineContentLine, dropWhile_cons_of_neg (by simp [hspace])]
  simpa using hhash

theorem WellFormed.set (hplan : plan.WellFormed) (hnul : 0 ∉ value)
    (h : plan.setCmdlineOption key value = some plan') : plan'.WellFormed := by
  obtain ⟨hvalue, hends, hkey, hconfig, hcmdline, hin, hkeys⟩ := setCmdlineOption_some h
  obtain ⟨hkeyNe, hkeyChars⟩ := validIdentifier_chars hkey
  obtain ⟨options, hoptions, hall⟩ := hplan.cmdline
  have hne : ∀ option ∈ options, option ≠ [] := fun option hin => (hall option hin).1
  have hkeyOf : optionKey (key ++ equals :: value) = key := by
    rw [optionKey, takeWhile_append_of_pos fun c hc => decide_eq_true (hkeyChars c hc).equals]
    simp
  refine ⟨by rw [hconfig]; exact hplan.config, options ++ [key ++ equals :: value], ?_, fun option hoption => ?_⟩
  · rw [hcmdline, hoptions]
    by_cases hempty : options = []
    · simp [hempty, joined]
    · rw [if_neg (mt (joined_eq_nil hne).1 hempty), joined_concat hempty]
      simp
  · rcases mem_append.1 hoption with hoption | hoption
    · obtain ⟨hne, hchars, hmanaged, hcontent⟩ := hall option hoption
      exact ⟨hne, hchars, decide_eq_true (hkeys (of_decide_eq_true hmanaged)), hcontent⟩
    · rw [mem_singleton.1 hoption]
      refine ⟨by simp, fun c hc => ?_, decide_eq_true (by rw [hkeyOf]; exact hin), ?_⟩
      · rw [mem_append, mem_cons] at hc
        rcases hc with hc | rfl | hc
        · exact ⟨(hkeyChars c hc).optionEnd, (hkeyChars c hc).nul⟩
        · exact ⟨by decide, by decide⟩
        · exact ⟨hends c hc, fun h => hnul (h ▸ hc)⟩
      · cases key with
        | nil => exact absurd rfl hkeyNe
        | cons c key =>
          have hc := hkeyChars c (mem_cons_self ..)
          exact content_of_head hc.space hc.hash _

theorem Built.wellFormed (hplan : Built plan) : plan.WellFormed := by
  induction hplan with
  | init => exact ⟨⟨[], rfl, by simp⟩, ⟨[], rfl, by simp⟩⟩
  | manage hplan hstep ih =>
    obtain ⟨-, hconfig, hcmdline, -, hkeys⟩ := manageCmdlineKey_some hstep
    exact ih.manage hconfig hcmdline hkeys
  | set hplan hvalue hstep ih => exact ih.set hvalue hstep
  | config hplan hkey hvalue hstep ih =>
    obtain ⟨line, rfl, hline, hnul, hmarker⟩ := addConfigOption_some hkey hvalue hstep
    exact ih.addLine hline hnul hmarker
  | selector hplan hstep ih =>
    obtain ⟨line, rfl, hline, hnul, hmarker⟩ := addInclude_some hstep
    exact ih.addLine hline hnul hmarker

end BootPlan

end Bmx.Switch
