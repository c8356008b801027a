import Mathlib.Data.List.Nodup
import Bmx.Network.NetworkService

/-!
# The results of a scan

A result of the Wi-Fi firmware holds a number of records, each of a size that it tells itself. They are merged into a
table of access points. The buffer lies in memory, where addresses begin again after the last one.
-/

namespace Bmx.Network

open List

/-- A `brcmf_escan_result_le` in memory, which does not lie at the very end of it. -/
structure ScanBuffer where
  memory : Nat → UInt8
  buffer : Nat
  length : Nat
  pointerBits : Nat
  placed : buffer + length + 128 < 2 ^ pointerBits

/-- What is read, from which address and how many bytes. -/
abbrev ScanM := StateM (List (Nat × Nat))

def sizeofEscanResult : Nat := 140
def sizeofBssInfo : Nat := 128
def bssInfoVersion : Nat := 109

def frequencyFromChanspec (chanspec : Nat) : Int :=
  let channel := chanspec % 256
  if 1 ≤ channel ∧ channel ≤ 14 then
    [2412, 2417, 2422, 2427, 2432, 2437, 2442, 2447, 2452, 2457, 2462, 2467, 2472, 2484].getD (channel - 1) 0
  else if 32 ≤ channel ∧ channel ≤ 173 then 5160 + ((channel : Int) - 32) * 5
  else 0

def channelFromFrequency (freq : Int) : Int :=
  if freq = 2484 then 14
  else if 2412 ≤ freq ∧ freq ≤ 2472 ∧ (freq - 2407) % 5 = 0 then (freq - 2407) / 5
  else if 5000 ≤ freq ∧ freq ≤ 5900 ∧ (freq - 5000) % 5 = 0 then (freq - 5000) / 5
  else 0

/-- What `AddOrUpdateAP` compares. -/
def WifiAccessPoint.key (ap : WifiAccessPoint) : Bytes × Int := (ap.ssid, ap.freqMhz)

/-- The loop of `AddOrUpdateAP`, with nothing where no entry is the same. -/
def updateAP (candidate : WifiAccessPoint) : List WifiAccessPoint → Option (List WifiAccessPoint)
  | [] => none
  | ap :: rest =>
    if ap.key = candidate.key then some ((if candidate.rssiDbm > ap.rssiDbm then candidate else ap) :: rest)
    else (updateAP candidate rest).map (ap :: ·)

def addOrUpdateAP (maxAps : Nat) (aps : List WifiAccessPoint) (candidate : WifiAccessPoint) :
    List WifiAccessPoint :=
  if maxAps = 0 ∨ candidate.ssid = [] then aps
  else
    match updateAP candidate aps with
    | some updated => updated
    | none => if aps.length < maxAps then aps ++ [candidate] else aps

namespace ScanBuffer

variable (scan : ScanBuffer)

/-- Where `end` points. -/
def stop : Nat := scan.buffer + scan.length

def wrap (address : Nat) : Nat := address % 2 ^ scan.pointerBits

def bytes (address size : Nat) : Bytes := (List.range size).map fun i => scan.memory (address + i)

def value (address size : Nat) : Nat := littleEndian (scan.bytes address size)

def read (address size : Nat) : ScanM Nat := fun reads => (scan.value address size, reads ++ [(address, size)])

def shownByte (byte : UInt8) : UInt8 := if 32 ≤ byte ∧ byte ≤ 126 then byte else 63

def copyLen (destLen ssidLen : Nat) : Nat := if ssidLen < destLen - 1 then ssidLen else destLen - 1

def copySSID (destLen ssid ssidLen : Nat) : ScanM Bytes := fun reads =>
  ((scan.bytes ssid (copyLen destLen ssidLen)).map shownByte, reads ++ [(ssid, copyLen destLen ssidLen)])

def accessPoint (bss : Nat) : ScanM WifiAccessPoint := do
  let ssidLen ← scan.read (bss + 18) 1
  let ssid ← scan.copySSID 64 (bss + 19) ssidLen
  let chanspec ← scan.read (bss + 72) 2
  let rssi ← scan.read (bss + 78) 2
  let freqMhz := frequencyFromChanspec chanspec
  return ⟨ssid, freqMhz, channelFromFrequency freqMhz, if rssi < 2 ^ 15 then rssi else (rssi : Int) - 2 ^ 16⟩

/-- The loop of `ParseScanBuffer`, with the turns that are left. -/
def parseRecords (maxAps : Nat) : (count bss : Nat) → List WifiAccessPoint → ScanM (List WifiAccessPoint)
  | 0, _, aps => return aps
  | count + 1, bss, aps =>
    if scan.wrap (bss + sizeofBssInfo) > scan.stop then return aps
    else do
      let length ← scan.read (bss + 4) 4
      if length < sizeofBssInfo ∨ scan.wrap (bss + length) > scan.stop then return aps
      else
        let version ← scan.read bss 4
        if version = bssInfoVersion then
          let ap ← scan.accessPoint bss
          parseRecords maxAps count (scan.wrap (bss + length)) (addOrUpdateAP maxAps aps ap)
        else parseRecords maxAps count (scan.wrap (bss + length)) aps

def parseScanBuffer (maxAps : Nat) (aps : List WifiAccessPoint) : ScanM (List WifiAccessPoint) :=
  if scan.length < sizeofEscanResult then return aps
  else do
    let count ← scan.read (scan.buffer + 10) 2
    scan.parseRecords maxAps count (scan.buffer + 12) aps

/-! ### What is read -/

/-- `bss->length`. -/
def bssLength (bss : Nat) : Nat := scan.value (bss + 4) 4

/-- The records that the loop passes over. -/
def passed : (count bss : Nat) → List Nat
  | 0, _ => []
  | count + 1, bss =>
    if scan.wrap (bss + sizeofBssInfo) > scan.stop ∨ scan.bssLength bss < sizeofBssInfo ∨
        scan.wrap (bss + scan.bssLength bss) > scan.stop then []
    else bss :: passed count (scan.wrap (bss + scan.bssLength bss))

def records : List Nat :=
  if scan.length < sizeofEscanResult then [] else scan.passed (scan.value (scan.buffer + 10) 2) (scan.buffer + 12)

/-- The access points of the records that are of the version known. -/
def seenIn (records : List Nat) : List WifiAccessPoint :=
  (records.filter fun bss => scan.value bss 4 = bssInfoVersion).map fun bss => (scan.accessPoint bss []).1

/-- A read that keeps to the buffer. -/
def Inside (range : Nat × Nat) : Prop := scan.buffer ≤ range.1 ∧ range.1 + range.2 ≤ scan.stop

/-- No record is so long that the address behind it begins anew. -/
def NoWrap (records : List Nat) : Prop := ∀ bss ∈ records, bss + scan.bssLength bss < 2 ^ scan.pointerBits

variable {scan}

theorem accessPoint_run (bss : Nat) (reads : List (Nat × Nat)) : ∃ own,
    scan.accessPoint bss reads = ((scan.accessPoint bss []).1, reads ++ own) ∧
      ∀ range ∈ own, bss ≤ range.1 ∧ range.1 + range.2 ≤ bss + sizeofBssInfo := by
  have hcopied : copyLen 64 (scan.value (bss + 18) 1) ≤ 63 := by
    unfold copyLen
    split <;> omega
  refine ⟨[(bss + 18, 1)] ++ ([(bss + 19, copyLen 64 (scan.value (bss + 18) 1))] ++
    ([(bss + 72, 2)] ++ [(bss + 78, 2)])), ?_, ?_⟩
  · rw [← append_assoc, ← append_assoc, ← append_assoc]
    rfl
  · intro range hrange
    simp only [cons_append, nil_append, mem_cons, not_mem_nil, or_false] at hrange
    rcases hrange with rfl | rfl | rfl | rfl <;> simp only [sizeofBssInfo] <;> omega

theorem parseRecords_succ (maxAps count bss : Nat) (aps : List WifiAccessPoint) (reads : List (Nat × Nat)) :
    scan.parseRecords maxAps (count + 1) bss aps reads =
      if scan.wrap (bss + sizeofBssInfo) > scan.stop then (aps, reads)
      else if scan.bssLength bss < sizeofBssInfo ∨ scan.wrap (bss + scan.bssLength bss) > scan.stop then
        (aps, reads ++ [(bss + 4, 4)])
      else if scan.value bss 4 = bssInfoVersion then
        scan.parseRecords maxAps count (scan.wrap (bss + scan.bssLength bss))
          (addOrUpdateAP maxAps aps (scan.accessPoint bss (reads ++ [(bss + 4, 4)] ++ [(bss, 4)])).1)
          (scan.accessPoint bss (reads ++ [(bss + 4, 4)] ++ [(bss, 4)])).2
      else scan.parseRecords maxAps count (scan.wrap (bss + scan.bssLength bss)) aps
        (reads ++ [(bss + 4, 4)] ++ [(bss, 4)]) := by
  rw [parseRecords]
  by_cases hroom : scan.wrap (bss + sizeofBssInfo) > scan.stop
  · rw [if_pos hroom, if_pos hroom]
    rfl
  rw [if_neg hroom, if_neg hroom]
  change (if scan.bssLength bss < sizeofBssInfo ∨ scan.wrap (bss + scan.bssLength bss) > scan.stop then _
    else _ : ScanM _) (reads ++ [(bss + 4, 4)]) = _
  by_cases hlength : scan.bssLength bss < sizeofBssInfo ∨ scan.wrap (bss + scan.bssLength bss) > scan.stop
  · rw [if_pos hlength, if_pos hlength]
    rfl
  rw [if_neg hlength, if_neg hlength]
  change (if scan.value bss 4 = bssInfoVersion then _ else _ : ScanM _) (reads ++ [(bss + 4, 4)] ++ [(bss, 4)]) = _
  by_cases hversion : scan.value bss 4 = bssInfoVersion
  · rw [if_pos hversion, if_pos hversion]
    rfl
  · rw [if_neg hversion, if_neg hversion]
    rfl

theorem seenIn_cons (bss : Nat) (rest : List Nat) : scan.seenIn (bss :: rest) =
    if scan.value bss 4 = bssInfoVersion then (scan.accessPoint bss []).1 :: scan.seenIn rest
    else scan.seenIn rest := by
  simp only [seenIn, filter_cons, decide_eq_true_eq]
  split <;> rfl

/-- The loop merges the access points of the records in turn, and reads within them. -/
theorem parseRecords_run (maxAps count bss : Nat) (aps : List WifiAccessPoint) (reads : List (Nat × Nat)) :
    ∃ own, scan.parseRecords maxAps count bss aps reads =
        ((scan.seenIn (scan.passed count bss)).foldl (addOrUpdateAP maxAps) aps, reads ++ own) ∧
      (scan.buffer ≤ bss → bss ≤ scan.stop → scan.NoWrap (scan.passed count bss) →
        ∀ range ∈ own, scan.Inside range) := by
  induction count generalizing bss aps reads with
  | zero => exact ⟨[], by rw [append_nil]; rfl, nofun⟩
  | succ count ih =>
    rw [parseRecords_succ, passed]
    by_cases hroom : scan.wrap (bss + sizeofBssInfo) > scan.stop
    · rw [if_pos hroom, if_pos (.inl hroom)]
      exact ⟨[], by rw [append_nil]; rfl, nofun⟩
    have hinside {own : List (Nat × Nat)}
        (hown : ∀ range ∈ own, bss ≤ range.1 ∧ range.1 + range.2 ≤ bss + sizeofBssInfo) (hlow : scan.buffer ≤ bss)
        (hhigh : bss ≤ scan.stop) (range) (hrange : range ∈ own) : scan.Inside range := by
      rw [wrap, Nat.mod_eq_of_lt (Nat.lt_of_le_of_lt (Nat.add_le_add_right hhigh sizeofBssInfo) scan.placed),
        Nat.not_lt] at hroom
      exact ⟨hlow.trans (hown range hrange).1, (hown range hrange).2.trans hroom⟩
    rw [if_neg hroom]
    by_cases hlength : scan.bssLength bss < sizeofBssInfo ∨ scan.wrap (bss + scan.bssLength bss) > scan.stop
    · rw [if_pos hlength, if_pos (.inr hlength)]
      refine ⟨[(bss + 4, 4)], rfl, fun hlow hhigh _ => hinside ?_ hlow hhigh⟩
      rintro range (_ | ⟨_, ⟨⟩⟩)
      simp only [sizeofBssInfo]
      omega
    rw [if_neg hlength, if_neg (not_or.2 ⟨hroom, hlength⟩), seenIn_cons]
    generalize hnext : scan.wrap (bss + scan.bssLength bss) = next at ih hlength ⊢
    have hhead : ∀ range ∈ [(bss + 4, 4), (bss, 4)],
        bss ≤ range.1 ∧ range.1 + range.2 ≤ bss + sizeofBssInfo := by
      simp only [forall_mem_cons, sizeofBssInfo]
      exact ⟨by omega, by omega, nofun⟩
    have hall {own later : List (Nat × Nat)}
        (hown : ∀ range ∈ own, bss ≤ range.1 ∧ range.1 + range.2 ≤ bss + sizeofBssInfo)
        (hlater : scan.buffer ≤ next → next ≤ scan.stop → scan.NoWrap (scan.passed count next) →
          ∀ range ∈ later, scan.Inside range) (hlow : scan.buffer ≤ bss) (hhigh : bss ≤ scan.stop)
        (hnowrap : scan.NoWrap (bss :: scan.passed count next)) : ∀ range ∈ own ++ later, scan.Inside range := by
      obtain ⟨hshort, hrest⟩ := forall_mem_cons.1 hnowrap
      rw [wrap, Nat.mod_eq_of_lt hshort] at hnext
      refine forall_mem_append.2 ⟨hinside hown hlow hhigh, hlater ?_ ?_ hrest⟩
      · exact hnext ▸ hlow.trans (Nat.le_add_right _ _)
      · exact Nat.not_lt.1 (not_or.1 hlength).2
    by_cases hversion : scan.value bss 4 = bssInfoVersion
    · obtain ⟨own, hown, hownInside⟩ := @accessPoint_run scan bss (reads ++ [(bss + 4, 4)] ++ [(bss, 4)])
      rw [if_pos hversion, if_pos hversion, hown]
      obtain ⟨later, hrun, hlater⟩ := ih next (addOrUpdateAP maxAps aps (scan.accessPoint bss []).1)
        (reads ++ [(bss + 4, 4)] ++ [(bss, 4)] ++ own)
      exact ⟨[(bss + 4, 4), (bss, 4)] ++ own ++ later, by rw [hrun]; simp,
        hall (forall_mem_append.2 ⟨hhead, hownInside⟩) hlater⟩
    · rw [if_neg hversion, if_neg hversion]
      obtain ⟨later, hrun, hlater⟩ := ih next aps (reads ++ [(bss + 4, 4)] ++ [(bss, 4)])
      exact ⟨[(bss + 4, 4), (bss, 4)] ++ later, by rw [hrun]; simp, hall hhead hlater⟩

end ScanBuffer

/-! ### The table -/

section Table

variable {maxAps : Nat} {candidate : WifiAccessPoint} {aps updated seen : List WifiAccessPoint}

theorem updateAP_some (h : updateAP candidate aps = some updated) :
    ∃ before ap after, aps = before ++ ap :: after ∧ ap.key = candidate.key ∧
      updated = before ++ (if candidate.rssiDbm > ap.rssiDbm then candidate else ap) :: after := by
  induction aps generalizing updated with
  | nil => cases h
  | cons ap rest ih =>
    rw [updateAP] at h
    by_cases hsame : ap.key = candidate.key
    · rw [if_pos hsame] at h
      cases h
      exact ⟨[], ap, rest, rfl, hsame, rfl⟩
    · rw [if_neg hsame] at h
      obtain ⟨updated, hupdated, rfl⟩ := Option.map_eq_some_iff.1 h
      obtain ⟨before, other, after, rfl, hother, rfl⟩ := ih hupdated
      exact ⟨ap :: before, other, after, rfl, hother, rfl⟩

theorem updateAP_none (h : updateAP candidate aps = none) : candidate.key ∉ aps.map (·.key) := by
  induction aps with
  | nil => exact nofun
  | cons ap rest ih =>
    rw [updateAP] at h
    by_cases hsame : ap.key = candidate.key
    · rw [if_pos hsame] at h
      cases h
    · rw [if_neg hsame] at h
      rw [map_cons, mem_cons, not_or]
      exact ⟨Ne.symm hsame, ih (Option.map_eq_none_iff.1 h)⟩

structure Scanned (maxAps : Nat) (seen aps : List WifiAccessPoint) : Prop where
  room : aps.length ≤ maxAps
  distinct : (aps.map (·.key)).Nodup
  strongest : ∀ ap ∈ aps, ap ∈ seen ∧ ap.ssid ≠ [] ∧ ∀ other ∈ seen, other.key = ap.key → other.rssiDbm ≤ ap.rssiDbm
  kept : ∀ other ∈ seen, other.ssid ≠ [] → other.key ∈ aps.map (·.key) ∨ aps.length = maxAps

theorem scanned_nil (maxAps : Nat) : Scanned maxAps [] [] := ⟨Nat.zero_le _, .nil, nofun, nofun⟩

theorem scanned_addOrUpdateAP (h : Scanned maxAps seen aps) (candidate : WifiAccessPoint) :
    Scanned maxAps (seen ++ [candidate]) (addOrUpdateAP maxAps aps candidate) := by
  have hseen {P : WifiAccessPoint → Prop} : (∀ other ∈ seen ++ [candidate], P other) ↔
      (∀ other ∈ seen, P other) ∧ P candidate := by
    simp only [mem_append, mem_singleton, or_imp, forall_and, forall_eq]
  -- An entry of another key is as strong as before.
  have hold {ap : WifiAccessPoint} (hap : ap ∈ aps) (hother : candidate.key ≠ ap.key) :
      ap ∈ seen ++ [candidate] ∧ ap.ssid ≠ [] ∧
        ∀ other ∈ seen ++ [candidate], other.key = ap.key → other.rssiDbm ≤ ap.rssiDbm := by
    obtain ⟨hmem, hssid, hbest⟩ := h.strongest ap hap
    exact ⟨mem_append_left _ hmem, hssid, hseen.2 ⟨hbest, fun hsame => absurd hsame hother⟩⟩
  unfold addOrUpdateAP
  by_cases hnone : maxAps = 0 ∨ candidate.ssid = []
  · rw [if_pos hnone]
    refine ⟨h.room, h.distinct, fun ap hap => hold hap fun hsame => ?_, hseen.2 ⟨h.kept, fun hssid => .inr ?_⟩⟩
    · rcases hnone with hzero | hempty
      · have hlength := length_pos_of_mem hap
        have hroom := h.room
        omega
      · exact (h.strongest ap hap).2.1 ((congrArg Prod.fst hsame).symm.trans hempty)
    · have hzero := hnone.resolve_right hssid
      exact Nat.le_antisymm h.room (hzero ▸ Nat.zero_le _)
  rw [if_neg hnone]
  have hssid : candidate.ssid ≠ [] := fun hempty => hnone (.inr hempty)
  cases hupdate : updateAP candidate aps with
  | none =>
    have hnew := updateAP_none hupdate
    have hother {ap : WifiAccessPoint} (hap : ap ∈ aps) : candidate.key ≠ ap.key := fun hsame =>
      hnew (hsame ▸ mem_map_of_mem hap)
    by_cases hroom : aps.length < maxAps
    · simp only [if_pos hroom]
      have hkept (other) (hmem : other ∈ seen) (hshown : other.ssid ≠ []) : other.key ∈ aps.map (·.key) :=
        (h.kept other hmem hshown).resolve_right (Nat.ne_of_lt hroom)
      refine ⟨?_, ?_, fun ap hap => ?_, hseen.2 ⟨fun other hmem hshown => .inl ?_, fun _ => .inl ?_⟩⟩
      · rw [length_append, length_singleton]
        exact hroom
      · rw [map_append, nodup_append_comm]
        exact nodup_cons.2 ⟨hnew, h.distinct⟩
      · rcases mem_append.1 hap with hap | hap
        · exact hold hap (hother hap)
        · cases mem_singleton.1 hap
          refine ⟨mem_append_right _ (mem_singleton_self _), hssid, hseen.2 ⟨fun other hmem hsame => ?_,
            fun _ => Int.le_refl _⟩⟩
          have hshown : other.ssid ≠ [] := fun hempty => hssid ((congrArg Prod.fst hsame).symm.trans hempty)
          exact absurd (hsame ▸ hkept other hmem hshown) hnew
      · exact map_append ▸ mem_append_left _ (hkept other hmem hshown)
      · exact map_append ▸ mem_append_right _ (mem_singleton_self _)
    · simp only [if_neg hroom]
      have hfull := Nat.le_antisymm h.room (Nat.not_lt.1 hroom)
      exact ⟨h.room, h.distinct, fun ap hap => hold hap (hother hap), fun _ _ _ => .inr hfull⟩
  | some updated =>
    obtain ⟨before, ap, after, rfl, hap, rfl⟩ := updateAP_some hupdate
    generalize hbest : (if candidate.rssiDbm > ap.rssiDbm then candidate else ap) = best
    have hmem : ap ∈ before ++ ap :: after := mem_append_right _ mem_cons_self
    have hbest : best.key = candidate.key ∧ best ∈ seen ++ [candidate] ∧ ap.rssiDbm ≤ best.rssiDbm ∧
        candidate.rssiDbm ≤ best.rssiDbm := by
      subst hbest
      split
      · exact ⟨rfl, mem_append_right _ (mem_singleton_self _), by omega, Int.le_refl _⟩
      · exact ⟨hap, mem_append_left _ (h.strongest ap hmem).1, Int.le_refl _, by omega⟩
    obtain ⟨hkey, hbestSeen, hstronger, hstrongest⟩ := hbest
    have hkeys : (before ++ best :: after).map (·.key) = (before ++ ap :: after).map (·.key) := by
      simp only [map_append, map_cons, hkey, hap]
    have hlength : (before ++ best :: after).length = (before ++ ap :: after).length := by
      simp only [length_append, length_cons]
    have hdistinct := h.distinct
    rw [map_append, map_cons, hap] at hdistinct
    have hout := nodup_middle.1 hdistinct
    refine ⟨hlength ▸ h.room, hkeys ▸ h.distinct, fun other hother => ?_, hseen.2 ⟨?_, fun _ => .inl ?_⟩⟩
    · have hrest (hrest : other ∈ before ++ after) (hmem : other ∈ before ++ ap :: after) :=
        hold hmem fun hsame => (nodup_cons.1 hout).1 (by
          rw [hsame, ← map_append]
          exact mem_map_of_mem hrest)
      rcases mem_append.1 hother with hother | hother
      · exact hrest (mem_append_left _ hother) (mem_append_left _ hother)
      rcases mem_cons.1 hother with rfl | hother
      · refine ⟨hbestSeen, fun hempty => hssid ((congrArg Prod.fst hkey).symm.trans hempty), hseen.2
          ⟨fun other hmemOther hsame => ?_, fun _ => hstrongest⟩⟩
        exact Int.le_trans ((h.strongest ap hmem).2.2 other hmemOther (hsame.trans (hkey.trans hap.symm))) hstronger
      · exact hrest (mem_append_right _ hother) (mem_append_right _ (mem_cons_of_mem _ hother))
    · rw [hkeys, hlength]
      exact h.kept
    · rw [hkeys, ← hap]
      exact mem_map_of_mem hmem

theorem scanned_fold (h : Scanned maxAps seen aps) (candidates : List WifiAccessPoint) :
    Scanned maxAps (seen ++ candidates) (candidates.foldl (addOrUpdateAP maxAps) aps) := by
  induction candidates generalizing seen aps with
  | nil =>
    rw [append_nil]
    exact h
  | cons candidate rest ih =>
    rw [append_cons]
    exact ih (scanned_addOrUpdateAP h candidate)

end Table

/-! ### Scans -/

namespace ScanBuffer

variable {scan : ScanBuffer}

def ssidLen (scan : ScanBuffer) (bss : Nat) : Nat := scan.value (bss + 18) 1

def ssidField (scan : ScanBuffer) (bss : Nat) : Bytes := scan.bytes (bss + 19) 32

theorem records_length (scan : ScanBuffer) : scan.records.length < 2 ^ 16 := by
  have hpassed (count bss : Nat) : (scan.passed count bss).length ≤ count := by
    induction count generalizing bss with
    | zero => exact Nat.le_refl 0
    | succ count ih =>
      rw [passed]
      split
      · exact Nat.zero_le _
      · exact Nat.succ_le_succ (ih _)
  have hcount : scan.value (scan.buffer + 10) 2 < 2 ^ 16 := by
    have hlow := (scan.memory (scan.buffer + 10)).toNat_lt
    have hhigh := (scan.memory (scan.buffer + 10 + 1)).toNat_lt
    simp only [value, bytes, range_succ, range_zero, nil_append, cons_append, map_cons,
      map_nil, littleEndian, Nat.add_zero]
    omega
  unfold records
  split
  · exact Nat.two_pow_pos 16
  · exact Nat.lt_of_le_of_lt (hpassed _ _) hcount

theorem accessPoint_ssid {bss : Nat} (h : scan.ssidLen bss ≤ 32) :
    (scan.accessPoint bss []).1.ssid = ((scan.ssidField bss).take (scan.ssidLen bss)).map shownByte := by
  have hcopied : copyLen 64 (scan.ssidLen bss) = scan.ssidLen bss := if_pos (by omega)
  change (scan.bytes (bss + 19) (copyLen 64 (scan.ssidLen bss))).map shownByte = _
  rw [hcopied, ssidField, bytes, bytes, ← map_take, take_range, Nat.min_eq_left h]

theorem parseScanBuffer_run (scan : ScanBuffer) (maxAps : Nat) (aps : List WifiAccessPoint) :
    (scan.parseScanBuffer maxAps aps []).1 = (scan.seenIn scan.records).foldl (addOrUpdateAP maxAps) aps ∧
      (scan.NoWrap scan.records → ∀ range ∈ (scan.parseScanBuffer maxAps aps []).2, scan.Inside range) := by
  unfold parseScanBuffer records
  by_cases hshort : scan.length < sizeofEscanResult
  · rw [if_pos hshort, if_pos hshort]
    exact ⟨rfl, fun _ => nofun⟩
  · rw [if_neg hshort, if_neg hshort]
    rw [sizeofEscanResult, Nat.not_lt] at hshort
    obtain ⟨own, hrun, hinside⟩ := @parseRecords_run scan maxAps (scan.value (scan.buffer + 10) 2)
      (scan.buffer + 12) aps [(scan.buffer + 10, 2)]
    change (scan.parseRecords maxAps _ _ aps _).1 = _ ∧ (_ → ∀ range ∈ (scan.parseRecords maxAps _ _ aps _).2, _)
    rw [nil_append, hrun]
    refine ⟨rfl, fun hnowrap => forall_mem_append.2 ⟨?_, hinside ?_ ?_ hnowrap⟩⟩
    · rw [forall_mem_singleton, Inside, stop]
      exact ⟨Nat.le_add_right _ _, by omega⟩
    · exact Nat.le_add_right _ _
    · rw [stop]
      omega

/-- A table that has one entry for a name in a band. -/
def OnePerBand (aps : List WifiAccessPoint) : Prop :=
  aps.Pairwise fun a b => ¬ (a.ssid = b.ssid ∧ (a.freqMhz < 2500 ↔ b.freqMhz < 2500))

/-- After any number of results the table holds every name and frequency that was seen once, with its strongest
signal, and misses some only when it is full. A result is read within its buffer, and a name within its field. -/
theorem scanBuffers_table (maxAps : Nat) (scans : List ScanBuffer) :
    Scanned maxAps (scans.flatMap fun scan => scan.seenIn scan.records)
        (scans.foldl (fun aps scan => (scan.parseScanBuffer maxAps aps []).1) []) ∧
      ∀ scan : ScanBuffer, scan.records.length < 2 ^ 16 ∧
        (scan.NoWrap scan.records →
          ∀ aps, ∀ range ∈ (scan.parseScanBuffer maxAps aps []).2, scan.Inside range) ∧
        ∀ bss, scan.ssidLen bss ≤ 32 →
          (scan.accessPoint bss []).1.ssid = ((scan.ssidField bss).take (scan.ssidLen bss)).map shownByte := by
  have hfold {seen aps : List WifiAccessPoint} (h : Scanned maxAps seen aps) :
      Scanned maxAps (seen ++ scans.flatMap fun scan => scan.seenIn scan.records)
        (scans.foldl (fun aps scan => (scan.parseScanBuffer maxAps aps []).1) aps) := by
    induction scans generalizing seen aps with
    | nil =>
      rw [flatMap_nil, append_nil]
      exact h
    | cons scan rest ih =>
      rw [flatMap_cons, ← append_assoc, foldl_cons, (parseScanBuffer_run scan maxAps aps).1]
      exact ih (scanned_fold h _)
  exact ⟨hfold (scanned_nil maxAps), fun scan => ⟨scan.records_length,
    fun hnowrap aps => (parseScanBuffer_run scan maxAps aps).2 hnowrap, fun bss => accessPoint_ssid⟩⟩

def twoChannels : ScanBuffer where
  memory address := ([(4106, 2), (4108, 109), (4112, 128), (4126, 1), (4127, 65), (4180, 1), (4186, 208), (4187, 255),
    (4236, 109), (4240, 128), (4254, 1), (4255, 65), (4308, 6), (4314, 196), (4315, 255)].lookup address).getD 0
  buffer := 4096
  length := 268
  pointerBits := 32
  placed := by decide

theorem scanBuffers_table_twoChannels : (twoChannels.parseScanBuffer 16 [] []).1.length = 2 ∧
    ∀ range ∈ (twoChannels.parseScanBuffer 16 [] []).2, twoChannels.Inside range :=
  ⟨by decide, ((scanBuffers_table 16 [twoChannels]).2 twoChannels).2.1 (by unfold NoWrap; decide) []⟩

/-- Both entries stay, for the table tells channels apart and not bands. -/
theorem scan_twoPerBand : ¬ OnePerBand (twoChannels.parseScanBuffer 16 [] []).1 := by
  unfold OnePerBand
  decide

end ScanBuffer

end Bmx.Network
