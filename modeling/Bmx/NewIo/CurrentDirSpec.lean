import Bmx.NewIo.CurrentDir

/-!
# Into a directory and back

The path of a current directory changes its shape on the way into a directory and back, with or without a slash at its end,
but not its meaning. Only the parent of a directory that stands right behind the name of its volume is looked for elsewhere.
-/

namespace Bmx.NewIo

open FatFs List

/-! ### Prefixes -/

variable {path front name joined currentDir : Bytes} {stat : Stat}

theorem mem_of_hasFatfsVolumePrefix (h : hasFatfsVolumePrefix path = true) : colon ∈ path := by
  have hlt : path.idxOf colon < path.idxOf slash := of_decide_eq_true h
  exact idxOf_lt_length_iff.1 (Nat.lt_of_lt_of_le hlt idxOf_le_length)

theorem hasFatfsVolumePrefix_append (h : hasFatfsVolumePrefix path = true) (more : Bytes) :
    hasFatfsVolumePrefix (path ++ more) = true ∧ (path ++ more).idxOf colon = path.idxOf colon := by
  have hcolon := mem_of_hasFatfsVolumePrefix h
  have hbound := idxOf_lt_length_iff.2 hcolon
  have hlt : path.idxOf colon < path.idxOf slash := of_decide_eq_true h
  have hsame : (path ++ more).idxOf colon = path.idxOf colon := by rw [idxOf_append, if_pos hcolon]
  refine ⟨decide_eq_true ?_, hsame⟩
  rw [hsame, idxOf_append]
  split <;> omega

/-- A slash at the end of a path does not make a volume prefix, or take it away. -/
theorem hasFatfsVolumePrefix_slash (path : Bytes) : hasFatfsVolumePrefix (path ++ [slash]) = hasFatfsVolumePrefix path := by
  by_cases h : hasFatfsVolumePrefix path = true
  · rw [h, (hasFatfsVolumePrefix_append h _).1]
  · rw [Bool.not_eq_true] at h
    have hle : ¬ path.idxOf colon < path.idxOf slash := of_decide_eq_false h
    have hslash : path.idxOf slash ≤ path.length := idxOf_le_length
    rw [h]
    apply decide_eq_false
    rw [idxOf_append, idxOf_append]
    by_cases hcolon : colon ∈ path
    · have hbound := idxOf_lt_length_iff.2 hcolon
      have hin : slash ∈ path := by
        by_contra hnone
        rw [idxOf_eq_length hnone] at hle
        omega
      rwa [if_pos hcolon, if_pos hin]
    · rw [if_neg hcolon]
      split
      · omega
      · change ¬ 1 + path.length < 0 + path.length
        omega

section

variable (drives : Drives) {path : Bytes}

theorem volume_slash (path : Bytes) : drives.volume (path ++ [slash]) = drives.volume path := by
  unfold Drives.volume
  rw [hasFatfsVolumePrefix_slash]
  split
  · rename_i h
    have hbound := idxOf_lt_length_iff.2 (mem_of_hasFatfsVolumePrefix h)
    rw [(hasFatfsVolumePrefix_append h _).2, take_append_of_le_length (by omega)]
  · rfl

theorem pathNames_slash (path name : Bytes) : pathNames name (path ++ [slash]) = pathNames name path := by
  induction path generalizing name with
  | nil => simp [pathNames]
  | cons c path ih =>
    rw [cons_append, pathNames, ih, ih, pathNames]

theorem namesFromRoot_slash (path : Bytes) : namesFromRoot (path ++ [slash]) = namesFromRoot path := by
  unfold namesFromRoot
  rw [hasFatfsVolumePrefix_slash]
  split
  · rename_i h
    have hbound := idxOf_lt_length_iff.2 (mem_of_hasFatfsVolumePrefix h)
    rw [(hasFatfsVolumePrefix_append h _).2, drop_append_of_le_length (by omega), pathNames_slash]
  · rw [pathNames_slash]

theorem directory_slash (path : Bytes) : drives.directory (path ++ [slash]) = drives.directory path := by
  unfold Drives.directory
  rw [volume_slash, namesFromRoot_slash]

theorem isAbsolutePath_cases (h : isAbsolutePath path = true) :
    path.head? = some slash ∨ hasFatfsVolumePrefix path = true := of_decide_eq_true h

theorem isAbsolutePath_slash (hne : path ≠ []) (h : isAbsolutePath (path ++ [slash]) = true) : isAbsolutePath path = true := by
  rcases isAbsolutePath_cases h with hfirst | hprefix
  · rw [head?_append_of_ne_nil _ hne] at hfirst
    exact decide_eq_true (.inl hfirst)
  · rw [hasFatfsVolumePrefix_slash] at hprefix
    exact decide_eq_true (.inr hprefix)

theorem not_hasFatfsVolumePrefix (h : path.head? = some slash) : hasFatfsVolumePrefix path = false := by
  apply decide_eq_false
  have hzero : path.idxOf slash = 0 := by
    cases path with
    | nil => cases h
    | cons c path =>
      cases h
      exact idxOf_cons_self
  omega

/-- What follows an absolute path does not move it to another volume. -/
theorem volume_append (h : isAbsolutePath path = true) (more : Bytes) :
    drives.volume (path ++ more) = drives.volume path ∧ isAbsolutePath (path ++ more) = true := by
  rcases isAbsolutePath_cases h with hfirst | hprefix
  · have hmore : (path ++ more).head? = some slash := by
      rw [List.head?_append, hfirst]
      rfl
    unfold Drives.volume
    rw [not_hasFatfsVolumePrefix hmore, not_hasFatfsVolumePrefix hfirst]
    exact ⟨rfl, decide_eq_true (.inl hmore)⟩
  · obtain ⟨hmore, hsame⟩ := hasFatfsVolumePrefix_append hprefix more
    have hbound := idxOf_lt_length_iff.2 (mem_of_hasFatfsVolumePrefix hprefix)
    unfold Drives.volume
    rw [hmore, hprefix, hsame, take_append_of_le_length (by omega)]
    exact ⟨rfl, decide_eq_true (.inr hmore)⟩

end

/-! ### Slashes at the end -/

theorem dropLast_append_slash (h : path.getLast? = some slash) : path.dropLast ++ [slash] = path := by
  obtain ⟨front, rfl⟩ := getLast?_eq_some_iff.1 h
  rw [dropLast_concat]

/-- What is kept when a slash at the end goes is true of the path without any. -/
theorem stripTrailingSlash_induct {P : Bytes → Prop} (hstep : ∀ path, path ≠ [] → P (path ++ [slash]) → P path)
    (h : P path) : P (stripTrailingSlash path) := by
  have hloop (count : Nat) : ∀ path, P path → P (stripTrailingSlashLoop count path) := by
    induction count with
    | zero => exact fun path h => h
    | succ count ih =>
      intro path h
      rw [stripTrailingSlashLoop]
      split
      · rename_i hstrip
        obtain ⟨hlength, hlast, -⟩ := hstrip
        apply ih
        apply hstep
        · intro hempty
          have hone := congrArg List.length hempty
          rw [length_dropLast, length_nil] at hone
          omega
        · rwa [dropLast_append_slash hlast]
      · exact h
  exact hloop _ path h

theorem stripTrailingSlash_of_last (h : path.getLast? ≠ some slash) : stripTrailingSlash path = path := by
  unfold stripTrailingSlash
  cases path.length with
  | zero => rfl
  | succ count => rw [stripTrailingSlashLoop, if_neg fun hstrip => h hstrip.2.1]

theorem stripTrailingSlash_last (path : Bytes) :
    isRootPath (stripTrailingSlash path) = true ∨ (stripTrailingSlash path).getLast? ≠ some slash := by
  have hloop (count : Nat) : ∀ path : Bytes, path.length ≤ count →
      isRootPath (stripTrailingSlashLoop count path) = true ∨ (stripTrailingSlashLoop count path).getLast? ≠ some slash := by
    induction count with
    | zero =>
      intro path hlength
      rw [length_eq_zero_iff.1 (Nat.le_zero.1 hlength)]
      exact .inr nofun
    | succ count ih =>
      intro path hlength
      rw [stripTrailingSlashLoop]
      split
      · apply ih
        rw [length_dropLast]
        omega
      · rename_i hkept
        by_cases hlast : path.getLast? = some slash
        · obtain ⟨front, rfl⟩ := getLast?_eq_some_iff.1 hlast
          by_cases hfront : front = []
          · rw [hfront]
            exact .inl (by decide)
          · left
            have hlong : (front ++ [slash]).length > 1 := by
              have hpos := length_pos_iff.2 hfront
              rw [length_append, length_singleton]
              omega
            by_contra hnot
            exact hkept ⟨hlong, hlast, by simpa using hnot⟩
        · exact .inr hlast
  exact hloop _ path (Nat.le_refl _)

theorem volume_strip (drives : Drives) (path : Bytes) : drives.volume (stripTrailingSlash path) = drives.volume path := by
  refine stripTrailingSlash_induct (P := fun other => drives.volume other = drives.volume path) ?_ rfl
  intro other _ hother
  rwa [volume_slash] at hother

theorem isAbsolutePath_strip (h : isAbsolutePath path = true) : isAbsolutePath (stripTrailingSlash path) = true :=
  stripTrailingSlash_induct (P := fun other => isAbsolutePath other = true) (fun _ => isAbsolutePath_slash) h

/-! ### The parent -/

theorem lastSlash_append (hname : slash ∉ name) : lastSlash (front ++ slash :: name) = some front.length := by
  have hmem : slash ∈ front ++ slash :: name := mem_append_right _ mem_cons_self
  have hindex : (front ++ slash :: name).reverse.idxOf slash = name.length := by
    rw [reverse_append, reverse_cons, append_assoc, idxOf_append,
      if_neg (mt mem_reverse.1 hname), singleton_append, idxOf_cons_self, length_reverse, Nat.zero_add]
  unfold lastSlash
  rw [if_pos hmem, hindex, length_append, length_cons]
  congr 1
  omega

theorem exists_lastSlash (h : slash ∈ path) : ∃ front name, path = front ++ slash :: name ∧ slash ∉ name := by
  obtain ⟨name, front, hsplit, hname⟩ := eq_append_cons_of_mem (mem_reverse.2 h)
  refine ⟨front.reverse, name.reverse, ?_, mt mem_reverse.1 hname⟩
  have hpath := congrArg List.reverse hsplit
  rw [reverse_reverse, reverse_append, reverse_cons, append_assoc] at hpath
  exact hpath

theorem getLast?_append_name (front : Bytes) (hne : name ≠ []) :
    (front ++ slash :: name).getLast? = name.getLast? := by
  rw [getLast?_append_of_ne_nil _ (cons_ne_nil _ _), getLast?_cons_of_ne_nil hne]

theorem moveToParent_append (hname : slash ∉ name) (hne : name ≠ [])
    (hroot : isRootPath (front ++ slash :: name) = false) :
    moveToParent (front ++ slash :: name) =
      if front = [] ∨ (colon ∈ front ++ slash :: name ∧ front.length = (front ++ slash :: name).idxOf colon + 1) then
        front ++ [slash]
      else front := by
  have hlast : (front ++ slash :: name).getLast? ≠ some slash := by
    rw [getLast?_append_name front hne]
    exact fun hslash => hname (mem_of_getLast? hslash)
  have htake : (front ++ slash :: name).take (front.length + 1) = front ++ [slash] := by
    rw [take_length_add_append]
    rfl
  unfold moveToParent
  rw [stripTrailingSlash_of_last hlast]
  rw [if_neg (by rw [hroot]; exact Bool.false_ne_true), lastSlash_append hname]
  change (if front.length = 0 then (front ++ slash :: name).take 1
    else if colon ∈ front ++ slash :: name ∧ front.length = (front ++ slash :: name).idxOf colon + 1 then
      (front ++ slash :: name).take (front.length + 1)
    else (front ++ slash :: name).take front.length) = _
  rw [htake, take_left]
  by_cases hfront : front = []
  · rw [if_pos (length_eq_zero_iff.2 hfront), if_pos (.inl hfront), hfront]
    rfl
  · rw [if_neg (mt length_eq_zero_iff.1 hfront)]
    by_cases hcolon : colon ∈ front ++ slash :: name ∧ front.length = (front ++ slash :: name).idxOf colon + 1
    · rw [if_pos hcolon, if_pos (.inr hcolon)]
    · rw [if_neg hcolon, if_neg (not_or.2 ⟨hfront, hcolon⟩)]

theorem isRootPath_append (hname : slash ∉ name) (hcolon : colon ∉ name) (hne : name ≠ []) :
    isRootPath (front ++ slash :: name) = false := by
  have hlast := getLast?_append_name front hne
  have hsplit := takeWhile_append_dropWhile (p := fun c => decide (c ≠ colon)) (l := front ++ slash :: name)
  apply decide_eq_false
  rintro (hsingle | hend | hend)
  · have hlength := congrArg List.length hsingle
    have hpos := length_pos_iff.2 hne
    rw [length_append, length_cons, length_singleton] at hlength
    omega
  · rw [hend] at hsplit
    rw [← hsplit, getLast?_concat] at hlast
    exact hcolon (mem_of_getLast? hlast.symm)
  · rw [hend] at hsplit
    rw [← hsplit, getLast?_append_of_ne_nil _ (cons_ne_nil _ _)] at hlast
    exact hname (mem_of_getLast? hlast.symm)

theorem directory_moveToParent (drives : Drives) (hname : slash ∉ name) (hcolon : colon ∉ name)
    (hne : name ≠ []) : drives.directory (moveToParent (front ++ slash :: name)) = drives.directory front := by
  rw [moveToParent_append hname hne (isRootPath_append hname hcolon hne)]
  split
  · exact directory_slash drives front
  · rfl

/-! ### Into a directory and back -/

theorem not_isAbsolutePath (hname : SingleComponent name) : isAbsolutePath name = false := by
  apply decide_eq_false
  rintro (hfirst | hprefix)
  · exact hname.noSlash (mem_of_head? hfirst)
  · exact hname.noColon (mem_of_hasFatfsVolumePrefix hprefix)

theorem appendPathComponent_cases {component : Bytes} (h : appendPathComponent path component = some joined) :
    (component = [] ∧ joined = path) ∨
      joined = if path ≠ [] ∧ path.getLast? ≠ some slash then path ++ slash :: component else path ++ component := by
  unfold appendPathComponent at h
  by_cases hempty : component = []
  · rw [if_pos hempty] at h
    exact .inl ⟨hempty, (Option.some.inj h).symm⟩
  · rw [if_neg hempty, Option.ite_none_right_eq_some] at h
    exact .inr (Option.some.inj h.2).symm

theorem appendPathComponent_name (hcurrent : currentDir ≠ []) (hne : name ≠ [])
    (h : appendPathComponent currentDir name = some joined) :
    ∃ front, joined = front ++ slash :: name ∧ (front = currentDir ∨ front ++ [slash] = currentDir) := by
  rcases appendPathComponent_cases h with ⟨hempty, -⟩ | hjoined
  · exact absurd hempty hne
  rw [hjoined]
  split
  · exact ⟨currentDir, rfl, .inl rfl⟩
  · rename_i hlast
    obtain ⟨front, rfl⟩ := getLast?_eq_some_iff.1 (not_not.1 (not_and.1 hlast hcurrent))
    exact ⟨front, by rw [append_assoc]; rfl, .inr rfl⟩

/-- What `chdir` goes to, of a path that is not one of the short ones. -/
theorem chdir_target {next : Bytes} (hne : path ≠ []) (hdot : path ≠ dot)
    (hdotDot : path ≠ dotDot) (h : chdir stat currentDir path = .ok next) : circlePath currentDir path = .ok next := by
  unfold chdir at h
  rw [if_neg (not_or.2 ⟨hne, hdot⟩), if_neg hdotDot] at h
  split at h
  · cases h
  rename_i target htarget
  split at h
  · cases h
    exact htarget
  split at h
  · cases h
  split at h
  · cases h
    exact htarget
  · cases h

/-- A directory in the current directory has its name behind a slash. -/
theorem chdir_name {inside : Bytes} (hcurrent : currentDir ≠ []) (hname : SingleComponent name)
    (h : chdir stat currentDir name = .ok inside) :
    ∃ front, inside = front ++ slash :: name ∧ (front = currentDir ∨ front ++ [slash] = currentDir) := by
  have htarget := chdir_target hname.nonempty hname.notDot hname.notDotDot h
  have hstart : name.take 2 ≠ [46, slash] := by
    intro htake
    have hmem : slash ∈ name.take 2 := by
      rw [htake]
      decide
    exact hname.noSlash (mem_of_mem_take hmem)
  unfold circlePath at htarget
  rw [if_neg hname.nonempty, not_isAbsolutePath hname, if_neg Bool.false_ne_true, if_neg hname.notDot, if_neg hstart] at htarget
  split at htarget
  · cases htarget
  rename_i joined hjoined
  obtain ⟨front, rfl, hfront⟩ := appendPathComponent_name hcurrent hname.nonempty hjoined
  refine ⟨front, ?_, hfront⟩
  rw [stripTrailingSlash_of_last] at htarget
  · exact (Except.ok.inj htarget).symm
  · rw [getLast?_append_name front hname.nonempty]
    exact fun hslash => hname.noSlash (mem_of_getLast? hslash)

theorem returnsHome (drives : Drives) (hcurrent : currentDir ≠ []) : ReturnsHome drives currentDir := by
  intro name stat stat' inside back hname hinside hback
  obtain ⟨front, rfl, hfront⟩ := chdir_name hcurrent hname hinside
  have hparent : back = moveToParent (front ++ slash :: name) := (Except.ok.inj hback).symm
  rw [hparent, directory_moveToParent drives hname.noSlash hname.noColon hname.nonempty]
  rcases hfront with rfl | rfl
  · rfl
  · exact (directory_slash drives front).symm

/-! ### Volumes -/

section

variable (drives : Drives) {currentDir path : Bytes}

/-- A path is resolved on the volume of the current directory, unless there is none. -/
theorem volume_circlePath (hcurrent : isAbsolutePath currentDir = true) (hrelative : isAbsolutePath path = false)
    (hne : path ≠ []) {target : Bytes} (h : circlePath currentDir path = .ok target) :
    drives.volume target = drives.volume currentDir ∧ isAbsolutePath target = true := by
  unfold circlePath at h
  rw [if_neg hne, hrelative, if_neg Bool.false_ne_true] at h
  split at h
  · cases h
    exact ⟨volume_strip drives _, isAbsolutePath_strip hcurrent⟩
  split at h
  · cases h
  rename_i joined hjoined
  cases h
  obtain ⟨more, rfl⟩ : ∃ more, joined = currentDir ++ more := by
    rcases appendPathComponent_cases hjoined with ⟨-, hjoined⟩ | hjoined
    · exact ⟨[], by rw [hjoined, append_nil]⟩
    · rw [hjoined]
      split
      · exact ⟨_, rfl⟩
      · exact ⟨_, rfl⟩
  obtain ⟨hvolume, habsolute⟩ := volume_append drives hcurrent more
  exact ⟨(volume_strip drives _).trans hvolume, isAbsolutePath_strip habsolute⟩

variable {front name : Bytes}

theorem isAbsolutePath_front (h : isAbsolutePath (front ++ slash :: name) = true) (hne : front ≠ []) :
    isAbsolutePath front = true := by
  rcases isAbsolutePath_cases h with hfirst | hprefix
  · rw [head?_append_of_ne_nil _ hne] at hfirst
    exact decide_eq_true (.inl hfirst)
  · have hlt : (front ++ slash :: name).idxOf colon < (front ++ slash :: name).idxOf slash := of_decide_eq_true hprefix
    have hslash : front.idxOf slash ≤ front.length := idxOf_le_length
    rw [idxOf_append, idxOf_append, idxOf_cons_self] at hlt
    have hcolon : colon ∈ front := by
      by_contra hnone
      rw [if_neg hnone] at hlt
      split at hlt <;> omega
    have hbound := idxOf_lt_length_iff.2 hcolon
    refine decide_eq_true (.inr (decide_eq_true ?_))
    rw [if_pos hcolon] at hlt
    by_cases hin : slash ∈ front
    · rwa [if_pos hin] at hlt
    · rwa [idxOf_eq_length hin]

theorem volume_of_head (h : path.head? = some slash) : drives.volume path = drives.currentDrive := by
  unfold Drives.volume
  rw [not_hasFatfsVolumePrefix h, if_neg Bool.false_ne_true]

theorem volume_parent (hname : slash ∉ name) (hne : name ≠ [])
    (hroot : isRootPath (front ++ slash :: name) = false) (habsolute : isAbsolutePath (front ++ slash :: name) = true) :
    drives.volume (moveToParent (front ++ slash :: name)) = drives.volume (front ++ slash :: name) ∧
      isAbsolutePath (moveToParent (front ++ slash :: name)) = true := by
  rw [moveToParent_append hname hne hroot]
  by_cases hempty : front = []
  · rw [if_pos (.inl hempty), hempty]
    exact ⟨(volume_of_head drives rfl).trans (volume_of_head drives rfl).symm, by decide⟩
  · have hfront := isAbsolutePath_front habsolute hempty
    rw [(volume_append drives hfront (slash :: name)).1]
    split
    · exact volume_append drives hfront [slash]
    · exact ⟨rfl, hfront⟩

theorem volume_moveToParent (hcurrent : isAbsolutePath currentDir = true) :
    (drives.volume (moveToParent currentDir) = drives.volume currentDir ↔ ¬ LosesVolume drives currentDir) ∧
      isAbsolutePath (moveToParent currentDir) = true := by
  have habsolute := isAbsolutePath_strip hcurrent
  have hvolume := volume_strip drives currentDir
  by_cases hroot : isRootPath (stripTrailingSlash currentDir) = true
  · have hparent : moveToParent currentDir = stripTrailingSlash currentDir := if_pos hroot
    have hnot : ¬ LosesVolume drives currentDir := fun hloses => Bool.false_ne_true (hloses.2.1.symm.trans hroot)
    rw [hparent]
    exact ⟨iff_of_true hvolume hnot, habsolute⟩
  have hlast := (stripTrailingSlash_last currentDir).resolve_left hroot
  rw [Bool.not_eq_true] at hroot
  have hparent : moveToParent currentDir = moveToParent (stripTrailingSlash currentDir) := by
    unfold moveToParent
    rw [stripTrailingSlash_of_last hlast]
  by_cases hslash : slash ∈ stripTrailingSlash currentDir
  · have hnot : ¬ LosesVolume drives currentDir := fun hloses => hloses.1 hslash
    obtain ⟨front, name, hsplit, hname⟩ := exists_lastSlash hslash
    rw [hsplit] at hparent hroot habsolute hvolume hlast
    have hne : name ≠ [] := by
      rintro rfl
      exact hlast getLast?_concat
    obtain ⟨hsame, hresult⟩ := volume_parent drives hname hne hroot habsolute
    rw [hparent]
    exact ⟨iff_of_true (hsame.trans hvolume) hnot, hresult⟩
  · have hresult : moveToParent currentDir = [slash] := by
      unfold moveToParent lastSlash
      rw [if_neg (by rw [hroot]; exact Bool.false_ne_true), if_neg hslash]
    rw [hresult, volume_of_head drives rfl]
    refine ⟨?_, by decide⟩
    constructor
    · intro hsame hloses
      exact hloses.2.2 hsame.symm
    · intro hstays
      by_contra hother
      exact hstays ⟨hslash, hroot, fun hsame => hother hsame.symm⟩

theorem Reachable.absolute (h : Reachable currentDir) : isAbsolutePath currentDir = true := by
  induction h with
  | start => decide
  | @chdir currentDir path next stat hreach hchdir ih =>
    by_cases hshort : path = [] ∨ path = dot
    · unfold NewIo.chdir at hchdir
      rw [if_pos hshort] at hchdir
      rwa [← Except.ok.inj hchdir]
    obtain ⟨hne, hdot⟩ := not_or.1 hshort
    by_cases hdotDot : path = dotDot
    · unfold NewIo.chdir at hchdir
      rw [if_neg hshort, if_pos hdotDot] at hchdir
      rw [← Except.ok.inj hchdir]
      exact (volume_moveToParent ⟨fun _ => 0, 0⟩ ih).2
    have htarget := chdir_target hne hdot hdotDot hchdir
    by_cases habsolute : isAbsolutePath path = true
    · unfold circlePath at htarget
      rw [if_neg hne, if_pos habsolute] at htarget
      split at htarget
      · cases htarget
      · cases htarget
        exact isAbsolutePath_strip habsolute
    · exact (volume_circlePath ⟨fun _ => 0, 0⟩ ih (Bool.not_eq_true _ ▸ habsolute) hne htarget).2

theorem ne_nil_of_absolute (h : isAbsolutePath path = true) : path ≠ [] := by
  rintro rfl
  exact absurd h (by decide)

theorem staysOnVolume_iff (hcurrent : isAbsolutePath currentDir = true) (hrelative : isAbsolutePath path = false) :
    StaysOnVolume drives currentDir path ↔
      (path = [] → drives.volume currentDir = drives.currentDrive) ∧ (path = dotDot → ¬ LosesVolume drives currentDir) := by
  by_cases hne : path = []
  · subst hne
    have htarget : circlePath currentDir [] = .ok [] := if_pos rfl
    have hnone : drives.volume [] = drives.currentDrive := rfl
    constructor
    · intro hstays
      exact ⟨fun _ => ((hstays.1 [] htarget).symm.trans hnone), nofun⟩
    · rintro ⟨hsame, -⟩
      refine ⟨fun target h => ?_, fun stat next h => ?_⟩
      · rw [← Except.ok.inj (htarget.symm.trans h), hnone, hsame rfl]
      · unfold chdir at h
        rw [← Except.ok.inj h]
  have hresolved : ∀ target, circlePath currentDir path = .ok target → drives.volume target = drives.volume currentDir :=
    fun target h => (volume_circlePath drives hcurrent hrelative hne h).1
  by_cases hdotDot : path = dotDot
  · subst hdotDot
    have hnext (stat : Stat) : chdir stat currentDir dotDot = .ok (moveToParent currentDir) := rfl
    obtain ⟨hparent, -⟩ := volume_moveToParent drives hcurrent
    constructor
    · intro hstays
      exact ⟨fun h => absurd h hne, fun _ => hparent.1 (hstays.2 (fun _ => .ok true) _ (hnext _))⟩
    · rintro ⟨-, hkeeps⟩
      refine ⟨hresolved, fun stat next h => ?_⟩
      rw [← Except.ok.inj ((hnext stat).symm.trans h)]
      exact hparent.2 (hkeeps rfl)
  · refine iff_of_true ⟨hresolved, fun stat next h => ?_⟩ ⟨fun h => absurd h hne, fun h => absurd h hdotDot⟩
    by_cases hdot : path = dot
    · unfold chdir at h
      rw [if_pos (.inr hdot)] at h
      rw [← Except.ok.inj h]
    · exact hresolved next (chdir_target hne hdot hdotDot h)

/-- In each current directory that is reached the way into a directory and back is the identity, and a relative path stays
on its volume but for the empty path and the way to the parent from a directory right behind the name of another volume. -/
theorem chdir_stays (hreach : Reachable currentDir) :
    ReturnsHome drives currentDir ∧ ∀ path, isAbsolutePath path = false →
      (StaysOnVolume drives currentDir path ↔
        (path = [] → drives.volume currentDir = drives.currentDrive) ∧
          (path = dotDot → ¬ LosesVolume drives currentDir)) :=
  ⟨returnsHome drives (ne_nil_of_absolute hreach.absolute), fun _ => staysOnVolume_iff drives hreach.absolute⟩

end

/-! ### A stick in the second drive -/

/-- The name of the stick stands for the second drive. -/
def stickDrives : Drives := ⟨fun volume => if volume = ascii "USB" then 1 else 0, 0⟩

theorem reachable_games : Reachable (ascii "USB:games") :=
  @Reachable.chdir _ (ascii "USB:games") _ (fun _ => .ok true) .start (by decide)

theorem chdir_stays_games : ReturnsHome stickDrives (ascii "USB:games") ∧
    StaysOnVolume stickDrives (ascii "USB:games") (ascii "demo") ∧
      ¬ StaysOnVolume stickDrives (ascii "USB:games") dotDot := by
  obtain ⟨hhome, hstays⟩ := chdir_stays stickDrives reachable_games
  refine ⟨hhome, (hstays (ascii "demo") (by decide)).2 ⟨by decide, fun h => absurd h (by decide)⟩, fun hup => ?_⟩
  have hkept := ((hstays dotDot (by decide)).1 hup).2 rfl
  exact hkept ⟨by decide, by decide, by decide⟩

/-- From the games on the stick the way up leads to the root of the card. -/
theorem games_loses_stick : ¬ ∀ (drives : Drives) (currentDir : Bytes), Reachable currentDir →
    ReturnsHome drives currentDir ∧
      ∀ path, path ≠ [] → isAbsolutePath path = false → StaysOnVolume drives currentDir path := by
  intro h
  obtain ⟨-, hstays⟩ := h stickDrives _ reachable_games
  have hup := (hstays dotDot (by decide) (by decide)).2 (fun _ => .ok true) [slash] (by decide)
  exact absurd hup (by decide)

end Bmx.NewIo
