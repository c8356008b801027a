import Bmx.Remote.BmxApiRouter

/-!
# The media paths of the BMX API

A path that a route accepts has been decoded once, and what it was decoded to names a volume, one of
the media directories there, and below it only names that the card takes as they are.
-/

namespace Bmx.Remote

open Update List Option

/-! ### Decoding -/

/-- What `DecodePercent` reads: a byte stands for itself or is escaped, and none is NUL. -/
inductive PercentEncodes : Bytes → Bytes → Prop
  | nil : PercentEncodes [] []
  | plain {value : UInt8} {source decoded : Bytes} (hescape : value ≠ 37) (hnul : value ≠ 0)
      (hrest : PercentEncodes source decoded) : PercentEncodes (value :: source) (value :: decoded)
  | escaped {high low highDigit lowDigit : UInt8} {source decoded : Bytes}
      (hhigh : hexValue high = some highDigit) (hlow : hexValue low = some lowDigit)
      (hnul : highDigit * 16 + lowDigit ≠ 0) (hrest : PercentEncodes source decoded) :
      PercentEncodes (37 :: high :: low :: source) ((highDigit * 16 + lowDigit) :: decoded)

variable {source decoded name path first volume : Bytes} {maximumPathBytes : Nat} {requireFile : Bool}
  {rest : List Bytes}

theorem percentEncodes_of_decoded (h : percentDecoded source = some decoded) : PercentEncodes source decoded := by
  induction source using percentDecoded.induct generalizing decoded with
  | case1 =>
    cases h
    exact .nil
  | case2 high low rest ih =>
    obtain ⟨highDigit, hhigh, h⟩ := bind_eq_some_iff.1 h
    obtain ⟨lowDigit, hlow, h⟩ := bind_eq_some_iff.1 h
    split at h
    · cases h
    · rename_i hnul
      obtain ⟨tail, htail, rfl⟩ := map_eq_some_iff.1 h
      exact .escaped hhigh hlow hnul (ih htail)
  | case3 rest hshort =>
    rw [percentDecoded, if_pos rfl] at h
    · cases h
    · exact hshort
  | case4 rest hescape =>
    rw [percentDecoded.eq_def] at h
    dsimp only at h
    cases h
  | case5 value rest hescape hnul ih =>
    rw [percentDecoded.eq_def] at h
    dsimp only at h
    rw [if_neg hescape, if_neg hnul] at h
    obtain ⟨tail, htail, rfl⟩ := map_eq_some_iff.1 h
    exact .plain hescape hnul (ih htail)

theorem decodePercent_eq_some {capacity : Nat}
    (h : decodePercent source capacity = some decoded) : PercentEncodes source decoded := by
  exact percentEncodes_of_decoded (filter_eq_some_iff.1 h).1

/-! ### Names -/

/-- A name below a media directory. -/
structure SafeName (name : Bytes) : Prop where
  named : name ≠ []
  current : name ≠ ascii "."
  parent : name ≠ ascii ".."
  printable : ∀ c ∈ name, 0x20 ≤ c ∧ c ≠ 0x7f
  separator : ∀ c ∈ name, c ≠ slash ∧ c ≠ 92 ∧ c ≠ 58

theorem safeName_of_valid (hshape : componentShapeValid name = true)
    (hcharacters : ∀ c ∈ name, c ≠ slash ∧ developerCharacter c = true) : SafeName name := by
  unfold componentShapeValid at hshape
  have hdot : name.getLast? ≠ some 46 := fun heq => by rw [heq] at hshape; simp at hshape
  refine ⟨?_, ?_, ?_, fun c hc => ?_, fun c hc => ?_⟩
  · rintro rfl
    simp at hshape
  · rintro rfl
    exact hdot (by decide)
  · rintro rfl
    exact hdot (by decide)
  · have hallowed := (hcharacters c hc).2
    unfold developerCharacter at hallowed
    simp only [Bool.and_eq_true, decide_eq_true_eq, bne_iff_ne] at hallowed
    exact hallowed.1
  · refine ⟨(hcharacters c hc).1, ?_, ?_⟩
    all_goals
      rintro rfl
      exact absurd (hcharacters _ hc).2 (by decide)

def joinNames (first : Bytes) (rest : List Bytes) : Bytes := first ++ rest.flatMap fun name => slash :: name

/-- What the scan accepts is a path of names, the first of which begins with what was read before. -/
theorem scanComponents_names {component : Bytes}
    (h : scanComponents developerCharacter componentShapeValid component path = true)
    (hcomponent : ∀ c ∈ component, c ≠ slash ∧ developerCharacter c = true) :
    ∃ first rest, component ++ path = joinNames first rest ∧ SafeName first ∧
      ∀ name ∈ rest, SafeName name := by
  induction path generalizing component with
  | nil =>
    exact ⟨component, [], rfl, safeName_of_valid h hcomponent, fun name hname => by cases hname⟩
  | cons value path ih =>
    rw [scanComponents] at h
    split at h
    · rename_i hslash
      rw [Bool.and_eq_true] at h
      obtain ⟨first, rest, hjoin, hfirst, hrest⟩ := ih h.2 (fun c hc => by cases hc)
      refine ⟨component, first :: rest, ?_, safeName_of_valid h.1 hcomponent, fun name hname => ?_⟩
      · rw [hslash]
        exact congrArg (fun tail => component ++ slash :: tail) hjoin
      · rcases mem_cons.1 hname with rfl | hname
        · exact hfirst
        · exact hrest name hname
    · rename_i hslash
      rw [Bool.and_eq_true] at h
      obtain ⟨first, rest, hjoin, hnames⟩ := ih h.2 (fun c hc => by
        rcases mem_append.1 hc with hc | hc
        · exact hcomponent c hc
        · obtain rfl := mem_singleton.1 hc
          exact ⟨hslash, h.1⟩)
      rw [append_assoc, singleton_append] at hjoin
      exact ⟨first, rest, hjoin, hnames⟩

theorem validateDeveloper_names (h : validateDeveloperFatRelativePath path maximumPathBytes = .ok) :
    ∃ first rest, path = joinNames first rest ∧ SafeName first ∧ ∀ name ∈ rest, SafeName name := by
  unfold validateDeveloperFatRelativePath at h
  split at h
  · cases h
  split at h
  · cases h
  split at h
  · cases h
  split at h
  · rename_i hscan
    exact scanComponents_names hscan fun c hc => by cases hc
  · cases h

/-- One of the media directories, in any case. -/
def IsMediaRoot (name : Bytes) : Prop := ∃ root ∈ mediaRoots, fold name = fold root

/-- A path on a volume, in one of its media directories. -/
structure MediaNames (relative root : Bytes) (rest : List Bytes) : Prop where
  join : relative = joinNames root rest
  isRoot : IsMediaRoot root
  safeRoot : SafeName root
  names : ∀ name ∈ rest, SafeName name

theorem takeWhile_joinNames (hfirst : SafeName first) (rest : List Bytes) :
    (joinNames first rest).takeWhile (· != slash) = first := by
  have hall : ∀ c ∈ first, (c != slash) = true := fun c hc => bne_iff_ne.2 (hfirst.separator c hc).1
  unfold joinNames
  rw [takeWhile_append_of_pos hall]
  cases rest with
  | nil | cons name rest => exact append_nil first

theorem validateMedia_names {relative : Bytes} (h : validateMediaFatRelativePath relative maximumPathBytes = .ok) :
    ∃ root rest, MediaNames relative root rest := by
  unfold validateMediaFatRelativePath at h
  split at h
  · rename_i hvalid
    split at h
    · rename_i hroot
      obtain ⟨root, rest, rfl, hfirst, hrest⟩ := validateDeveloper_names hvalid
      rw [takeWhile_joinNames hfirst] at hroot
      obtain ⟨allowed, hallowed, hequal⟩ := any_eq_true.1 hroot
      exact ⟨root, rest, rfl, ⟨allowed, hallowed, foldEqual_iff.1 hequal⟩, hfirst, hrest⟩
    · cases h
  · rename_i hstatus
    exact absurd h hstatus

/-! ### Paths -/

/-- One of the volumes, in any case, and its name as the backend knows it. -/
def IsMediaVolume (name volume : Bytes) : Prop := volume ∈ mediaVolumes ∧ name.map asciiUpper = volume

/-- What a path was decoded to, and the path that is used for it. -/
structure ConfinedPath (decoded : Bytes) (path : MediaPath) (root : Bytes) (rest : List Bytes) : Prop where
  volume : ∃ name, decoded = name ++ [58, slash] ++ joinNames root rest ∧ IsMediaVolume name path.volume
  names : MediaNames path.relative root rest
  absolute : path.absolute = path.volume ++ [58, slash] ++ joinNames root rest

theorem allowedVolume_eq_some (h : allowedVolume name = some volume) : IsMediaVolume name volume := by
  refine ⟨mem_of_find?_eq_some h, ?_⟩
  have hequal := find?_some h
  exact eq_of_beq hequal

theorem parseDecodedMediaPath_confined {path : MediaPath}
    (h : parseDecodedMediaPath decoded requireFile = some path) :
    ∃ root rest, ConfinedPath decoded path root rest ∧ (requireFile = true → rest ≠ []) := by
  have hsplit := takeWhile_append_dropWhile (p := (· != 58)) (l := decoded)
  unfold parseDecodedMediaPath at h
  generalize decoded.takeWhile (· != 58) = name at h hsplit
  generalize decoded.dropWhile (· != 58) = after at h hsplit
  unfold parseVolumePath at h
  split at h
  · rename_i relative
    obtain ⟨volume, hvolume, h⟩ := bind_eq_some_iff.1 h
    split at h
    · cases h
    rename_i hvalid
    split at h
    · cases h
    rename_i hfile
    split at h
    · cases h
    cases h
    rw [not_or, not_not] at hvalid
    obtain ⟨root, rest, hnames⟩ := validateMedia_names hvalid.2
    refine ⟨root, rest, ⟨⟨name, ?_, allowedVolume_eq_some hvolume⟩, hnames, ?_⟩, fun hrequire => ?_⟩
    · rw [← hsplit, hnames.join, append_assoc]
      rfl
    · rw [← hnames.join]
      rfl
    · rintro rfl
      refine hfile ⟨hrequire, fun hslash => ?_⟩
      have hname := hnames.safeRoot.separator slash (by rw [hnames.join] at hslash; simpa [joinNames] using hslash)
      exact hname.1 rfl
  · cases h

theorem parseMediaPath_confined {encoded : Bytes} {path : MediaPath}
    (h : parseMediaPath encoded requireFile = some path) :
    ∃ decoded root rest, PercentEncodes encoded decoded ∧ ConfinedPath decoded path root rest ∧
      (requireFile = true → rest ≠ []) := by
  obtain ⟨decoded, hdecoded, hpath⟩ := bind_eq_some_iff.1 h
  obtain ⟨root, rest, hconfined, hrest⟩ := parseDecodedMediaPath_confined hpath
  exact ⟨decoded, root, rest, decodePercent_eq_some hdecoded, hconfined, hrest⟩

theorem slash_mem_directoryPart (h : slash ∈ path) : slash ∈ directoryPart path := by
  unfold directoryPart
  rw [mem_reverse]
  have hreverse := mem_reverse.2 h
  rw [← takeWhile_append_dropWhile (p := (· != slash)) (l := path.reverse)] at hreverse
  rcases mem_append.1 hreverse with htaken | hdropped
  · exact absurd (mem_takeWhile_imp htaken) (by decide)
  · exact hdropped

theorem slash_mem_joinNames (h : rest ≠ []) : slash ∈ joinNames first rest := by
  cases rest with
  | nil => exact absurd rfl h
  | cons name rest => exact mem_append_right _ mem_cons_self

theorem isMediaVolume_self (h : volume ∈ mediaVolumes) : IsMediaVolume volume volume := by
  refine ⟨h, ?_⟩
  revert volume
  decide

theorem renameTarget_confined {source target : MediaPath} {root : Bytes}
    (hsource : ConfinedPath decoded source root rest) (hrest : rest ≠ [])
    (h : renameTarget source name = some target) :
    target = mediaPathOf source.volume (directoryPart source.relative ++ name) ∧
      ∃ root rest, ConfinedPath target.absolute target root rest ∧ rest ≠ [] := by
  unfold renameTarget at h
  dsimp only at h
  split at h
  · cases h
  split at h
  · cases h
  rename_i hvalid
  split at h
  · cases h
  cases h
  obtain ⟨root', rest', hnames⟩ := validateMedia_names (not_not.1 hvalid)
  obtain ⟨volumeName, -, hvolume⟩ := hsource.volume
  refine ⟨rfl, root', rest', ⟨⟨source.volume, ?_, isMediaVolume_self hvolume.1⟩, hnames, ?_⟩, ?_⟩
  · rw [← hnames.join]
    rfl
  · rw [← hnames.join]
    rfl
  · rintro rfl
    have hslash : slash ∈ directoryPart source.relative ++ name := by
      refine mem_append_left _ (slash_mem_directoryPart ?_)
      rw [hsource.names.join]
      exact slash_mem_joinNames hrest
    have hjoin : directoryPart source.relative ++ name = root' ++ [] := hnames.join
    rw [hjoin, append_nil] at hslash
    exact (hnames.safeRoot.separator slash hslash).1 rfl

/-! ### Requests -/

namespace BmxApiRouter

inductive MediaRoute
  | files | file | fileRename | directory | directoryRename
  deriving DecidableEq

def requestPaths (route : MediaRoute) (request : HttpRequestHead) : Except ApiReply (List MediaPath) :=
  match route with
  | .files => (filesRequest request).map fun listing => [listing.path]
  | .file => (filePath request).map fun path => [path]
  | .fileRename => (renamePaths request).map fun (source, target) => [source, target]
  | .directory => (directoryPath request).map fun path => [path]
  | .directoryRename => (directoryRenamePaths request).map fun (source, target) => [source, target]

def QueryDecodes (request : HttpRequestHead) (decoded : Bytes) : Prop :=
  ∃ name, ∃ encoded ∈ queryValues request.rawQuery name, PercentEncodes encoded decoded

/-- Where a path of a request comes from: the query has it, or it is that of a file with the name
that the query has. -/
def RequestDecodes (request : HttpRequestHead) (paths : List MediaPath) (path : MediaPath)
    (decoded : Bytes) : Prop :=
  QueryDecodes request decoded ∨ decoded = path.absolute ∧ ∃ source ∈ paths, ∃ name,
    QueryDecodes request name ∧ path = mediaPathOf source.volume (directoryPart source.relative ++ name)

def QueryPath (request : HttpRequestHead) (requireFile : Bool) (path : MediaPath) : Prop :=
  ∃ name encoded, queryValues request.rawQuery name = [encoded] ∧
    parseMediaPath encoded requireFile = some path

variable {request : HttpRequestHead} {path source target : MediaPath}

theorem QueryPath.confined {requireFile : Bool} (h : QueryPath request requireFile path) : ∃ decoded root rest,
      ConfinedPath decoded path root rest ∧ (requireFile = true → rest ≠ []) ∧
        QueryDecodes request decoded := by
  obtain ⟨name, encoded, hquery, hparse⟩ := h
  obtain ⟨decoded, root, rest, hdecodes, hconfined, hrest⟩ := parseMediaPath_confined hparse
  refine ⟨decoded, root, rest, hconfined, hrest, name, encoded, ?_, hdecodes⟩
  rw [hquery]
  exact mem_cons_self

theorem filesRequest_ok {listing : FilesRequest}
    (h : filesRequest request = .ok listing) : QueryPath request false listing.path := by
  unfold filesRequest at h
  split at h
  · cases h
  dsimp only at h
  split at h
  · rename_i encoded hquery
    split at h
    · cases h
    split at h
    · rename_i path names hparse hnames
      split at h
      · cases h
        exact ⟨_, encoded, hquery, hparse⟩
      · cases h
    · cases h
  · cases h

theorem filePath_ok (h : filePath request = .ok path) : QueryPath request true path := by
  unfold filePath at h
  split at h
  · cases h
  split at h
  · rename_i encoded hquery
    split at h
    · rename_i path' hparse
      cases h
      exact ⟨_, encoded, hquery, hparse⟩
    · cases h
  · cases h

theorem directoryPath_ok (h : directoryPath request = .ok path) : QueryPath request true path := by
  unfold directoryPath at h
  split at h
  · cases h
  split at h
  · rename_i encoded hquery
    split at h
    · rename_i path' hparse
      cases h
      exact ⟨_, encoded, hquery, hparse⟩
    · cases h
  · cases h

theorem renamePaths_ok (h : renamePaths request = .ok (source, target)) : QueryPath request true source ∧
      ∃ name, QueryDecodes request name ∧ renameTarget source name = some target := by
  unfold renamePaths at h
  split at h
  · cases h
  split at h
  · rename_i encodedPath encodedName hquery hname
    split at h
    · rename_i paths hpaths
      cases h
      obtain ⟨source', hparse, hpaths⟩ := bind_eq_some_iff.1 hpaths
      obtain ⟨name, hdecoded, hpaths⟩ := bind_eq_some_iff.1 hpaths
      obtain ⟨target', htarget, heq⟩ := map_eq_some_iff.1 hpaths
      cases heq
      have hencodes := decodePercent_eq_some (filter_eq_some_iff.1 hdecoded).1
      refine ⟨⟨_, encodedPath, hquery, hparse⟩, name,
        ⟨ascii "name", encodedName, ?_, hencodes⟩, htarget⟩
      rw [hname]
      exact mem_cons_self
    · cases h
  · cases h

theorem directoryRenamePaths_ok (h : directoryRenamePaths request = .ok (source, target)) :
    QueryPath request true source ∧ QueryPath request true target := by
  unfold directoryRenamePaths at h
  split at h
  · cases h
  split at h
  · rename_i encodedSource encodedTarget hsource htarget
    split at h
    · rename_i source' target' hparse hparse'
      split at h
      · cases h
      · cases h
        exact ⟨⟨_, encodedSource, hsource, hparse⟩, _, encodedTarget, htarget, hparse'⟩
    · cases h
  · cases h

theorem map_eq_ok {ε α β : Type} {f : α → β} {x : Except ε α} {y : β} (h : x.map f = .ok y) :
    ∃ a, x = .ok a ∧ f a = y := by
  cases x with
  | error e => cases h
  | ok a => exact ⟨a, rfl, Except.ok.inj h⟩

/-- Every path that a route accepts is confined, and only a listing may be of a media directory
itself. -/
theorem requestPaths_confined (route : MediaRoute) (request : HttpRequestHead) (paths : List MediaPath)
    (h : requestPaths route request = .ok paths) : ∀ path ∈ paths, ∃ decoded root rest,
      ConfinedPath decoded path root rest ∧ (route ≠ .files → rest ≠ []) ∧
        RequestDecodes request paths path decoded := by
  have hquery : ∀ {path}, QueryPath request true path → ∃ decoded root rest,
      ConfinedPath decoded path root rest ∧ (route ≠ .files → rest ≠ []) ∧
        RequestDecodes request paths path decoded := by
    intro path hpath
    obtain ⟨decoded, root, rest, hconfined, hrest, hdecodes⟩ := hpath.confined
    exact ⟨decoded, root, rest, hconfined, fun _ => hrest rfl, .inl hdecodes⟩
  intro path hpath
  cases route with
  | files =>
    obtain ⟨listing, hlisting, rfl⟩ := map_eq_ok h
    obtain rfl := mem_singleton.1 hpath
    obtain ⟨decoded, root, rest, hconfined, -, hdecodes⟩ := (filesRequest_ok hlisting).confined
    exact ⟨decoded, root, rest, hconfined, fun hne => absurd rfl hne, .inl hdecodes⟩
  | file =>
    obtain ⟨file, hfile, rfl⟩ := map_eq_ok h
    obtain rfl := mem_singleton.1 hpath
    exact hquery (filePath_ok hfile)
  | fileRename =>
    obtain ⟨⟨source, target⟩, hrename, rfl⟩ := map_eq_ok h
    obtain ⟨hsource, name, hname, htarget⟩ := renamePaths_ok hrename
    rcases mem_cons.1 hpath with rfl | hpath
    · exact hquery hsource
    · obtain rfl := mem_singleton.1 hpath
      obtain ⟨decoded, root, rest, hconfined, hrest, -⟩ := hsource.confined
      obtain ⟨hjoin, root', rest', hconfined', hrest'⟩ :=
        renameTarget_confined hconfined (hrest rfl) htarget
      exact ⟨_, root', rest', hconfined', fun _ => hrest',
        .inr ⟨rfl, source, mem_cons_self, name, hname, hjoin⟩⟩
  | directory =>
    obtain ⟨directory, hdirectory, rfl⟩ := map_eq_ok h
    obtain rfl := mem_singleton.1 hpath
    exact hquery (directoryPath_ok hdirectory)
  | directoryRename =>
    obtain ⟨⟨source, target⟩, hrename, rfl⟩ := map_eq_ok h
    obtain ⟨hsource, htarget⟩ := directoryRenamePaths_ok hrename
    rcases mem_cons.1 hpath with rfl | hpath
    · exact hquery hsource
    · obtain rfl := mem_singleton.1 hpath
      exact hquery htarget

/-- A request to give a disk two directories below its media directory another name. -/
def diskRename : HttpRequestHead :=
  { method := .post, hasQuery := true, rawQuery := ascii "path=sd%3A/Disks/games/a%20b.d64&name=c%2Ed64" }

def renamedDisk : List MediaPath :=
  [mediaPathOf (ascii "SD") (ascii "Disks/games/a b.d64"), mediaPathOf (ascii "SD") (ascii "Disks/games/c.d64")]

theorem requestPaths_confined_diskRename : requestPaths .fileRename diskRename = .ok renamedDisk ∧
    ∀ path ∈ renamedDisk, ∃ decoded root rest, ConfinedPath decoded path root rest ∧ rest ≠ [] ∧
      RequestDecodes diskRename renamedDisk path decoded := by
  have haccepted : requestPaths .fileRename diskRename = .ok renamedDisk := by decide +kernel
  refine ⟨haccepted, fun path hpath => ?_⟩
  obtain ⟨decoded, root, rest, hconfined, hrest, hdecodes⟩ :=
    requestPaths_confined .fileRename diskRename renamedDisk haccepted path hpath
  exact ⟨decoded, root, rest, hconfined, hrest (by decide), hdecodes⟩

def rootListing : HttpRequestHead :=
  { method := .get, hasQuery := true, rawQuery := ascii "path=SD%3A/disks" }

/-- The path of a listing need not have anything below its media directory. -/
theorem rootListing_bare : ∃ path, requestPaths .files rootListing = .ok [path] ∧
    PercentEncodes (ascii "SD%3A/disks") path.absolute ∧
      ¬ ∃ volume root rest, path.absolute = volume ++ [58, slash] ++ root ++ slash :: rest := by
  refine ⟨mediaPathOf (ascii "SD") (ascii "disks"), by decide +kernel,
    percentEncodes_of_decoded (by decide +kernel), ?_⟩
  rintro ⟨volume, root, rest, hshape⟩
  have hcount := congrArg (List.count slash) hshape
  have hone : (mediaPathOf (ascii "SD") (ascii "disks")).absolute.count slash = 1 := by decide +kernel
  rw [hone] at hcount
  simp only [count_append, count_cons_self] at hcount
  have htwo : List.count slash [58, slash] = 1 := by decide
  omega

end BmxApiRouter

end Bmx.Remote
