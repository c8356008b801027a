import Bmx.Remote.DeveloperDestinationSpec

/-!
# The two path policies

A path of the release policy is one of the developer policy too, but for its length: the bound of the developer
policy is the size of a buffer, which also holds the end of the text. Either policy confines a path to what is
below the root.
-/

namespace Bmx.Remote

open Update List

/-- A component that names an entry of its directory, and that FatFs stores as it is. -/
structure ConfinedName (component : Bytes) : Prop where
  nonempty : component ≠ []
  not_dot : component ≠ ascii "."
  not_dots : component ≠ ascii ".."
  no_separator : slash ∉ component ∧ 92 ∉ component
  no_drive : 58 ∉ component
  no_control : ∀ c ∈ component, 0x20 ≤ c ∧ c ≠ 0x7f
  no_trailing : component.getLast? ≠ some 46 ∧ component.getLast? ≠ some 32

/-- Where a component leads from a directory, which is the list of the names on the way to it. -/
def descend (directory : List Bytes) (component : Bytes) : List Bytes :=
  if component = [] ∨ component = ascii "." then directory
  else if component = ascii ".." then directory.dropLast
  else directory ++ [component]

/-- What a relative path names, seen from the root. -/
def location (path : Bytes) : List Bytes := (path.splitOn slash).foldl descend []

/-- The path names what is below the root, one directory further down with each component. -/
structure BelowRoot (path : Bytes) : Prop where
  confined : ∀ component ∈ path.splitOn slash, ConfinedName component
  location_eq : location path = path.splitOn slash
  location_ne_nil : location path ≠ []

section Policies

variable {path piece : Bytes} {limit : Nat}

theorem PieceValid.confinedName (h : PieceValid piece) (hslash : ∀ c ∈ piece, c ≠ slash) : ConfinedName piece := by
  obtain ⟨hcharacters, hshape⟩ := h
  have hforbidden (c : UInt8) (hc : c ∈ piece) : 0x20 ≤ c ∧ c ≠ 0x7f ∧ isForbidden c = false := by
    have hallowed := hcharacters c hc
    simp only [developerCharacter, Bool.and_eq_true, decide_eq_true_eq, bne_iff_ne, Bool.not_eq_true'] at hallowed
    exact ⟨hallowed.1.1, hallowed.1.2, hallowed.2⟩
  simp only [componentShapeValid, Bool.and_eq_true, bne_iff_ne] at hshape
  obtain ⟨⟨⟨hlength, -⟩, hspace⟩, hdot⟩ := hshape
  refine ⟨fun h => hlength (h ▸ rfl), fun h => hdot (h ▸ by decide), fun h => hdot (h ▸ by decide),
    ⟨fun h => hslash _ h rfl, fun h => ?_⟩, fun h => ?_, fun c hc => ⟨(hforbidden c hc).1, (hforbidden c hc).2.1⟩,
    hdot, hspace⟩
  all_goals exact absurd (hforbidden _ h).2.2 (by decide)

theorem descend_confined {components : List Bytes} (h : ∀ component ∈ components, ConfinedName component)
    (directory : List Bytes) : components.foldl descend directory = directory ++ components := by
  induction components generalizing directory with
  | nil => simp
  | cons component rest ih =>
    have hfirst := h component mem_cons_self
    have hstep : descend directory component = directory ++ [component] := by
      rw [descend, if_neg (not_or.2 ⟨hfirst.nonempty, hfirst.not_dot⟩), if_neg hfirst.not_dots]
    rw [foldl_cons, hstep, ih fun later hlater => h later (mem_cons_of_mem _ hlater)]
    simp

theorem belowRoot_of_pieces (h : ∀ piece ∈ path.splitOn slash, PieceValid piece) : BelowRoot path := by
  have hconfined : ∀ component ∈ path.splitOn slash, ConfinedName component := fun component hcomponent =>
    (h component hcomponent).confinedName fun c hc =>
      by simpa using (splitOnP_pieces path component hcomponent c hc).2
  have hlocation : location path = path.splitOn slash := by
    rw [location, descend_confined hconfined, nil_append]
  exact ⟨hconfined, hlocation, hlocation ▸ splitOn_ne_nil slash path⟩

/-- What the release policy accepts are components that the developer policy accepts. -/
theorem validateFat_pieces (h : validateFatRelativePath path limit = .ok) :
    path.length ≤ limit ∧ ∀ piece ∈ path.splitOn slash, PieceValid piece := by
  have hbytes : FatRelativePath path limit := by
    unfold validateFatRelativePath at h
    split at h
    · cases h
    split at h
    · cases h
    exact h
  obtain ⟨first, rest, hsplit⟩ := exists_cons_of_ne_nil (splitOn_ne_nil slash path)
  have hscan := (scanComponents_iff hsplit).1 hbytes.scan
  rw [nil_append, ← forall_mem_cons (l := rest)
    (p := fun piece => (∀ c ∈ piece, portableCharacter c = true) ∧ portableComponentValid piece = true),
    ← hsplit] at hscan
  refine ⟨hbytes.length_pos.2, fun piece hpiece => ⟨fun c hc => ?_, ?_⟩⟩
  · have hportable := (hscan piece hpiece).1 c hc
    simp only [portableCharacter, developerCharacter, Bool.and_eq_true, decide_eq_true_eq, bne_iff_ne] at hportable ⊢
    refine ⟨⟨hportable.1.1, fun heq => ?_⟩, hportable.2⟩
    rw [heq] at hportable
    exact absurd hportable.1.2 (by decide)
  · have hvalid := (hscan piece hpiece).2
    simp only [portableComponentValid, Bool.and_eq_true] at hvalid
    exact hvalid.1.1

/-- The developer policy accepts every path of the release policy that leaves room for the end of the text, and
what either accepts is below the root. -/
theorem fatPathPolicies_nested (path : Bytes) (limit : Nat) :
    (validateFatRelativePath path limit = .ok →
      (validateDeveloperFatRelativePath path limit = .ok ↔ path.length < limit) ∧
        ∀ size, limit < size → validateDeveloperFatRelativePath path size = .ok) ∧
      (validateFatRelativePath path limit = .ok ∨ validateDeveloperFatRelativePath path limit = .ok →
        BelowRoot path) := by
  constructor
  · intro h
    obtain ⟨hlength, hpieces⟩ := validateFat_pieces h
    refine ⟨⟨fun hok => (validateDeveloper_iff.1 hok).1, fun hlt => validateDeveloper_iff.2 ⟨hlt, hpieces⟩⟩, ?_⟩
    exact fun size hsize => validateDeveloper_iff.2 ⟨Nat.lt_of_le_of_lt hlength hsize, hpieces⟩
  · rintro (h | h)
    · exact belowRoot_of_pieces (validateFat_pieces h).2
    · exact belowRoot_of_pieces (validateDeveloper_iff.1 h).2

/-- A path that is as long as the limit is one of the release policy only. -/
theorem fatPathPolicies_not_nested :
    ¬ ∀ (path : Bytes) (limit : Nat), validateFatRelativePath path limit = .ok →
      validateDeveloperFatRelativePath path limit = .ok := by
  intro h
  have hdeveloper := h (ascii "config.txt") 10 (by decide)
  exact absurd hdeveloper (by decide)

end Policies

end Bmx.Remote
