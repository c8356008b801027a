import Bmx.Base.Instances
import Mathlib.Data.Nat.Bitwise

/-!
# The page table of the GPU

A range of the GPU's addresses is mapped to memory that the DMA controller sees in one piece. An entry of the table has the
number of a page in its low bits and flags above them.
-/

namespace Bmx.Pi4V3d

open Nat

def mmuPageShift : UInt32 := 12
def mmuPageSize : UInt32 := (1 : UInt32) <<< mmuPageShift
def mmuPteValid : UInt32 := (1 : UInt32) <<< (28 : UInt32)
def mmuPteWriteable : UInt32 := (1 : UInt32) <<< (29 : UInt32)

structure MmuMapping where
  v3dAddress : UInt32 := 0
  firstPage : UInt32 := 0
  pageCount : UInt32 := 0
  firstPte : UInt32 := 0
  lastPte : UInt32 := 0
  deriving DecidableEq

/-- The table and the descriptor after a call, and whether it succeeds. -/
structure MmuResult where
  pageTable : List UInt32
  mapping : MmuMapping
  ok : Bool

def isPageAligned (value : UInt64) : Bool := value &&& (mmuPageSize - 1).toUInt64 = 0

/-- The loops over the pages, after some of their steps. -/
def writePtes (firstPage : UInt32) (pte : UInt32 → UInt32) (pageTable : List UInt32) : Nat → List UInt32
  | 0 => pageTable
  | i + 1 =>
    (writePtes firstPage pte pageTable i).set (firstPage + UInt32.ofNat i).toNat (pte (UInt32.ofNat i))

def ptePage (dmaPage : UInt64) : UInt32 := mmuPteValid ||| mmuPteWriteable ||| dmaPage.toUInt32

/-- The arguments that are refused before anything is computed from them. -/
def argumentsRefused (v3dAddress : UInt32) (dmaAddress : UInt64) (size : UInt32) : Bool :=
  size = 0 ∨ v3dAddress = 0 ∨ !isPageAligned v3dAddress.toUInt64 ∨ !isPageAligned dmaAddress ∨
    size > 0xffffffff - (mmuPageSize - 1)

/-- The pages that are refused, as the table has no room for them or the entries have no bits for their numbers. -/
def pagesRefused (tableEntries pageCount firstPage : UInt32) (firstDmaPage endV3d : UInt64) : Bool :=
  pageCount = 0 ∨ firstPage ≥ tableEntries ∨ pageCount > tableEntries - firstPage ∨ endV3d > (1 : UInt64) <<< (32 : UInt64) ∨
    firstDmaPage ≥ (1 : UInt64) <<< (24 : UInt64) ∨ (pageCount - 1).toUInt64 ≥ ((1 : UInt64) <<< (24 : UInt64)) - firstDmaPage

/-- `InsertContiguousPtes` of a table and a descriptor that are given. -/
def insertContiguousPtes (pageTable : List UInt32) (tableEntries v3dAddress : UInt32) (dmaAddress : UInt64) (size : UInt32)
    (mapping : MmuMapping) : MmuResult :=
  if argumentsRefused v3dAddress dmaAddress size then { pageTable := pageTable, mapping := mapping, ok := false }
  else
    let pageCount := (size + mmuPageSize - 1) >>> mmuPageShift
    let firstPage := v3dAddress >>> mmuPageShift
    let firstDmaPage := dmaAddress >>> mmuPageShift.toUInt64
    let endV3d := v3dAddress.toUInt64 + (pageCount.toUInt64 <<< mmuPageShift.toUInt64)
    if pagesRefused tableEntries pageCount firstPage firstDmaPage endV3d then
      { pageTable := pageTable, mapping := mapping, ok := false }
    else
      let pageTable := writePtes firstPage (fun i => ptePage (firstDmaPage + i.toUInt64)) pageTable pageCount.toNat
      { pageTable := pageTable
        mapping :=
          { v3dAddress := v3dAddress
            firstPage := firstPage
            pageCount := pageCount
            firstPte := pageTable.getD firstPage.toNat 0
            lastPte := pageTable.getD (firstPage + pageCount - 1).toNat 0 }
        ok := true }

def clearMmuMapping (pageTable : List UInt32) (tableEntries : UInt32) (mapping : MmuMapping) : MmuResult :=
  if mapping.pageCount = 0 then { pageTable := pageTable, mapping := {}, ok := true }
  else if mapping.firstPage ≥ tableEntries ∨ mapping.pageCount > tableEntries - mapping.firstPage then
    { pageTable := pageTable, mapping := mapping, ok := false }
  else
    { pageTable := writePtes mapping.firstPage (fun _ => 0) pageTable mapping.pageCount.toNat, mapping := {}, ok := true }

/-! ### The loops -/

theorem length_writePtes (firstPage : UInt32) (pte : UInt32 → UInt32) (pageTable : List UInt32) (count : Nat) :
    (writePtes firstPage pte pageTable count).length = pageTable.length := by
  induction count with
  | zero => rfl
  | succ count ih => rw [writePtes, List.length_set, ih]

theorem getElem?_writePtes {firstPage : UInt32} (pte : UInt32 → UInt32) {pageTable : List UInt32} {count : Nat}
    (hroom : firstPage.toNat + count ≤ pageTable.length) (hwrap : firstPage.toNat + count ≤ 2 ^ 32) (page : Nat) :
    (writePtes firstPage pte pageTable count)[page]? =
      if firstPage.toNat ≤ page ∧ page < firstPage.toNat + count then some (pte (UInt32.ofNat (page - firstPage.toNat)))
      else pageTable[page]? := by
  induction count with
  | zero => rw [if_neg (by omega)]; rfl
  | succ count ih =>
    have hindex : (firstPage + UInt32.ofNat count).toNat = firstPage.toNat + count := by
      rw [UInt32.toNat_add, UInt32.toNat_ofNat', mod_eq_of_lt (by omega : count < 2 ^ 32), mod_eq_of_lt (by omega)]
    rw [writePtes, List.getElem?_set, hindex, length_writePtes, ih (by omega) (by omega)]
    by_cases hpage : firstPage.toNat + count = page
    · have hcount : page - firstPage.toNat = count := by omega
      rw [if_pos hpage, if_pos (by omega), if_pos (by omega), hcount]
    · rw [if_neg hpage]
      by_cases hbefore : firstPage.toNat ≤ page ∧ page < firstPage.toNat + count
      · rw [if_pos hbefore, if_pos (by omega)]
      · rw [if_neg hbefore, if_neg (by omega)]

/-! ### Numbers of pages -/

theorem isPageAligned_iff (value : UInt64) : isPageAligned value = true ↔ value.toNat % 4096 = 0 := by
  have hmask : ((mmuPageSize - 1).toUInt64).toNat = 2 ^ 12 - 1 := rfl
  unfold isPageAligned
  rw [decide_eq_true_eq, ← UInt64.toNat_inj, UInt64.toNat_and, hmask, and_two_pow_sub_one_eq_mod]
  rfl

theorem pageCount_eq {size : UInt32} (h : size.toNat ≤ 2 ^ 32 - 4096) :
    ((size + mmuPageSize - 1) >>> mmuPageShift).toNat = (size.toNat + 4095) / 4096 := by
  have hsum : (size + mmuPageSize - 1).toNat = size.toNat + 4095 := by
    have hsize : mmuPageSize.toNat = 4096 := rfl
    have hone : (1 : UInt32).toNat = 1 := rfl
    rw [UInt32.toNat_sub, UInt32.toNat_add, hsize, hone]
    omega
  rw [UInt32.toNat_shiftRight, hsum]
  rw [shiftRight_eq_div_pow]
  rfl

theorem pte_toNat {dmaPage : UInt64} (h : dmaPage.toNat < 2 ^ 24) :
    (ptePage dmaPage).toNat = (mmuPteValid ||| mmuPteWriteable).toNat + dmaPage.toNat := by
  have hpage : dmaPage.toUInt32.toNat = dmaPage.toNat := by
    rw [UInt64.toNat_toUInt32, mod_eq_of_lt (by omega)]
  have hflags : (mmuPteValid ||| mmuPteWriteable).toNat = 2 ^ 24 * 48 := rfl
  unfold ptePage
  rw [UInt32.toNat_or, hpage, hflags, two_pow_add_eq_or_of_lt h]

/-- What the checks leave of the arguments. -/
structure Accepted (tableEntries v3dAddress : UInt32) (dmaAddress : UInt64) (size : UInt32) : Prop where
  size_pos : 0 < size.toNat
  aligned : v3dAddress.toNat % 4096 = 0
  dma_aligned : dmaAddress.toNat % 4096 = 0
  size_le : size.toNat ≤ 2 ^ 32 - 4096
  room : v3dAddress.toNat / 4096 + (size.toNat + 4095) / 4096 ≤ tableEntries.toNat
  space : v3dAddress.toNat + (size.toNat + 4095) / 4096 * 4096 ≤ 2 ^ 32
  dma_room : dmaAddress.toNat / 4096 + (size.toNat + 4095) / 4096 ≤ 2 ^ 24

theorem argumentsRefused_eq_false {v3dAddress : UInt32} {dmaAddress : UInt64} {size : UInt32} :
    argumentsRefused v3dAddress dmaAddress size = false ↔ 0 < size.toNat ∧ v3dAddress ≠ 0 ∧
      v3dAddress.toNat % 4096 = 0 ∧ dmaAddress.toNat % 4096 = 0 ∧ size.toNat ≤ 2 ^ 32 - 4096 := by
  have hlimit : ((0xffffffff : UInt32) - (mmuPageSize - 1)).toNat = 2 ^ 32 - 4096 := rfl
  have hv3d : isPageAligned v3dAddress.toUInt64 = true ↔ v3dAddress.toNat % 4096 = 0 := by
    rw [isPageAligned_iff, UInt32.toNat_toUInt64]
  have hdma := isPageAligned_iff dmaAddress
  have hsize : size = 0 ↔ size.toNat = 0 := by
    rw [← UInt32.toNat_inj]
    rfl
  have haddress : v3dAddress = 0 ↔ v3dAddress.toNat = 0 := by
    rw [← UInt32.toNat_inj]
    rfl
  unfold argumentsRefused
  rw [decide_eq_false_iff_not]
  simp only [not_or, Bool.not_eq_true', Bool.not_eq_false, ne_eq, hv3d, hdma, hsize, haddress, gt_iff_lt, UInt32.lt_iff_toNat_lt, hlimit]
  omega

theorem pagesRefused_eq_false {tableEntries pageCount firstPage : UInt32} {firstDmaPage endV3d : UInt64} :
    pagesRefused tableEntries pageCount firstPage firstDmaPage endV3d = false ↔ 0 < pageCount.toNat ∧
      firstPage.toNat + pageCount.toNat ≤ tableEntries.toNat ∧ endV3d.toNat ≤ 2 ^ 32 ∧
      firstDmaPage.toNat + pageCount.toNat ≤ 2 ^ 24 := by
  have hone : (1 : UInt32).toNat = 1 := rfl
  have hspace : ((1 : UInt64) <<< (32 : UInt64)).toNat = 2 ^ 32 := rfl
  have hpages : ((1 : UInt64) <<< (24 : UInt64)).toNat = 2 ^ 24 := rfl
  have hzero : pageCount = 0 ↔ pageCount.toNat = 0 := by
    rw [← UInt32.toNat_inj]
    rfl
  unfold pagesRefused
  rw [decide_eq_false_iff_not]
  simp only [not_or, hzero, ge_iff_le, gt_iff_lt, UInt32.lt_iff_toNat_lt, UInt32.le_iff_toNat_le, UInt64.lt_iff_toNat_lt,
    UInt64.le_iff_toNat_le, UInt32.toNat_toUInt64, UInt32.toNat_sub, UInt64.toNat_sub, hone, hspace, hpages]
  have hentries := tableEntries.toNat_lt
  omega

/-! ### Mapping and clearing -/

def Covers (v3dAddress size : UInt32) (page : Nat) : Prop :=
  page * 4096 < v3dAddress.toNat + size.toNat ∧ v3dAddress.toNat < (page + 1) * 4096

/-- What a range is mapped to: its pages to one page of the DMA controller after another. -/
structure Maps (pageTable mapped : List UInt32) (v3dAddress : UInt32) (dmaAddress : UInt64) (size : UInt32) : Prop where
  pages : ∀ page, Covers v3dAddress size page → ∃ pte, mapped[page]? = some pte ∧
    (dmaAddress.toNat / 4096 + (page - v3dAddress.toNat / 4096)) < 2 ^ 24 ∧
    pte.toNat = (mmuPteValid ||| mmuPteWriteable).toNat + (dmaAddress.toNat / 4096 + (page - v3dAddress.toNat / 4096))
  others : ∀ page, ¬ Covers v3dAddress size page → mapped[page]? = pageTable[page]?

/-- What clearing leaves: pages of the range that are empty, and the others as they are. -/
structure Clears (pageTable cleared : List UInt32) (v3dAddress size : UInt32) : Prop where
  pages : ∀ page, Covers v3dAddress size page → cleared[page]? = some 0
  others : ∀ page, ¬ Covers v3dAddress size page → cleared[page]? = pageTable[page]?

variable {pageTable : List UInt32} {tableEntries v3dAddress : UInt32} {dmaAddress : UInt64} {size : UInt32}
  {mapping : MmuMapping}

theorem covers_iff (haligned : v3dAddress.toNat % 4096 = 0) (page : Nat) :
    Covers v3dAddress size page ↔
      v3dAddress.toNat / 4096 ≤ page ∧ page < v3dAddress.toNat / 4096 + (size.toNat + 4095) / 4096 := by
  unfold Covers
  omega

theorem insert_cases (pageTable : List UInt32) (tableEntries v3dAddress : UInt32) (dmaAddress : UInt64) (size : UInt32)
    (mapping : MmuMapping) :
    insertContiguousPtes pageTable tableEntries v3dAddress dmaAddress size mapping =
        { pageTable := pageTable, mapping := mapping, ok := false } ∨
      ∃ firstPage pageCount : UInt32, ∃ firstDmaPage : UInt64, ∃ firstPte lastPte,
        Accepted tableEntries v3dAddress dmaAddress size ∧
        firstPage.toNat = v3dAddress.toNat / 4096 ∧ pageCount.toNat = (size.toNat + 4095) / 4096 ∧
        firstDmaPage.toNat = dmaAddress.toNat / 4096 ∧
        insertContiguousPtes pageTable tableEntries v3dAddress dmaAddress size mapping =
          { pageTable := writePtes firstPage (fun i => ptePage (firstDmaPage + i.toUInt64)) pageTable pageCount.toNat
            mapping := { v3dAddress, firstPage, pageCount, firstPte, lastPte }
            ok := true } := by
  unfold insertContiguousPtes
  by_cases harguments : argumentsRefused v3dAddress dmaAddress size = true
  · rw [if_pos harguments]
    exact Or.inl rfl
  · rw [if_neg harguments]
    rw [Bool.not_eq_true, argumentsRefused_eq_false] at harguments
    obtain ⟨hsize, -, haligned, hdma, hlimit⟩ := harguments
    dsimp only
    split
    · exact Or.inl rfl
    · rename_i hpages
      rw [Bool.not_eq_true, pagesRefused_eq_false] at hpages
      obtain ⟨hcount, hroom, hspace, hnumbers⟩ := hpages
      have hpageCount := pageCount_eq hlimit
      have hfirst : (v3dAddress >>> mmuPageShift).toNat = v3dAddress.toNat / 4096 := by
        rw [UInt32.toNat_shiftRight, shiftRight_eq_div_pow]
        rfl
      have hfirstDma : (dmaAddress >>> mmuPageShift.toUInt64).toNat = dmaAddress.toNat / 4096 := by
        rw [UInt64.toNat_shiftRight, shiftRight_eq_div_pow]
        rfl
      rw [hpageCount, hfirst] at hroom
      rw [hpageCount, hfirstDma] at hnumbers
      have hend : (v3dAddress.toUInt64 + ((size + mmuPageSize - 1) >>> mmuPageShift).toUInt64 <<< mmuPageShift.toUInt64).toNat =
          v3dAddress.toNat + (size.toNat + 4095) / 4096 * 4096 := by
        rw [UInt64.toNat_add, UInt64.toNat_shiftLeft, UInt32.toNat_toUInt64, UInt32.toNat_toUInt64, hpageCount]
        have hshift : mmuPageShift.toUInt64.toNat % 64 = 12 := rfl
        rw [hshift, shiftLeft_eq]
        have haddress := v3dAddress.toNat_lt
        omega
      rw [hend] at hspace
      exact Or.inr ⟨_, _, _, _, _, ⟨hsize, haligned, hdma, hlimit, hroom, hspace, hnumbers⟩, hfirst, hpageCount, hfirstDma, rfl⟩

theorem written_pages (haccepted : Accepted tableEntries v3dAddress dmaAddress size)
    (hlength : tableEntries.toNat ≤ pageTable.length) {firstPage : UInt32} (hfirst : firstPage.toNat = v3dAddress.toNat / 4096)
    (pte : UInt32 → UInt32) (page : Nat) :
    (Covers v3dAddress size page →
      (writePtes firstPage pte pageTable ((size.toNat + 4095) / 4096))[page]? =
        some (pte (UInt32.ofNat (page - v3dAddress.toNat / 4096)))) ∧
    (¬ Covers v3dAddress size page →
      (writePtes firstPage pte pageTable ((size.toNat + 4095) / 4096))[page]? = pageTable[page]?) := by
  have hroom := haccepted.room
  have hentries := tableEntries.toNat_lt
  rw [covers_iff haccepted.aligned, getElem?_writePtes pte (by omega) (by omega), hfirst]
  exact ⟨fun hcovers => if_pos hcovers, fun hcovers => if_neg hcovers⟩

theorem inserted_maps (haccepted : Accepted tableEntries v3dAddress dmaAddress size)
    (hlength : tableEntries.toNat ≤ pageTable.length) {firstPage : UInt32} {firstDmaPage : UInt64}
    (hfirst : firstPage.toNat = v3dAddress.toNat / 4096) (hdma : firstDmaPage.toNat = dmaAddress.toNat / 4096) :
    Maps pageTable (writePtes firstPage (fun i => ptePage (firstDmaPage + i.toUInt64)) pageTable ((size.toNat + 4095) / 4096))
      v3dAddress dmaAddress size where
  pages := fun page hcovers => by
    refine ⟨_, (written_pages haccepted hlength hfirst _ page).1 hcovers, ?_⟩
    have hrange := (covers_iff haccepted.aligned page).1 hcovers
    have hnumbers := haccepted.dma_room
    have hoffset : (firstDmaPage + (UInt32.ofNat (page - v3dAddress.toNat / 4096)).toUInt64).toNat =
        dmaAddress.toNat / 4096 + (page - v3dAddress.toNat / 4096) := by
      rw [UInt64.toNat_add, UInt32.toNat_toUInt64, UInt32.toNat_ofNat', hdma]
      omega
    have hpage : dmaAddress.toNat / 4096 + (page - v3dAddress.toNat / 4096) < 2 ^ 24 := by omega
    refine ⟨hpage, ?_⟩
    rw [pte_toNat (by rw [hoffset]; exact hpage), hoffset]
  others := fun page => (written_pages haccepted hlength hfirst _ page).2

/-- Inserting changes the pages of the range and no others, or nothing; clearing empties them again. -/
theorem ptes_exact (pageTable : List UInt32) (tableEntries v3dAddress : UInt32) (dmaAddress : UInt64) (size : UInt32)
    (mapping : MmuMapping) (hlength : tableEntries.toNat ≤ pageTable.length) :
    ((insertContiguousPtes pageTable tableEntries v3dAddress dmaAddress size mapping).ok = false →
      (insertContiguousPtes pageTable tableEntries v3dAddress dmaAddress size mapping).pageTable = pageTable) ∧
    ((insertContiguousPtes pageTable tableEntries v3dAddress dmaAddress size mapping).ok = true →
      Maps pageTable (insertContiguousPtes pageTable tableEntries v3dAddress dmaAddress size mapping).pageTable
        v3dAddress dmaAddress size ∧
      ∃ cleared, clearMmuMapping (insertContiguousPtes pageTable tableEntries v3dAddress dmaAddress size mapping).pageTable
          tableEntries (insertContiguousPtes pageTable tableEntries v3dAddress dmaAddress size mapping).mapping =
            { pageTable := cleared, mapping := {}, ok := true } ∧
        Clears pageTable cleared v3dAddress size ∧
        ((∀ page, Covers v3dAddress size page → pageTable[page]? = some 0) → cleared = pageTable)) := by
  rcases insert_cases pageTable tableEntries v3dAddress dmaAddress size mapping with
    h | ⟨firstPage, pageCount, firstDmaPage, firstPte, lastPte, haccepted, hfirst, hcount, hdma, h⟩
  · rw [h]
    exact ⟨fun _ => rfl, fun hok => absurd hok Bool.false_ne_true⟩
  · rw [h]
    refine ⟨fun hok => absurd hok.symm Bool.false_ne_true, fun _ => ?_⟩
    dsimp only
    rw [hcount]
    have hmaps := inserted_maps haccepted hlength hfirst hdma
    refine ⟨hmaps, writePtes firstPage (fun _ => 0)
      (writePtes firstPage (fun i => ptePage (firstDmaPage + i.toUInt64)) pageTable ((size.toNat + 4095) / 4096))
      pageCount.toNat, ?_, ?_⟩
    · have hsize := haccepted.size_pos
      have hroom := haccepted.room
      have hpositive : pageCount ≠ 0 := by
        intro hzero
        rw [hzero] at hcount
        change 0 = _ at hcount
        omega
      have hinside : ¬ (firstPage ≥ tableEntries ∨ pageCount > tableEntries - firstPage) := by
        have hentries := tableEntries.toNat_lt
        have hpages := firstPage.toNat_lt
        rw [ge_iff_le, gt_iff_lt, UInt32.le_iff_toNat_le, UInt32.lt_iff_toNat_lt, UInt32.toNat_sub]
        omega
      unfold clearMmuMapping
      rw [if_neg hpositive, if_neg hinside]
    · rw [hcount]
      have hwritten : tableEntries.toNat ≤
          (writePtes firstPage (fun i => ptePage (firstDmaPage + i.toUInt64)) pageTable ((size.toNat + 4095) / 4096)).length := by
        rw [length_writePtes]
        exact hlength
      have hclears : Clears pageTable (writePtes firstPage (fun _ => 0)
          (writePtes firstPage (fun i => ptePage (firstDmaPage + i.toUInt64)) pageTable ((size.toNat + 4095) / 4096))
          ((size.toNat + 4095) / 4096)) v3dAddress size :=
        { pages := fun page => (written_pages haccepted hwritten hfirst _ page).1
          others := fun page hcovers =>
            ((written_pages haccepted hwritten hfirst _ page).2 hcovers).trans (hmaps.others page hcovers) }
      refine ⟨hclears, fun hempty => List.ext_getElem? fun page => ?_⟩
      by_cases hcovers : Covers v3dAddress size page
      · rw [hclears.pages page hcovers, hempty page hcovers]
      · exact hclears.others page hcovers

/-- Two pages of a table with four entries. -/
theorem ptes_exact_two_pages :
    Maps [7, 0, 0, 7] [7, ptePage 5, ptePage 6, 7] 0x1000 0x5000 0x1001 :=
  ((ptes_exact [7, 0, 0, 7] 4 0x1000 0x5000 0x1001 {} (by decide)).2 (by decide)).1

end Bmx.Pi4V3d
