import Bmx.Remote.UsbDiagnosticLogCollector

/-!
# What the log collector collects

A stream is its lines, and a section of it runs from the last line with the first marker to the line with the second
one. The collector reads every line whole or in two parts, and where the parts fall is up to the pieces that the
stream comes in. So what it collects depends on them when a marker line is long.
-/

namespace Bmx.Remote

open UsbDiagnosticLogCollector List Option

/-! ### The section of a stream -/

/-- The lines of a stream, after the begin of one. Each but the last ends with its line feed. -/
def linesFrom : Bytes → Bytes → List Bytes
  | line, [] => if line = [] then [] else [line]
  | line, value :: stream =>
    if value = lf then (line ++ [value]) :: linesFrom [] stream else linesFrom (line ++ [value]) stream

def linesOf (stream : Bytes) : List Bytes := linesFrom [] stream

def beginsSection (line : Bytes) : Bool := startsWithBytes line usbDiagnosticBegin
def endsSection (line : Bytes) : Bool := startsWithBytes line usbDiagnosticEnd

/-- The lines from the last one on that begins a section. -/
def lastSection : List Bytes → Option (Bytes × List Bytes)
  | [] => none
  | line :: lines => (lastSection lines).or (if beginsSection line then some (line, lines) else none)

/-- The lines up to the first one that ends a section, and whether there is one. -/
def upToEnd : List Bytes → Bytes × Bool
  | [] => ([], false)
  | line :: lines => if endsSection line then (line, true) else (line ++ (upToEnd lines).1, (upToEnd lines).2)

/-- The bytes of the last section of a stream, and whether it is complete. -/
def sectionOf (stream : Bytes) : Bytes × Bool :=
  match lastSection (linesOf stream) with
  | none => ([], false)
  | some (line, lines) => (line ++ (upToEnd lines).1, (upToEnd lines).2)

structure Collected (stream : Bytes) (c : UsbDiagnosticLogCollector) : Prop where
  stored : c.stored = (sectionOf stream).1.take c.maxBytes
  received : c.received = (sectionOf stream).1.length
  dropped : c.dropped = (sectionOf stream).1.length - c.stored.length
  complete : c.complete = (sectionOf stream).2

def lineLength (line : Bytes) : Nat := (line.takeWhile (· ≠ lf)).length

/-- The markers of the last section are read whole enough, whichever pieces the stream comes in. -/
def MarkersKept (pendingLimit : Nat) (stream : Bytes) : Prop :=
  ∀ line lines, lastSection (linesOf stream) = some (line, lines) →
    (keep + usbDiagnosticBegin.length ≤ pendingLimit + 1 ∨ lineLength line ≤ pendingLimit) ∧
      ∀ last ∈ lines.find? endsSection, lineLength last ≤ pendingLimit

/-! ### Reading a section -/

/-- A section without a bound. -/
structure LogSection where
  content : Bytes := []
  active : Bool := false
  complete : Bool := false

def LogSection.extend (line : Bytes) (s : LogSection) : LogSection :=
  if s.active then { s with content := s.content ++ line } else s

def LogSection.consume (line : Bytes) (atLineStart : Bool) (s : LogSection) : LogSection :=
  if atLineStart && beginsSection line then { content := line, active := true, complete := false }
  else if s.active && atLineStart && endsSection line then
    { content := s.content ++ line, active := false, complete := true }
  else s.extend line

/-- A line that is read whole, or its first bytes before the rest. -/
def LogSection.readLine (first : Option Nat) (line : Bytes) (s : LogSection) : LogSection :=
  match first with
  | none => s.consume line true
  | some amount => (s.consume (line.take amount) true).consume (line.drop amount) false

/-- A stream that is read up to some byte of a line, of which so many bytes were looked at first. -/
structure Reading where
  content : LogSection := {}
  line : Bytes := []
  first : Option Nat := none

namespace Reading

def byte (r : Reading) (value : UInt8) : Reading :=
  if value ≠ lf then { r with line := r.line ++ [value] }
  else { content := r.content.readLine r.first (r.line ++ [value]), line := [], first := none }

/-- The end of a piece. -/
def cut (limit : Nat) (r : Reading) : Reading :=
  if r.first = none ∧ limit < r.line.length then
    { r with first := some (r.line.length - keep) }
  else r

def piece (limit : Nat) (r : Reading) (input : Bytes) : Reading := (input.foldl byte r).cut limit

def finish (r : Reading) : LogSection := if r.line = [] then r.content else r.content.readLine r.first r.line

end Reading

/-! ### The collector is a reading -/

structure Stores (c : UsbDiagnosticLogCollector) (s : LogSection) : Prop where
  stored : c.stored = s.content.take c.maxBytes
  received : c.received = s.content.length
  dropped : c.dropped = s.content.length - c.stored.length
  active : c.active = s.active
  complete : c.complete = s.complete

/-- The parts of a line that were looked at, and what is pending of it. -/
inductive Reads : LogSection → Bytes → Bool → Reading → Prop
  | whole (s : LogSection) (line : Bytes) : Reads s line true { content := s, line := line, first := none }
  | parts (s : LogSection) {first more pending : Bytes} (hkept : keep ≤ pending.length) :
      Reads ((s.consume first true).consume more false) pending false
        { content := s, line := first ++ more ++ pending, first := some first.length }

variable {line : Bytes}

theorem not_both_markers (hbegin : beginsSection line) : endsSection line = false := by
  by_contra hend
  have hprefix := prefix_of_prefix_length_le ( isPrefixOf_iff_prefix.1 (Bool.not_eq_false _ ▸ hend))
    ( isPrefixOf_iff_prefix.1 hbegin) (by decide)
  exact absurd hprefix (by decide)

namespace LogSection

theorem consume_later_append (before after : Bytes) (s : LogSection) :
    (s.consume before false).consume after false = s.consume (before ++ after) false := by
  cases hactive : s.active <;> simp [consume, extend, hactive]

theorem consume_later_nil (s : LogSection) : s.consume [] false = s := by
  obtain ⟨content, active, complete⟩ := s
  cases active <;> simp [consume, extend]

end LogSection

namespace UsbDiagnosticLogCollector

variable {c : UsbDiagnosticLogCollector} {s : LogSection} {scan : Scan} {r : Reading} {pending : Bytes}
  {atLineStart : Bool} {limit maxBytes : Nat}

theorem store_stores (hstores : Stores c s) (value : Bytes) :
    Stores (c.store value) { s with content := s.content ++ value } := by
  have hsize : c.stored.length = min c.maxBytes s.content.length := by rw [hstores.stored, length_take]
  have hamount : c.maxBytes - c.stored.length = c.maxBytes - s.content.length := by omega
  have htaken : value.take (min (c.maxBytes - c.stored.length) value.length) =
      value.take (c.maxBytes - s.content.length) := by
    rw [← take_take, take_length, hamount]
  have hstored : c.stored ++ value.take (min (c.maxBytes - c.stored.length) value.length) =
      (s.content ++ value).take c.maxBytes := by
    rw [htaken, take_append, hstores.stored]
  have hlength := congrArg List.length hstored
  unfold store
  dsimp only
  split
  · next hcut =>
    refine ⟨hstored, ?_, ?_, hstores.active, hstores.complete⟩
    · simp only [hstores.received, length_append]
    · simp only [hstores.dropped, length_append, length_take]
      omega
  · next hwhole =>
    refine ⟨hstored, ?_, ?_, hstores.active, hstores.complete⟩
    · simp only [hstores.received, length_append]
    · simp only [hstores.dropped, length_append, length_take]
      omega

theorem consumeLine_stores (hstores : Stores c s) (line : Bytes) (event : UsbLogEvent) (atLineStart : Bool) :
    Stores (c.consumeLine line event atLineStart).1 (s.consume line atLineStart) := by
  by_cases hbegin : atLineStart && beginsSection line
  · have hline := (Bool.and_eq_true_iff.1 hbegin).2
    have hend : (atLineStart && startsWithBytes line usbDiagnosticEnd) = false := by
      rw [show startsWithBytes line usbDiagnosticEnd = false from not_both_markers hline, Bool.and_false]
    have hempty : Stores c.beginSection.1 { content := [], active := true, complete := false } :=
      ⟨by simp [beginSection], rfl, rfl, rfl, rfl⟩
    have hstore := store_stores hempty line
    have hbegin' : (atLineStart && startsWithBytes line usbDiagnosticBegin) = true := hbegin
    simp only [consumeLine, LogSection.consume, hbegin, hbegin', hend, if_true]
    exact hstore
  · have hbegin' : (atLineStart && startsWithBytes line usbDiagnosticBegin) = false := Bool.eq_false_iff.2 hbegin
    have hactive := hstores.active
    have hstore := store_stores hstores line
    simp only [consumeLine, LogSection.consume, hbegin, hbegin', Bool.false_eq_true, if_false]
    cases hs : s.active
    · rw [hs] at hactive
      simp only [hactive, LogSection.extend, hs, Bool.not_false, if_true, Bool.false_and, Bool.false_eq_true, if_false]
      exact hstores
    · rw [hs] at hactive
      by_cases hend : atLineStart && endsSection line
      · have hend' : (atLineStart && startsWithBytes line usbDiagnosticEnd) = true := hend
        simp only [hactive, hend, hend', Bool.not_true, Bool.false_eq_true, if_false, if_true, Bool.true_and]
        exact ⟨hstore.stored, hstore.received, hstore.dropped, rfl, rfl⟩
      · have hend' : (atLineStart && startsWithBytes line usbDiagnosticEnd) = false := Bool.eq_false_iff.2 hend
        simp only [hactive, hend, hend', Bool.not_true, Bool.false_eq_true, if_false, if_true, Bool.true_and,
          LogSection.extend, hs]
        exact ⟨hstore.stored, hstore.received, hstore.dropped, hstore.active.trans hs, hstore.complete⟩

/-- Looking at a line leaves what is pending, and the limits. -/
structure SameFrame (c c' : UsbDiagnosticLogCollector) : Prop where
  maxBytes : c'.maxBytes = c.maxBytes
  pendingLimit : c'.pendingLimit = c.pendingLimit
  pending : c'.pending = c.pending
  pendingAtLineStart : c'.pendingAtLineStart = c.pendingAtLineStart

theorem SameFrame.trans {c' c'' : UsbDiagnosticLogCollector} (h : SameFrame c c') (h' : SameFrame c' c'') :
    SameFrame c c'' :=
  ⟨h'.maxBytes.trans h.maxBytes, h'.pendingLimit.trans h.pendingLimit, h'.pending.trans h.pending,
    h'.pendingAtLineStart.trans h.pendingAtLineStart⟩

theorem store_frame (value : Bytes) (c : UsbDiagnosticLogCollector) : SameFrame c (c.store value) := by
  unfold store
  dsimp only
  split <;> exact ⟨rfl, rfl, rfl, rfl⟩

theorem consumeLine_frame (line : Bytes) (event : UsbLogEvent) (atLineStart : Bool) (c : UsbDiagnosticLogCollector) :
    SameFrame c (c.consumeLine line event atLineStart).1 := by
  have hbegin : ∀ (start : UsbDiagnosticLogCollector × UsbLogEvent), SameFrame c start.1 →
      SameFrame c (if !start.1.active then start else
        if atLineStart && startsWithBytes line usbDiagnosticEnd then
          ({ start.1.store line with complete := true, active := false },
            { start.2 with chunks := start.2.chunks ++ [line], completed := true })
        else (start.1.store line, { start.2 with chunks := start.2.chunks ++ [line] })).1 := by
    intro start hopen
    have hstore := hopen.trans (store_frame line start.1)
    split
    · exact hopen
    · split
      · exact ⟨hstore.maxBytes, hstore.pendingLimit, hstore.pending, hstore.pendingAtLineStart⟩
      · exact hstore
  unfold consumeLine
  dsimp only
  split
  · exact hbegin c.beginSection ⟨rfl, rfl, rfl, rfl⟩
  · exact hbegin (c, event) ⟨rfl, rfl, rfl, rfl⟩

/-! ### The steps of a reading -/

/-- What the loop of a call has stands for a reading. -/
structure ScanReads (c : UsbDiagnosticLogCollector) (scan : Scan) (r : Reading) : Prop where
  held : ∃ s, Stores scan.collector s ∧ Reads s scan.line scan.atLineStart r
  maxBytes : scan.collector.maxBytes = c.maxBytes
  pendingLimit : scan.collector.pendingLimit = c.pendingLimit
  oneLine : lf ∉ scan.line

theorem byte_scanReads (hreads : ScanReads c scan r)
    (value : UInt8) : ScanReads c (scan.byte value) (r.byte value) := by
  obtain ⟨collector, event, line, atLineStart⟩ := scan
  obtain ⟨s, hstores, hline⟩ := hreads.held
  by_cases hvalue : value = lf
  · have hframe := consumeLine_frame (line ++ [value]) event atLineStart collector
    have hconsume := consumeLine_stores hstores (line ++ [value]) event atLineStart
    have hline' : Reads (s.consume (line ++ [value]) atLineStart) [] true
        { content := r.content.readLine r.first (r.line ++ [value]) } := by
      cases hline with
      | whole line => exact .whole _ _
      | @parts s first more _ _ =>
        have hread : s.readLine (some first.length) (first ++ more ++ line ++ [value]) =
            ((s.consume first true).consume more false).consume (line ++ [value]) false := by
          rw [LogSection.consume_later_append]
          simp [LogSection.readLine, append_assoc]
        rw [← hread]
        exact .whole _ _
    unfold Scan.byte Reading.byte
    rw [if_neg (not_not.2 hvalue), if_neg (not_not.2 hvalue)]
    exact ⟨⟨_, hconsume, hline'⟩, hframe.maxBytes.trans hreads.maxBytes, hframe.pendingLimit.trans hreads.pendingLimit,
      not_mem_nil⟩
  · have hline' : Reads s (line ++ [value]) atLineStart { r with line := r.line ++ [value] } := by
      cases hline with
      | whole line => exact .whole _ _
      | parts s hkept =>
        rw [append_assoc _ _ [value]]
        refine .parts s ?_
        rw [length_append]
        exact Nat.le_add_right_of_le hkept
    unfold Scan.byte Reading.byte
    rw [if_pos hvalue, if_pos hvalue]
    refine ⟨⟨s, hstores, hline'⟩, hreads.maxBytes, hreads.pendingLimit, ?_⟩
    rw [mem_append, mem_singleton]
    exact fun hin => hin.elim hreads.oneLine fun heq => hvalue heq.symm

theorem bytes_scanReads (hreads : ScanReads c scan r)
    (input : Bytes) : ScanReads c (input.foldl Scan.byte scan) (input.foldl Reading.byte r) := by
  induction input generalizing scan r with
  | nil => exact hreads
  | cons value input ih => exact ih (byte_scanReads hreads value)

theorem scan_oneLine (hpending : lf ∉ pending) (scan : Scan) :
    pending.foldl Scan.byte scan = { scan with line := scan.line ++ pending } := by
  induction pending generalizing scan with
  | nil => simp
  | cons value pending ih =>
    have hvalue : value ≠ lf := fun h => hpending (h ▸ mem_cons_self ..)
    have hbyte : scan.byte value = { scan with line := scan.line ++ [value] } := if_pos hvalue
    rw [foldl_cons, ih (fun h => hpending (mem_cons_of_mem _ h)), hbyte]
    simp

/-- Between two calls no more is pending than may be, and none of it ends a line. -/
structure CollectorReads (maxBytes limit : Nat) (c : UsbDiagnosticLogCollector) (r : Reading) : Prop where
  held : ∃ s, Stores c s ∧ Reads s c.pending c.pendingAtLineStart r
  maxBytes : c.maxBytes = maxBytes
  pendingLimit : c.pendingLimit = limit
  pending : c.pending.length ≤ limit
  oneLine : lf ∉ c.pending

theorem cut_of_le (hreads : Reads s pending atLineStart r) (hpending : pending.length ≤ limit) : r.cut limit = r := by
  unfold Reading.cut
  cases hreads with
  | whole line => exact if_neg fun h => Nat.not_lt.2 hpending h.2
  | parts s hkept => exact if_neg fun h => by simp at h

theorem cut_reads
    (hreads : Reads s pending atLineStart r) (hlimit : keep ≤ limit) (hpending : limit < pending.length) :
    Reads (s.consume (pending.take (pending.length - keep)) atLineStart) (pending.drop (pending.length - keep)) false
      (r.cut limit) := by
  have hkept : keep ≤ (pending.drop (pending.length - keep)).length := by
    rw [length_drop]
    omega
  have hfirst : (pending.take (pending.length - keep)).length = pending.length - keep :=
    length_take_of_le (Nat.sub_le ..)
  unfold Reading.cut
  cases hreads with
  | whole line =>
    have hparts := @Reads.parts s (pending.take (pending.length - keep)) [] _ hkept
    rw [LogSection.consume_later_nil, append_nil, take_append_drop, hfirst] at hparts
    rw [if_pos ⟨rfl, hpending⟩]
    exact hparts
  | @parts s first more _ _ =>
    have hparts := @Reads.parts s first (more ++ pending.take (pending.length - keep)) _ hkept
    rw [if_neg (by simp), LogSection.consume_later_append]
    rw [← append_assoc, append_assoc (first ++ more), take_append_drop] at hparts
    exact hparts

theorem append_reads (hlimit : keep ≤ limit) (hreads : CollectorReads maxBytes limit c r) (input : Bytes) :
    CollectorReads maxBytes limit (c.append input).1 (r.piece limit input) := by
  obtain ⟨s, hstores, hline⟩ := hreads.held
  unfold append Reading.piece
  by_cases hinput : input = []
  · rw [if_pos hinput, hinput, foldl_nil, cut_of_le hline hreads.pending]
    exact hreads
  · have hstart : ScanReads c { collector := c, line := c.pending, atLineStart := c.pendingAtLineStart } r :=
      ⟨⟨s, hstores, hline⟩, rfl, rfl, hreads.oneLine⟩
    have hscan := bytes_scanReads hstart input
    rw [if_neg hinput]
    dsimp only
    rw [foldl_append, scan_oneLine hreads.oneLine]
    simp only [nil_append]
    generalize input.foldl Scan.byte
      { collector := c, line := c.pending, atLineStart := c.pendingAtLineStart } = scan at hscan ⊢
    obtain ⟨s', hstores', hline'⟩ := hscan.held
    have hpendingLimit : scan.collector.pendingLimit = limit := hscan.pendingLimit.trans hreads.pendingLimit
    split
    · next hlong =>
      rw [hpendingLimit] at hlong
      let split : UsbDiagnosticLogCollector :=
        { scan.collector with
          pending := scan.line.drop (scan.line.length - keep), pendingAtLineStart := scan.atLineStart }
      have hsplit : Stores split s' :=
        ⟨hstores'.stored, hstores'.received, hstores'.dropped, hstores'.active, hstores'.complete⟩
      have hconsume :=
        consumeLine_stores hsplit (scan.line.take (scan.line.length - keep)) scan.event scan.atLineStart
      have hframe := consumeLine_frame (scan.line.take (scan.line.length - keep)) scan.event scan.atLineStart split
      have hpending : (split.consumeLine (scan.line.take (scan.line.length - keep)) scan.event
          scan.atLineStart).1.pending = scan.line.drop (scan.line.length - keep) := hframe.pending
      refine ⟨⟨s'.consume (scan.line.take (scan.line.length - keep)) scan.atLineStart, ?_, ?_⟩, ?_, ?_, ?_, ?_⟩
      · exact ⟨hconsume.stored, hconsume.received, hconsume.dropped, hconsume.active, hconsume.complete⟩
      · have hcut := cut_reads hline' hlimit hlong
        rw [← hpending] at hcut
        exact hcut
      · exact hframe.maxBytes.trans (hscan.maxBytes.trans hreads.maxBytes)
      · exact hframe.pendingLimit.trans hpendingLimit
      · show (split.consumeLine _ scan.event scan.atLineStart).1.pending.length ≤ limit
        rw [hpending, length_drop]
        omega
      · show lf ∉ (split.consumeLine _ scan.event scan.atLineStart).1.pending
        rw [hpending]
        exact fun hin => hscan.oneLine (mem_of_mem_drop hin)
    · next hshort =>
      rw [hpendingLimit] at hshort
      have hle : scan.line.length ≤ limit := Nat.not_lt.1 hshort
      refine ⟨⟨s', ?_, ?_⟩, hscan.maxBytes.trans hreads.maxBytes, hpendingLimit, hle, hscan.oneLine⟩
      · exact ⟨hstores'.stored, hstores'.received, hstores'.dropped, hstores'.active, hstores'.complete⟩
      · rw [cut_of_le hline' hle]
        exact hline'

theorem finish_none (hreads : Reads s [] atLineStart r) : r.finish = s := by
  cases hreads with
  | whole line => rfl
  | parts s hkept => simp [keep] at hkept

theorem finish_pending (hreads : Reads s pending atLineStart r) (hpending : pending ≠ []) :
    r.finish = s.consume pending atLineStart := by
  unfold Reading.finish
  cases hreads with
  | whole line => exact if_neg hpending
  | @parts s first more _ _ =>
    rw [if_neg (by simp [hpending]), LogSection.consume_later_append]
    simp [LogSection.readLine, append_assoc]

theorem flush_stores
    (hreads : CollectorReads maxBytes limit c r) : Stores c.flush.1 r.finish ∧ c.flush.1.maxBytes = maxBytes := by
  obtain ⟨s, hstores, hline⟩ := hreads.held
  unfold flush
  by_cases hpending : c.pending = []
  · rw [if_neg (not_not.2 hpending)]
    rw [hpending] at hline
    rw [finish_none hline]
    exact ⟨hstores, hreads.maxBytes⟩
  · rw [if_pos hpending]
    let rest : UsbDiagnosticLogCollector := { c with pending := [] }
    have hrest : Stores rest s := ⟨hstores.stored, hstores.received, hstores.dropped, hstores.active, hstores.complete⟩
    have hconsume := consumeLine_stores hrest c.pending {} c.pendingAtLineStart
    have hframe := consumeLine_frame c.pending {} c.pendingAtLineStart rest
    rw [finish_pending hline hpending]
    exact ⟨⟨hconsume.stored, hconsume.received, hconsume.dropped, hconsume.active, hconsume.complete⟩,
      hframe.maxBytes.trans hreads.maxBytes⟩

def readPieces (limit : Nat) (pieces : List Bytes) : LogSection := (pieces.foldl (Reading.piece limit) {}).finish

theorem collect_stores {maxBytes pendingLimit : Int}
    (hcreate : create maxBytes pendingLimit = .ok c) (pieces : List Bytes) :
    Stores (c.collect pieces) (readPieces pendingLimit.toNat pieces) ∧
      (c.collect pieces).maxBytes = maxBytes.toNat := by
  unfold create at hcreate
  split at hcreate
  · cases hcreate
  split at hcreate
  · cases hcreate
  cases hcreate
  have hlimit : keep ≤ pendingLimit.toNat := by
    unfold keep
    omega
  let start : UsbDiagnosticLogCollector := { maxBytes := maxBytes.toNat, pendingLimit := pendingLimit.toNat }
  have hstart : CollectorReads maxBytes.toNat pendingLimit.toNat start {} :=
    ⟨⟨{}, ⟨by simp [start], rfl, rfl, rfl, rfl⟩, .whole {} []⟩, rfl, rfl, Nat.zero_le _, not_mem_nil⟩
  have hrun : ∀ (c : UsbDiagnosticLogCollector) (r : Reading), CollectorReads maxBytes.toNat pendingLimit.toNat c r →
      CollectorReads maxBytes.toNat pendingLimit.toNat (pieces.foldl (fun c piece => (c.append piece).1) c)
        (pieces.foldl (Reading.piece pendingLimit.toNat) r) := by
    induction pieces with
    | nil => exact fun c r hreads => hreads
    | cons piece pieces ih => exact fun c r hreads => ih _ _ (append_reads hlimit hreads piece)
  exact flush_stores (hrun start {} hstart)

end UsbDiagnosticLogCollector

/-! ### A reading is of the lines -/

open UsbDiagnosticLogCollector (keep readPieces collect_stores create)

/-- Lines that are read one after another, each whole or in parts. -/
inductive ReadLines (parts : Bytes → Option Nat → Prop) : LogSection → List Bytes → LogSection → Prop
  | nil (s : LogSection) : ReadLines parts s [] s
  | cons {s s' : LogSection} {line : Bytes} {lines : List Bytes} {first : Option Nat} (hparts : parts line first)
      (hlines : ReadLines parts (s.readLine first line) lines s') : ReadLines parts s (line :: lines) s'

/-- The parts of a line: it is long, and what is looked at first is more than the limit but for what is kept. -/
def Parts (limit : Nat) (line : Bytes) (first : Option Nat) : Prop :=
  ∀ amount ∈ first, limit < amount + keep ∧ amount + keep ≤ lineLength line

theorem lineLength_open (hline : lf ∉ line) : lineLength line = line.length := by
  unfold lineLength
  rw [takeWhile_eq_self_iff.2]
  exact fun value hin => decide_eq_true fun h => hline (h ▸ hin)

theorem lineLength_ended (hline : lf ∉ line) : lineLength (line ++ [lf]) = line.length := by
  unfold lineLength
  rw [takeWhile_append_of_pos]
  · simp
  · exact fun value hin => decide_eq_true fun h => hline (h ▸ hin)

namespace Reading

/-- Of the line that is begun, what was looked at is as it may be. -/
structure Begun (limit : Nat) (r : Reading) : Prop where
  oneLine : lf ∉ r.line
  first : ∀ amount ∈ r.first, limit < amount + keep ∧ amount + keep ≤ r.line.length

variable {limit : Nat} {r : Reading}

theorem byte_begun (hbegun : r.Begun limit) (value : UInt8) : (r.byte value).Begun limit := by
  unfold byte
  split
  · next hvalue =>
    refine ⟨?_, fun amount hin => ?_⟩
    · rw [mem_append, mem_singleton]
      exact fun hin => hin.elim hbegun.oneLine fun h => hvalue h.symm
    · have hfirst := hbegun.first amount hin
      rw [length_append]
      omega
  · exact ⟨not_mem_nil, by simp⟩

theorem cut_begun (hlimit : keep ≤ limit) (hbegun : r.Begun limit) : (r.cut limit).Begun limit := by
  unfold cut
  split
  · next hlong =>
    refine ⟨hbegun.oneLine, fun amount hin => ?_⟩
    have hamount : r.line.length - keep = amount := some.inj hin
    simp only
    omega
  · exact hbegun

theorem cut_content (r : Reading) : (r.cut limit).content = r.content := by
  unfold cut
  split <;> rfl

theorem cut_line (r : Reading) : (r.cut limit).line = r.line := by
  unfold cut
  split <;> rfl

theorem bytes_readLines {s : LogSection} {input later : Bytes} (hbegun : r.Begun limit)
    (hlater : (input.foldl byte r).Begun limit →
      ReadLines (Parts limit) (input.foldl byte r).content (linesFrom (input.foldl byte r).line later) s) :
    ReadLines (Parts limit) r.content (linesFrom r.line (input ++ later)) s := by
  induction input generalizing r with
  | nil => exact hlater hbegun
  | cons value input ih =>
    have hrest := ih (byte_begun hbegun value) hlater
    by_cases hvalue : value = lf
    · have hbyte : r.byte value = { content := r.content.readLine r.first (r.line ++ [value]) } :=
        if_neg (not_not.2 hvalue)
      rw [hbyte] at hrest
      rw [cons_append, linesFrom, if_pos hvalue]
      refine .cons (fun amount hin => ?_) hrest
      rw [hvalue, lineLength_ended hbegun.oneLine]
      exact hbegun.first amount hin
    · have hbyte : r.byte value = { r with line := r.line ++ [value] } := if_pos hvalue
      rw [hbyte] at hrest
      rw [cons_append, linesFrom, if_neg hvalue]
      exact hrest

theorem pieces_readLines (hlimit : keep ≤ limit) (hbegun : r.Begun limit) (pieces : List Bytes) :
    ReadLines (Parts limit) r.content (linesFrom r.line pieces.flatten) (pieces.foldl (piece limit) r).finish := by
  induction pieces generalizing r with
  | nil =>
    rw [flatten_nil, linesFrom, foldl_nil, finish]
    split
    · exact .nil _
    · refine .cons (fun amount hin => ?_) (.nil _)
      rw [lineLength_open hbegun.oneLine]
      exact hbegun.first amount hin
  | cons input pieces ih =>
    refine bytes_readLines hbegun fun hbegun' => ?_
    have hrest := ih (cut_begun hlimit hbegun')
    rw [cut_content, cut_line] at hrest
    exact hrest

end Reading

variable {limit amount : Nat} {start stream : Bytes} {lines pieces before after : List Bytes} {first : Option Nat}
  {pendingLimit : Int}

theorem readPieces_readLines (hlimit : keep ≤ limit) (pieces : List Bytes) :
    ReadLines (Parts limit) {} (linesOf pieces.flatten) (readPieces limit pieces) :=
  @Reading.pieces_readLines limit {} hlimit ⟨not_mem_nil, by simp⟩ pieces

/-! ### What lines do to a section -/

theorem startsWithBytes_of_take (h : startsWithBytes (line.take amount) start) : startsWithBytes line start :=
  isPrefixOf_iff_prefix.2 (( isPrefixOf_iff_prefix.1 h).trans ( take_prefix amount line))

/-- A marker is seen in the first part of its line if that is as long as the marker, and not otherwise. -/
theorem startsWithBytes_take (hamount : start.length ≤ amount)
    (h : startsWithBytes line start) : startsWithBytes (line.take amount) start := by
  obtain ⟨rest, rfl⟩ := isPrefixOf_iff_prefix.1 h
  rw [take_append, take_of_length_le hamount]
  exact isPrefixOf_iff_prefix.2 (prefix_append start _)

theorem startsWithBytes_short (hamount : amount < start.length) :
    startsWithBytes (line.take amount) start = false := by
  by_contra h
  have hprefix := isPrefixOf_iff_prefix.1 (Bool.not_eq_false _ ▸ h)
  have hlength := hprefix.length_le
  rw [length_take] at hlength
  omega

namespace LogSection

variable {s : LogSection} {line : Bytes} {first : Option Nat} {amount : Nat}

theorem extend_append (before after : Bytes) (s : LogSection) :
    (s.extend before).extend after = s.extend (before ++ after) := by
  cases hactive : s.active <;> simp [extend, hactive]

theorem consume_unmarked (hbegin : beginsSection line = false) (hend : endsSection line = false) :
    s.consume line true = s.extend line := by
  simp [consume, hbegin, hend]

theorem consume_later (s : LogSection) (line : Bytes) : s.consume line false = s.extend line := by
  simp [consume]

theorem readLine_parts (hbegin : beginsSection (line.take amount) = false)
    (hend : endsSection (line.take amount) = false) : s.readLine (some amount) line = s.extend line := by
  rw [readLine, consume_unmarked hbegin hend, consume_later, extend_append, take_append_drop]

theorem readLine_unmarked (hbegin : beginsSection line = false) (hend : endsSection line = false) :
    s.readLine first line = s.extend line := by
  cases first with
  | none => exact consume_unmarked hbegin hend
  | some amount =>
    refine readLine_parts (Bool.eq_false_iff.2 fun h => ?_) (Bool.eq_false_iff.2 fun h => ?_)
    · exact Bool.eq_false_iff.1 hbegin (startsWithBytes_of_take h)
    · exact Bool.eq_false_iff.1 hend (startsWithBytes_of_take h)

theorem readLine_inactive (hbegin : beginsSection line = false) (hactive : s.active = false) :
    s.readLine first line = s := by
  have hconsume : ∀ (part : Bytes) (atLineStart : Bool), (atLineStart && beginsSection part) = false →
      s.consume part atLineStart = s := fun part atLineStart hpart => by
    simp [consume, extend, hpart, hactive]
  cases first with
  | none => exact hconsume line true hbegin
  | some amount =>
    have hfirst : beginsSection (line.take amount) = false :=
      Bool.eq_false_iff.2 fun h => Bool.eq_false_iff.1 hbegin (startsWithBytes_of_take h)
    rw [readLine, hconsume _ true hfirst, hconsume _ false rfl]

theorem readLine_begin (hbegin : beginsSection line) (hfirst : ∀ amount ∈ first, usbDiagnosticBegin.length ≤ amount) :
    s.readLine first line = { content := line, active := true, complete := false } := by
  cases first with
  | none => simp [readLine, consume, hbegin]
  | some amount =>
    have hpart : beginsSection (line.take amount) := startsWithBytes_take (hfirst amount rfl) hbegin
    simp [readLine, consume, hpart, extend]

theorem not_begins_of_ends (hend : endsSection line) : beginsSection line = false :=
  Bool.eq_false_iff.2 fun hbegin => Bool.eq_false_iff.1 (not_both_markers hbegin) hend

theorem readLine_end (hend : endsSection line) (hactive : s.active) :
    s.readLine none line = { content := s.content ++ line, active := false, complete := true } := by
  simp [readLine, consume, not_begins_of_ends hend, hend, hactive]

theorem readLine_end_parts (hend : endsSection line) (hactive : s.active)
    (hamount : usbDiagnosticEnd.length ≤ amount) :
    s.readLine (some amount) line = { content := s.content ++ line.take amount, active := false, complete := true } := by
  have hpart : endsSection (line.take amount) := startsWithBytes_take hamount hend
  simp [readLine, consume, not_begins_of_ends hpart, hpart, hactive, extend]

theorem readLine_end_missed (hend : endsSection line) (hamount : amount < usbDiagnosticEnd.length) :
    s.readLine (some amount) line = s.extend line := by
  refine readLine_parts (Bool.eq_false_iff.2 fun h => ?_) (startsWithBytes_short hamount)
  exact Bool.eq_false_iff.1 (not_begins_of_ends hend) (startsWithBytes_of_take h)

end LogSection

/-! ### Marker lines that are read whole -/

theorem lastSection_none (hlast : lastSection lines = none) : ∀ line ∈ lines, beginsSection line = false := by
  induction lines with
  | nil => simp
  | cons line lines ih =>
    rw [lastSection, or_eq_none_iff] at hlast
    obtain ⟨hlines, hline⟩ := hlast
    intro other hother
    rcases mem_cons.1 hother with rfl | hother
    · by_contra hbegin
      rw [if_pos (by simpa using hbegin)] at hline
      cases hline
    · exact ih hlines other hother

theorem lastSection_some {rest : List Bytes} (hlast : lastSection lines = some (line, rest)) :
    ∃ before, lines = before ++ line :: rest ∧ beginsSection line ∧ ∀ other ∈ rest, beginsSection other = false := by
  induction lines with
  | nil => cases hlast
  | cons first lines ih =>
    rw [lastSection] at hlast
    cases hlines : lastSection lines with
    | some found =>
      rw [hlines, some_or] at hlast
      obtain ⟨before, rfl, hbegin, hrest⟩ := ih (hlines.trans hlast)
      exact ⟨first :: before, rfl, hbegin, hrest⟩
    | none =>
      rw [hlines, none_or] at hlast
      split at hlast
      · next hbegin =>
        cases hlast
        exact ⟨[], rfl, hbegin, lastSection_none hlines⟩
      · cases hlast

theorem Parts.whole (hparts : Parts limit line first) (hline : lineLength line ≤ limit) : first = none := by
  cases first with
  | none => rfl
  | some amount =>
    have hamount := hparts amount rfl
    omega

namespace ReadLines

variable {parts : Bytes → Option Nat → Prop} {s s' : LogSection} {lines : List Bytes}

theorem append {before after : List Bytes} (hread : ReadLines parts s (before ++ after) s') :
    ∃ between, ReadLines parts s before between ∧ ReadLines parts between after s' := by
  induction before generalizing s with
  | nil => exact ⟨s, .nil s, hread⟩
  | cons line before ih =>
    cases hread with
    | cons hparts hlines =>
      obtain ⟨between, hbefore, hafter⟩ := ih hlines
      exact ⟨between, .cons hparts hbefore, hafter⟩

theorem inactive (hread : ReadLines parts s lines s') (hactive : s.active = false)
    (hlines : ∀ line ∈ lines, beginsSection line = false) : s' = s := by
  induction hread with
  | nil s => rfl
  | @cons s s' line lines first hparts _ ih =>
    have hline : s.readLine first line = s :=
      LogSection.readLine_inactive (hlines line (mem_cons_self ..)) hactive
    have hrest := ih (by rw [hline]; exact hactive) fun other hin => hlines other (mem_cons_of_mem _ hin)
    exact hrest.trans hline

/-- A section that is begun goes to its end, if the line of the end is read whole. -/
theorem upToEnd {limit : Nat} (hread : ReadLines (Parts limit) s lines s') (hactive : s.active)
    (hcomplete : s.complete = false) (hlines : ∀ line ∈ lines, beginsSection line = false)
    (hend : ∀ last ∈ lines.find? endsSection, lineLength last ≤ limit) :
    s'.content = s.content ++ (upToEnd lines).1 ∧ s'.complete = (Remote.upToEnd lines).2 := by
  induction hread with
  | nil s => exact ⟨(append_nil _).symm, hcomplete⟩
  | @cons s s' line lines first hparts hread ih =>
    have hbegin := hlines line (mem_cons_self ..)
    have hrest := fun other hin => hlines other (mem_cons_of_mem _ hin)
    by_cases hlast : endsSection line
    · have hfirst : first = none := hparts.whole (hend line (by rw [find?_cons_of_pos hlast]; rfl))
      rw [hfirst, LogSection.readLine_end hlast hactive] at hread
      rw [Remote.upToEnd, if_pos hlast, hread.inactive rfl hrest]
      exact ⟨rfl, rfl⟩
    · have hlast' : endsSection line = false := Bool.eq_false_iff.2 hlast
      have hline : s.readLine first line = { s with content := s.content ++ line } := by
        rw [LogSection.readLine_unmarked hbegin hlast', LogSection.extend, if_pos hactive]
      rw [hline] at ih
      rw [find?_cons_of_neg hlast] at hend
      have hrest' := ih hactive hcomplete hrest hend
      rw [Remote.upToEnd, if_neg hlast, hrest'.1, append_assoc]
      exact ⟨rfl, hrest'.2⟩

end ReadLines

theorem Parts.begin (hparts : Parts limit line first)
    (hkept : keep + usbDiagnosticBegin.length ≤ limit + 1 ∨ lineLength line ≤ limit) :
    ∀ amount ∈ first, usbDiagnosticBegin.length ≤ amount := by
  intro amount hin
  have hamount := hparts amount hin
  omega

theorem readPieces_kept (hlimit : keep ≤ limit) (hkept : MarkersKept limit pieces.flatten) :
    (readPieces limit pieces).content = (sectionOf pieces.flatten).1 ∧
      (readPieces limit pieces).complete = (sectionOf pieces.flatten).2 := by
  have hread := readPieces_readLines hlimit pieces
  unfold sectionOf
  cases hlast : lastSection (linesOf pieces.flatten) with
  | none =>
    have hidle := hread.inactive rfl (lastSection_none hlast)
    rw [hidle]
    exact ⟨rfl, rfl⟩
  | some found =>
    obtain ⟨line, lines⟩ := found
    obtain ⟨hbegin, hend⟩ := hkept line lines hlast
    obtain ⟨before, hlines, hmarker, hrest⟩ := lastSection_some hlast
    rw [hlines] at hread
    obtain ⟨between, -, hafter⟩ := hread.append
    cases hafter with
    | cons hparts hafter =>
      rw [LogSection.readLine_begin hmarker (hparts.begin hbegin)] at hafter
      exact hafter.upToEnd rfl rfl hrest hend

/-! ### Lines that are cut -/

/-- Each line but the last has its line feed. -/
inductive Lines : List Bytes → Prop
  | nil : Lines []
  | last {line : Bytes} (hne : line ≠ []) (hline : lf ∉ line) : Lines [line]
  | cons {text : Bytes} {lines : List Bytes} (htext : lf ∉ text) (hlines : Lines lines) :
      Lines ((text ++ [lf]) :: lines)

theorem lines_linesFrom (hline : lf ∉ line) (stream : Bytes) : Lines (linesFrom line stream) := by
  induction stream generalizing line with
  | nil =>
    rw [linesFrom]
    split
    · exact .nil
    · next hne => exact .last hne hline
  | cons value stream ih =>
    rw [linesFrom]
    split
    · next hvalue =>
      rw [hvalue]
      exact .cons hline (ih not_mem_nil)
    · next hvalue =>
      refine ih fun hin => ?_
      rw [mem_append, mem_singleton] at hin
      exact hin.elim hline fun h => hvalue h.symm

theorem linesFrom_flatten (line stream : Bytes) : (linesFrom line stream).flatten = line ++ stream := by
  induction stream generalizing line with
  | nil =>
    rw [linesFrom]
    split
    · next hnil => rw [hnil]; rfl
    · simp
  | cons value stream ih =>
    rw [linesFrom]
    split
    · rw [flatten_cons, ih, nil_append, append_assoc]
      rfl
    · rw [ih, append_assoc]
      rfl

/-- The pieces that cut lines just when they have got too long. -/
def piecesOf (limit : Nat) (cut : Bytes → Bool) (line : Bytes) : List Bytes :=
  if cut line then [line.take (limit + 1), line.drop (limit + 1)] else [line]

theorem piecesOf_flatten (limit : Nat) (cut : Bytes → Bool) (lines : List Bytes) :
    (lines.flatMap (piecesOf limit cut)).flatten = lines.flatten := by
  induction lines with
  | nil => rfl
  | cons line lines ih =>
    rw [flatMap_cons, flatten_append, ih, flatten_cons, piecesOf]
    split <;> simp

def CutParts (limit : Nat) (cut : Bytes → Bool) (line : Bytes) (first : Option Nat) : Prop :=
  Parts limit line first ∧ (cut line → first = some (limit + 1 - keep))

namespace Reading

variable {limit : Nat} {s : LogSection}

variable {text : Bytes}

theorem bytes_oneLine (htext : lf ∉ text) (r : Reading) : text.foldl byte r = { r with line := r.line ++ text } := by
  induction text generalizing r with
  | nil => simp
  | cons value text ih =>
    have hvalue : value ≠ lf := fun h => htext (h ▸ mem_cons_self ..)
    have hbyte : r.byte value = { r with line := r.line ++ [value] } := if_pos hvalue
    rw [foldl_cons, ih (fun h => htext (mem_cons_of_mem _ h)), hbyte]
    simp

theorem bytes_line (htext : lf ∉ text) (r : Reading) :
    (text ++ [lf]).foldl byte r = { content := r.content.readLine r.first (r.line ++ (text ++ [lf])) } := by
  rw [foldl_append, bytes_oneLine htext, foldl_cons, foldl_nil, byte, if_neg (by simp)]
  simp

theorem cut_between (s : LogSection) : cut limit { content := s } = { content := s } :=
  if_neg fun h => Nat.not_lt_zero _ h.2

theorem piece_long (htext : lf ∉ text) (hlong : limit < text.length) :
    piece limit { content := s } (text.take (limit + 1)) =
      { content := s, line := text.take (limit + 1), first := some (limit + 1 - keep) } := by
  have hlength : (text.take (limit + 1)).length = limit + 1 := length_take_of_le hlong
  rw [piece, bytes_oneLine fun h => htext (mem_of_mem_take h), cut, if_pos]
  · simp [hlength]
  · exact ⟨rfl, by simp [hlength]⟩

theorem pieces_cutParts {cut : Bytes → Bool} (hlimit : keep ≤ limit) (hcut : ∀ line, cut line → limit < lineLength line)
    {lines : List Bytes} (hlines : Lines lines) (s : LogSection) :
    ReadLines (CutParts limit cut) s lines
      ((lines.flatMap (piecesOf limit cut)).foldl (piece limit) { content := s }).finish := by
  have hparts : ∀ line, limit < lineLength line → CutParts limit cut line (some (limit + 1 - keep)) := by
    intro line hlong
    refine ⟨fun amount hin => ?_, fun _ => rfl⟩
    have hamount : limit + 1 - keep = amount := some.inj hin
    omega
  induction hlines generalizing s with
  | nil => exact .nil s
  | @last line hne hline =>
    rw [flatMap_singleton, piecesOf]
    by_cases hlong : cut line
    · have hlength := hcut line hlong
      have hopen := hlength
      rw [lineLength_open hline] at hopen
      rw [if_pos hlong, foldl_cons, foldl_cons, foldl_nil, piece_long hline hopen, piece,
        bytes_oneLine fun h => hline (mem_of_mem_drop h), take_append_drop, Reading.cut, if_neg (by simp),
        finish, if_neg hne]
      exact .cons (hparts line hlength) (.nil _)
    · have hbegun : Begun limit { content := s, line := line } := ⟨hline, by simp⟩
      have hfirst := (cut_begun hlimit hbegun).first
      rw [cut_line] at hfirst
      rw [if_neg hlong, foldl_cons, foldl_nil, piece, bytes_oneLine hline, nil_append, finish, cut_line,
        if_neg hne, cut_content]
      refine .cons ⟨fun amount hin => ?_, fun h => absurd h hlong⟩ (.nil _)
      rw [lineLength_open hline]
      exact hfirst amount hin
  | @cons text lines htext hlines ih =>
    rw [flatMap_cons, piecesOf]
    by_cases hlong : cut (text ++ [lf])
    · have hlength := hcut _ hlong
      have hopen := hlength
      rw [lineLength_ended htext] at hopen
      have htake : (text ++ [lf]).take (limit + 1) = text.take (limit + 1) := take_append_of_le_length hopen
      have hdrop : (text ++ [lf]).drop (limit + 1) = text.drop (limit + 1) ++ [lf] :=
        drop_append_of_le_length hopen
      have hwhole : text.take (limit + 1) ++ (text.drop (limit + 1) ++ [lf]) = text ++ [lf] := by
        rw [← append_assoc, take_append_drop]
      rw [if_pos hlong, cons_append, cons_append, nil_append, foldl_cons, foldl_cons, htake,
        hdrop, piece_long htext hopen, piece, bytes_line fun h => htext (mem_of_mem_drop h), hwhole, cut_between]
      exact .cons (hparts _ hlength) (ih _)
    · rw [if_neg hlong, cons_append, nil_append, foldl_cons, piece, bytes_line htext, nil_append, cut_between]
      exact .cons ⟨by simp [Parts], fun h => absurd h hlong⟩ (ih _)

end Reading

/-! ### Long marker lines are lost -/

theorem lineLength_append (hline : lf ∈ line) (more : Bytes) : lineLength (line ++ more) = lineLength line := by
  unfold lineLength
  rw [takeWhile_append, if_neg]
  intro hall
  have hwhole : line.takeWhile (· ≠ lf) = line := ( takeWhile_prefix _).eq_of_length hall
  have hvalue := mem_takeWhile_imp (hwhole.symm ▸ hline)
  simp at hvalue

theorem lineLength_le_append (line more : Bytes) : lineLength line ≤ lineLength (line ++ more) := by
  unfold lineLength
  rw [takeWhile_append]
  split
  · rw [length_append]
    exact Nat.le_add_right_of_le ( takeWhile_prefix _).length_le
  · exact Nat.le_refl _

/-- A section that is not begun, or whose first line is short. -/
def LogSection.Short (limit : Nat) (s : LogSection) : Prop :=
  (s.content = [] ∧ s.active = false) ∨ (lf ∈ s.content ∧ lineLength s.content ≤ limit)

namespace LogSection

variable {limit : Nat} {s : LogSection}

theorem Short.append (hshort : s.Short limit) (hactive : s.active) {s' : LogSection} {more : Bytes}
    (hcontent : s'.content = s.content ++ more) : s'.Short limit := by
  rcases hshort with ⟨-, hidle⟩ | ⟨hin, hlength⟩
  · rw [hactive] at hidle
    cases hidle
  · refine .inr ?_
    rw [hcontent, lineLength_append hin]
    exact ⟨mem_append_left _ hin, hlength⟩

theorem Short.consume (hshort : s.Short limit) {part : Bytes} {atLineStart : Bool}
    (hpart : (atLineStart && beginsSection part) = false) : (s.consume part atLineStart).Short limit := by
  unfold LogSection.consume
  rw [hpart, if_neg (by simp)]
  split
  · next hend =>
    have hactive : s.active := by
      simp only [Bool.and_eq_true] at hend
      exact hend.1.1
    exact hshort.append hactive rfl
  · unfold extend
    split
    · next hactive => exact hshort.append hactive rfl
    · exact hshort

theorem Short.readLine (hshort : s.Short limit) {first : Option Nat} {line : Bytes}
    (hmissed : beginsSection line → ∃ amount, first = some amount ∧ amount < usbDiagnosticBegin.length) :
    (s.readLine first line).Short limit := by
  cases first with
  | none =>
    refine hshort.consume (Bool.eq_false_iff.2 fun hbegin => ?_)
    obtain ⟨amount, hnone, -⟩ := hmissed hbegin
    cases hnone
  | some amount =>
    have hpart : beginsSection (line.take amount) = false := by
      refine Bool.eq_false_iff.2 fun hbegin => ?_
      obtain ⟨amount', hsome, hamount⟩ := hmissed (startsWithBytes_of_take hbegin)
      cases hsome
      exact Bool.eq_false_iff.1 (startsWithBytes_short hamount) hbegin
    have hhead : (s.consume (line.take amount) true).Short limit := hshort.consume hpart
    exact hhead.consume rfl

end LogSection

theorem Lines.ended (hlines : Lines lines)
    (hsplit : lines = before ++ after) (hafter : after ≠ []) : ∀ line ∈ before, lf ∈ line := by
  induction hlines generalizing before with
  | nil =>
    have hnil := append_eq_nil_iff.1 hsplit.symm
    exact absurd hnil.2 hafter
  | last hne hline =>
    cases before with
    | nil => simp
    | cons line before =>
      have htail := (cons.inj hsplit).2
      exact absurd (append_eq_nil_iff.1 htail.symm).2 hafter
  | cons htext hlines ih =>
    cases before with
    | nil => simp
    | cons line before =>
      obtain ⟨rfl, htail⟩ := cons.inj hsplit
      intro line hin
      rcases mem_cons.1 hin with rfl | hin
      · exact mem_append_right _ (mem_singleton_self lf)
      · exact ih htail line hin

def longLine (limit : Nat) (line : Bytes) : Bool := limit < lineLength line

def longEnd (limit : Nat) (line : Bytes) : Bool := endsSection line && longLine limit line

/-- With a low limit, no section is kept that begins with a long line. -/
theorem ReadLines.short (hlow : limit + 1 < keep + usbDiagnosticBegin.length) {s s' : LogSection}
    (hread : ReadLines (CutParts limit (longLine limit)) s lines s')
    (hshort : s.Short limit) (hlines : ∀ line ∈ lines, beginsSection line → lf ∈ line ∨ limit < lineLength line) :
    s'.Short limit := by
  have hpos : 0 < usbDiagnosticBegin.length := by decide
  induction hread with
  | nil s => exact hshort
  | @cons s s' line lines first hparts _ ih =>
    refine ih ?_ fun other hin => hlines other (mem_cons_of_mem _ hin)
    by_cases hlong : limit < lineLength line
    · exact hshort.readLine fun _ => ⟨limit + 1 - keep, hparts.2 (decide_eq_true hlong), by omega⟩
    · by_cases hbegin : beginsSection line
      · have hfirst : first = none := hparts.1.whole (Nat.not_lt.1 hlong)
        have hin : lf ∈ line := (hlines line (mem_cons_self ..) hbegin).resolve_right hlong
        rw [hfirst, LogSection.readLine_begin hbegin (by simp)]
        exact .inr ⟨hin, Nat.not_lt.1 hlong⟩
      · exact hshort.readLine fun h => absurd h hbegin

namespace ReadLines

variable {limit : Nat} {cut : Bytes → Bool} {s s' : LogSection} {lines : List Bytes}

variable {parts : Bytes → Option Nat → Prop}

theorem unmarked (hread : ReadLines parts s lines s') (hactive : s.active)
    (hbegin : ∀ line ∈ lines, beginsSection line = false) (hend : ∀ line ∈ lines, endsSection line = false) :
    s' = { s with content := s.content ++ lines.flatten } := by
  induction hread with
  | nil s => simp
  | @cons s s' line lines first hparts _ ih =>
    have hline : s.readLine first line = { s with content := s.content ++ line } := by
      rw [LogSection.readLine_unmarked (hbegin line (mem_cons_self ..)) (hend line (mem_cons_self ..)),
        LogSection.extend, if_pos hactive]
    rw [hline] at ih
    have hrest := ih hactive (fun other hin => hbegin other (mem_cons_of_mem _ hin))
      fun other hin => hend other (mem_cons_of_mem _ hin)
    rw [hrest, flatten_cons, append_assoc]

theorem later (hread : ReadLines parts s lines s') (hactive : s.active)
    (hcomplete : s.complete = false) (hbegin : ∀ line ∈ lines, beginsSection line = false) :
    s'.complete = false ∨ s.content.length < s'.content.length := by
  induction hread with
  | nil s => exact .inl hcomplete
  | @cons s s' line lines first hparts hread ih =>
    have hrest := fun other hin => hbegin other (mem_cons_of_mem _ hin)
    have hextend : s.readLine first line = s.extend line →
        s'.complete = false ∨ s.content.length < s'.content.length := by
      intro hline
      rw [hline, LogSection.extend, if_pos hactive] at ih
      have hlater := ih hactive hcomplete hrest
      rw [length_append] at hlater
      exact hlater.imp_right fun h => by omega
    by_cases hend : endsSection line
    · have hclosed : ∀ part : Bytes, 0 < part.length →
          s.readLine first line = { content := s.content ++ part, active := false, complete := true } →
            s'.complete = false ∨ s.content.length < s'.content.length := by
        intro part hpart hline
        rw [hline] at hread
        rw [hread.inactive rfl hrest, length_append]
        exact .inr (by omega)
      have hmarker : usbDiagnosticEnd.length ≤ line.length := ( isPrefixOf_iff_prefix.1 hend).length_le
      have hpos : 0 < usbDiagnosticEnd.length := by decide
      cases first with
      | none => exact hclosed line (by omega) (LogSection.readLine_end hend hactive)
      | some amount =>
        by_cases hamount : usbDiagnosticEnd.length ≤ amount
        · refine hclosed (line.take amount) ?_ (LogSection.readLine_end_parts hend hactive hamount)
          rw [length_take]
          omega
        · exact hextend (LogSection.readLine_end_missed hend (Nat.not_le.1 hamount))
    · exact hextend (LogSection.readLine_unmarked (hbegin line (mem_cons_self ..)) (Bool.eq_false_iff.2 hend))

end ReadLines

/-- A reading of a stream that is as long and as complete as the section of it, however the stream is cut. -/
def SameSection (limit : Nat) (stream : Bytes) (pieces : List Bytes) : Prop :=
  (readPieces limit pieces).content = (sectionOf stream).1 ∧ (readPieces limit pieces).complete = (sectionOf stream).2

theorem upToEnd_split {last : Bytes} (hbefore : ∀ line ∈ before, endsSection line = false)
    (hlast : endsSection last) : upToEnd (before ++ last :: after) = (before.flatten ++ last, true) := by
  induction before with
  | nil => rw [nil_append, upToEnd, if_pos hlast]; rfl
  | cons line before ih =>
    have hline : ¬ endsSection line := Bool.eq_false_iff.1 (hbefore line (mem_cons_self ..))
    rw [cons_append, upToEnd, if_neg hline, ih fun other hin => hbefore other (mem_cons_of_mem _ hin),
      flatten_cons, append_assoc]

theorem cutPieces_readLines (hlimit : keep ≤ limit) (cut : Bytes → Bool)
    (hcut : ∀ line, cut line → limit < lineLength line) (stream : Bytes) :
    ReadLines (CutParts limit cut) {} (linesOf stream)
      (readPieces limit ((linesOf stream).flatMap (piecesOf limit cut))) :=
  Reading.pieces_cutParts hlimit hcut (lines_linesFrom not_mem_nil stream) {}

theorem cutPieces_flatten (limit : Nat) (cut : Bytes → Bool) (stream : Bytes) :
    ((linesOf stream).flatMap (piecesOf limit cut)).flatten = stream := by
  rw [piecesOf_flatten, linesOf, linesFrom_flatten, nil_append]

section Kept

variable {limit : Nat} {stream line : Bytes} {lines : List Bytes}

theorem begin_kept (hlimit : keep ≤ limit)
    (hsame : ∀ pieces : List Bytes, pieces.flatten = stream → SameSection limit stream pieces)
    (hlast : lastSection (linesOf stream) = some (line, lines)) :
    keep + usbDiagnosticBegin.length ≤ limit + 1 ∨ lineLength line ≤ limit := by
  by_contra hlost
  rw [not_or, Nat.not_le, Nat.not_le] at hlost
  obtain ⟨hlow, hlong⟩ := hlost
  obtain ⟨before, hlines, hmarker, hrest⟩ := lastSection_some hlast
  have hended := (lines_linesFrom not_mem_nil stream).ended hlines (cons_ne_nil _ _)
  have hread := cutPieces_readLines hlimit (longLine limit) (by simp [longLine]) stream
  have hshort := hread.short hlow (.inl ⟨rfl, rfl⟩) fun other hin hbegin => by
    rw [hlines, mem_append, mem_cons] at hin
    rcases hin with hin | rfl | hin
    · exact .inl (hended other hin)
    · exact .inr hlong
    · rw [hrest other hin] at hbegin
      cases hbegin
  have hcontent := (hsame _ (cutPieces_flatten limit (longLine limit) stream)).1
  have hsection : (sectionOf stream).1 = line ++ (upToEnd lines).1 := by rw [sectionOf, hlast]
  have hlength := lineLength_le_append line (upToEnd lines).1
  rw [← hsection, ← hcontent] at hlength
  rcases hshort with ⟨hempty, -⟩ | ⟨-, hle⟩
  · rw [hempty] at hlength
    exact Nat.not_lt_zero _ (Nat.lt_of_lt_of_le hlong hlength)
  · omega

theorem end_kept (hlimit : keep ≤ limit)
    (hsame : ∀ pieces : List Bytes, pieces.flatten = stream → SameSection limit stream pieces)
    (hlast : lastSection (linesOf stream) = some (line, lines)) :
    ∀ last ∈ lines.find? endsSection, lineLength last ≤ limit := by
  intro last hfind
  by_contra hlong
  rw [Nat.not_le] at hlong
  obtain ⟨before, hlines, hmarker, hrest⟩ := lastSection_some hlast
  obtain ⟨hend, middle, after, rfl, hmiddle⟩ := find?_eq_some_iff_append.1 hfind
  have hmiddle' : ∀ other ∈ middle, endsSection other = false := fun other hin => by simpa using hmiddle other hin
  obtain ⟨hcontent, hcomplete⟩ := hsame _ (cutPieces_flatten limit (longEnd limit) stream)
  have hread := cutPieces_readLines hlimit (longEnd limit)
    (fun line hcut => of_decide_eq_true (Bool.and_eq_true_iff.1 hcut).2) stream
  have hsection : sectionOf stream = (line ++ (middle.flatten ++ last), true) := by
    rw [sectionOf, hlast]
    simp only [upToEnd_split hmiddle' hend]
  generalize readPieces limit _ = s' at hread hcontent hcomplete
  rw [hsection] at hcontent hcomplete
  rw [hlines] at hread
  obtain ⟨between, -, hread⟩ := hread.append
  cases hread with
  | cons hparts hread =>
    rw [LogSection.readLine_begin hmarker (hparts.1.begin (begin_kept hlimit hsame hlast))] at hread
    obtain ⟨between', hmiddle'', hread⟩ := hread.append
    have hbetween := hmiddle''.unmarked rfl (fun other hin => hrest other (mem_append_left _ hin)) hmiddle'
    cases hread with
    | @cons _ _ _ _ first hparts hread =>
      have hafter : ∀ other ∈ after, beginsSection other = false := fun other hin =>
        hrest other (mem_append_right _ (mem_cons_of_mem _ hin))
      have hfirst : first = some (limit + 1 - keep) := hparts.2 (by simp [longEnd, longLine, hend, hlong])
      have hactive : between'.active := by rw [hbetween]
      rw [hfirst] at hread
      by_cases hamount : usbDiagnosticEnd.length ≤ limit + 1 - keep
      · -- the end is seen, but its line is not stored to its own end
        rw [LogSection.readLine_end_parts hend hactive hamount, hbetween] at hread
        have hstored := congrArg (List.length ∘ LogSection.content) (hread.inactive rfl hafter)
        have hshorter : (last.take (limit + 1 - keep)).length < last.length := by
          have hline := ( takeWhile_prefix (l := last) (· ≠ lf)).length_le
          have hkeep : 0 < keep := by decide
          rw [length_take]
          unfold lineLength at hlong
          omega
        simp only [Function.comp_apply, hcontent, length_append] at hstored
        omega
      · -- the end is not seen, so the section goes on
        rw [LogSection.readLine_end_missed hend (Nat.not_le.1 hamount), LogSection.extend, if_pos hactive,
          hbetween] at hread
        rcases hread.later rfl rfl hafter with hopen | hlonger
        · rw [hcomplete] at hopen
          cases hopen
        · simp only [hcontent, length_append] at hlonger
          omega

end Kept

/-! ### When a log does not depend on its pieces -/

/-- A collector has the section of a stream if its reading is of the section. -/
theorem collected_of_same {maxBytes : Int} {c : UsbDiagnosticLogCollector}
    (hcreate : create maxBytes pendingLimit = .ok c)
    (hsame : SameSection pendingLimit.toNat stream pieces) : Collected stream (c.collect pieces) := by
  obtain ⟨hstores, -⟩ := collect_stores hcreate pieces
  refine ⟨?_, ?_, ?_, ?_⟩
  · rw [hstores.stored, hsame.1]
  · rw [hstores.received, hsame.1]
  · rw [hstores.dropped, hsame.1]
  · rw [hstores.complete, hsame.2]

/-- A collector that has room for the whole section has it only if its reading is of the section. -/
theorem same_of_collected (hlimit : (64 : Int) ≤ pendingLimit)
    (hcollected : ∀ (maxBytes : Int) (c : UsbDiagnosticLogCollector), create maxBytes pendingLimit = .ok c →
      Collected stream (c.collect pieces)) : SameSection pendingLimit.toNat stream pieces := by
  let room : Int := (sectionOf stream).1.length + 1
  have hroom : ¬ room ≤ 0 := by
    omega
  have hcreate : create room pendingLimit =
      .ok { maxBytes := room.toNat, pendingLimit := pendingLimit.toNat } := by
    rw [create, if_neg hroom, if_neg (Int.not_lt.2 hlimit)]
  obtain ⟨hstores, hmax⟩ := collect_stores hcreate pieces
  have hhas := hcollected room _ hcreate
  have hlength := hstores.received.symm.trans hhas.received
  have hfits : (sectionOf stream).1.length ≤ room.toNat := by
    omega
  have hstored := hstores.stored.symm.trans hhas.stored
  rw [hmax, take_of_length_le (hlength ▸ hfits), take_of_length_le hfits] at hstored
  exact ⟨hstored, hstores.complete.symm.trans hhas.complete⟩

/-- A collector has the last section of a stream, whatever room it has and whichever pieces the stream comes in,
exactly when the marker lines of the section are not too long for what may be pending. -/
theorem collected_iff_markers_kept (pendingLimit : Int) (hlimit : 64 ≤ pendingLimit) (stream : Bytes) :
    (∀ (maxBytes : Int) (c : UsbDiagnosticLogCollector), create maxBytes pendingLimit = .ok c →
        ∀ pieces : List Bytes, pieces.flatten = stream → Collected stream (c.collect pieces)) ↔
      MarkersKept pendingLimit.toNat stream := by
  have hkeep : keep ≤ pendingLimit.toNat := by
    unfold keep
    omega
  constructor
  · intro hcollected
    have hsame : ∀ pieces : List Bytes, pieces.flatten = stream → SameSection pendingLimit.toNat stream pieces :=
      fun pieces hpieces => same_of_collected hlimit fun maxBytes c hcreate => hcollected maxBytes c hcreate pieces hpieces
    exact fun line lines hlast => ⟨begin_kept hkeep hsame hlast, end_kept hkeep hsame hlast⟩
  · intro hkept maxBytes c hcreate pieces hpieces
    rw [← hpieces] at hkept ⊢
    exact collected_of_same hcreate (readPieces_kept hkeep hkept)

def shortCapture : Bytes := ascii "usbdiag: BEGIN 1\nx\nusbdiag: END 1\n"

/-- A capture with short markers is the same in all pieces. -/
theorem collected_iff_markers_kept_short :
    MarkersKept 64 shortCapture ∧
      ∀ (maxBytes : Int) (c : UsbDiagnosticLogCollector), create maxBytes 64 = .ok c →
        ∀ pieces : List Bytes, pieces.flatten = shortCapture → Collected shortCapture (c.collect pieces) := by
  have hkept : MarkersKept 64 shortCapture := by
    intro line lines hlast
    have hsection : lastSection (linesOf shortCapture) =
        some (ascii "usbdiag: BEGIN 1\n", [ascii "x\n", ascii "usbdiag: END 1\n"]) := by
      decide +kernel
    cases hsection.symm.trans hlast
    decide
  exact ⟨hkept, (collected_iff_markers_kept 64 (by decide) shortCapture).2 hkept⟩

/-- A marker line of 65 bytes that comes in one piece, without its line feed. -/
theorem long_begin_lost :
    ∃ c, create 100 64 = .ok c ∧
      ¬ Collected (usbDiagnosticBegin ++ List.replicate 50 120)
        (c.collect [usbDiagnosticBegin ++ List.replicate 50 120]) := by
  refine ⟨_, rfl, fun hcollected => ?_⟩
  exact absurd hcollected.received (by decide)

end Bmx.Remote
