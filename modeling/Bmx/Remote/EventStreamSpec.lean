import Bmx.Remote.EventStreamRun

/-!
# No invalidation is lost

What is queued for a stream carries the number the router has reached, so the events of one start of
the device are numbered by how many invalidations had been made when they were read. A client that
names the number the router has reached has therefore been told of every invalidation, if that number
was given out since the device started and the numbers have not come round.
-/

namespace Bmx.Remote

open EventStream List Option Nat

/-! ### Resources -/

theorem uint32_le_or (a b : UInt32) : a ≤ b ||| a := by
  exact right_le_or

theorem resourceNames_subset_all (resources : UInt32) : resourceNames resources ⊆ allResources := by
  unfold resourceNames
  split
  · decide
  split
  · decide
  · exact Subset.refl _

variable {all a b : UInt32} {made : List Invalidation} {receipts : List Receipt} {count : Nat} {d : EventDevice}

theorem resourceNames_mono {some : UInt32} (hsome : some ≠ 0) (h : all ||| some = all) :
    resourceNames some ⊆ resourceNames all := by
  have hle : some.toNat ≤ all.toNat := by
    have hor := uint32_le_or some all
    rwa [h, UInt32.le_iff_toNat_le] at hor
  have hpositive : some.toNat ≠ 0 := fun hzero => hsome (UInt32.toNat_inj.1 hzero)
  by_cases hmenu : all = invalidateMenu
  · subst hmenu
    have hone : some = invalidateMenu := by
      apply UInt32.toNat_inj.1
      change some.toNat = 1
      change some.toNat ≤ 1 at hle
      omega
    rw [hone]
    exact Subset.refl _
  by_cases hfiles : all = invalidateMediaFiles
  · subst hfiles
    change some.toNat ≤ 2 at hle
    have hcases : some = 1 ∨ some = 2 := by
      rcases (show some.toNat = 1 ∨ some.toNat = 2 by omega) with hone | htwo
      · exact .inl (UInt32.toNat_inj.1 hone)
      · exact .inr (UInt32.toNat_inj.1 htwo)
    rcases hcases with rfl | rfl
    · exact absurd h (by decide)
    · exact Subset.refl _
  · have hall : resourceNames all = allResources := by
      unfold resourceNames
      rw [if_neg hmenu, if_neg hfiles]
    rw [hall]
    exact resourceNames_subset_all some

theorem resourceNames_of_all (h : all ||| invalidateAll = all) : resourceNames all = allResources := by
  unfold resourceNames
  split
  · rename_i hmenu
    rw [hmenu] at h
    exact absurd h (by decide)
  split
  · rename_i hfiles
    rw [hfiles] at h
    exact absurd h (by decide)
  · rfl

theorem or_idem_right (a b : UInt32) : (a ||| b) ||| b = a ||| b := by
  rw [UInt32.or_assoc, UInt32.or_self]

theorem or_mono_right (c : UInt32) (h : a ||| b = a) : (a ||| c) ||| b = a ||| c := by
  rw [UInt32.or_assoc, UInt32.or_comm c b, ← UInt32.or_assoc, h]

theorem ne_zero_of_or (hb : b ≠ 0) (h : a ||| b = a) : a ≠ 0 := by
  rintro rfl
  rw [UInt32.zero_or] at h
  exact hb h

/-! ### Events -/

theorem length_decimal_le {value digits : Nat} (hdigits : 0 < digits) (h : value < 10 ^ digits) :
    (decimal value).length ≤ digits := by
  have hlength : (Nat.toDigits 10 value).length ≤ digits := (length_toDigits_le_iff (by omega) hdigits).2 h
  unfold decimal ascii
  rw [length_map]
  exact toList_repr ▸ hlength

theorem length_resourceList_le (resources : UInt32) : (resourceList (resourceNames resources)).length ≤ 64 := by
  unfold resourceNames
  split
  · decide
  split
  · decide
  · decide

namespace EventStream

variable (stream : EventStream)

theorem event_fits : stream.event.text.length < httpResponseStreamBufferBytes := by
  have hid : (decimal stream.queuedRevision.toNat).length ≤ 10 := by
    have hbound := stream.queuedRevision.toNat_lt
    exact length_decimal_le (by omega) (by omega)
  have hlist := length_resourceList_le stream.queuedResources
  have hfirst : (ascii "id: ").length ≤ 64 := by decide
  have hmiddle : (ascii "\nevent: invalidate\ndata: \x7b\"resources\":").length ≤ 64 := by decide
  have hlast : (ascii "\x7d\n\n").length ≤ 64 := by decide
  change (ascii _ ++ decimal _ ++ ascii _ ++ resourceList _ ++ ascii _).length < 1024
  rw [length_append, length_append, length_append, length_append]
  change _ + (decimal stream.queuedRevision.toNat).length + _ +
    (resourceList (resourceNames stream.queuedResources)).length + _ < 1024
  omega

theorem read_empty {stream : EventStream} (h : stream.queuedResources = 0) (capacity : Nat) :
    stream.read capacity = ((.wouldBlock, []), stream) := if_pos h

theorem read_queued (h : stream.queuedResources ≠ 0) :
    stream.read httpResponseStreamBufferBytes =
      ((.data, stream.event.text), { stream with queuedResources := 0 }) := by
  have hfits := stream.event_fits
  unfold read
  rw [if_neg h, if_neg (Nat.not_le.2 hfits)]

end EventStream

structure Covers (event : InvalidateEvent) (invalidation : Invalidation) : Prop where
  id : invalidation.revision ≤ event.id
  resources : resourceNames invalidation.resources ⊆ event.resources

/-- A client has been told of the first invalidations by events that were read after them. -/
def Told (made : List Invalidation) (receipts : List Receipt) (count : Nat) : Prop :=
  ∀ (index : Nat) (invalidation : Invalidation), made[index]? = some invalidation → index < count →
    ∃ receipt ∈ receipts, index < receipt.emission.made ∧
      resourceNames invalidation.resources ⊆ receipt.emission.event.resources

theorem Told.mono {receipts' : List Receipt}
    (h : Told made receipts count) (hsubset : receipts ⊆ receipts') : Told made receipts' count := by
  intro index invalidation hget hindex
  obtain ⟨receipt, hreceipt, hrest⟩ := h index invalidation hget hindex
  exact ⟨receipt, hsubset hreceipt, hrest⟩

theorem Told.extend (h : Told made receipts count) (hcount : count ≤ made.length) (more : List Invalidation) :
    Told (made ++ more) receipts count := by
  intro index invalidation hget hindex
  rw [getElem?_append_left (by omega)] at hget
  exact h index invalidation hget hindex

/-! ### Connections -/

/-- The event that is read as number `index` of a connection. -/
structure Emitted (made : List Invalidation) (c : EventConnection) (index : Nat) (emission : Emission) :
    Prop where
  since : c.since ≤ emission.made
  within : emission.made ≤ made.length
  id : emission.event.id.toNat = 1 + (emission.made - c.boot.began)
  first : c.resynchronized = true → index = 0 → emission.event.resources = allResources
  covers : ∀ (k : Nat) (invalidation : Invalidation), made[k]? = some invalidation → c.since ≤ k →
    k < emission.made → ∃ earlier ≤ index, ∃ other, c.emitted[earlier]? = some other ∧ k < other.made ∧
      Covers other.event invalidation

/-- What holds of a connection, open or not. -/
structure Faithful (made : List Invalidation) (receipts : Nat → List Receipt) (c : EventConnection) :
    Prop where
  began : c.boot.began ≤ c.since
  since : c.since ≤ c.readAt
  readAt : c.readAt ≤ made.length
  emitted : ∀ (index : Nat) (emission : Emission), c.emitted[index]? = some emission →
    Emitted made c index emission
  covers : ∀ (k : Nat) (invalidation : Invalidation), made[k]? = some invalidation → c.since ≤ k →
    k < c.readAt → ∃ emission ∈ c.emitted, k < emission.made ∧ Covers emission.event invalidation
  resumed : ∀ client, c.client = some client → c.resynchronized = false → Told made c.known c.since
  known : ∀ client, c.client = some client → c.known ⊆ receipts client
  arrived : c.received ≤ c.emitted.length
  received : ∀ client, c.client = some client → ∀ (index : Nat) (emission : Emission), index < c.received →
    c.emitted[index]? = some emission → ⟨c.boot, emission⟩ ∈ receipts client

/-- What is queued for an open connection: all invalidations since it was read, and everything where
it is still to be resynchronized. -/
structure Queued (made : List Invalidation) (c : EventConnection) (stream : EventStream) : Prop where
  waiting : ∀ (k : Nat) (invalidation : Invalidation), made[k]? = some invalidation → c.readAt ≤ k →
    stream.queuedResources ||| invalidation.resources = stream.queuedResources
  first : c.resynchronized = true → c.emitted = [] →
    stream.queuedResources ||| invalidateAll = stream.queuedResources

/-- What holds of an event that a client got. -/
structure Received (made : List Invalidation) (receipts : List Receipt) (receipt : Receipt) : Prop where
  within : receipt.emission.made ≤ made.length
  began : receipt.boot.began ≤ receipt.emission.made
  id : receipt.emission.event.id.toNat = 1 + (receipt.emission.made - receipt.boot.began)
  told : Told made receipts receipt.emission.made

/-- What holds of a device in every run whose numbers do not come round. -/
structure EventInvariant (d : EventDevice) : Prop where
  began : d.boot.began ≤ d.made.length
  revision : d.router.eventRevision.toNat = 1 + (d.made.length - d.boot.began)
  numbered : ∀ (k : Nat) (invalidation : Invalidation), d.made[k]? = some invalidation →
    d.boot.began ≤ k → invalidation.revision.toNat = 2 + (k - d.boot.began)
  resources : ∀ invalidation ∈ d.made, invalidation.resources ≠ 0
  current : ∀ slot stream, d.router.activeEventStreams slot = some stream → stream.queuedResources ≠ 0 →
    stream.queuedRevision = d.router.eventRevision
  opened : ∀ slot c, d.opened slot = some c → c.boot = d.boot ∧ Faithful d.made d.receipts c ∧
    ∃ stream, d.router.activeEventStreams slot = some stream ∧ Queued d.made c stream
  closed : ∀ c ∈ d.closed, Faithful d.made d.receipts c
  receipts : ∀ client, ∀ receipt ∈ d.receipts client, Received d.made (d.receipts client) receipt

/-! ### More invalidations -/

section

variable {made : List Invalidation} {c : EventConnection}

variable {k : Nat}

theorem getElem?_of_extend {more : List Invalidation} {invalidation : Invalidation}
    (hget : (made ++ more)[k]? = some invalidation) (hk : k < made.length) : made[k]? = some invalidation := by
  rwa [getElem?_append_left hk] at hget

theorem getElem?_append_last {α : Type} {list : List α} {last value : α}
    (hget : (list ++ [last])[k]? = some value) (hk : list.length ≤ k) : k = list.length ∧ value = last := by
  rw [getElem?_append_right hk] at hget
  obtain ⟨hbound, hvalue⟩ := List.getElem?_eq_some_iff.1 hget
  rw [length_singleton] at hbound
  refine ⟨by omega, ?_⟩
  rw [← hvalue, getElem_singleton]

theorem Emitted.extend {index : Nat} {emission : Emission} (h : Emitted made c index emission)
    (more : List Invalidation) : Emitted (made ++ more) c index emission where
  since := h.since
  within := by
    have hwithin := h.within
    rw [length_append]
    omega
  id := h.id
  first := h.first
  covers := by
    intro k invalidation hget hsince hk
    have hwithin := h.within
    exact h.covers k invalidation (getElem?_of_extend hget (by omega)) hsince hk

theorem Faithful.extend {receipts : Nat → List Receipt} (h : Faithful made receipts c)
    (more : List Invalidation) : Faithful (made ++ more) receipts c where
  began := h.began
  since := h.since
  readAt := by
    have hread := h.readAt
    rw [length_append]
    omega
  emitted := fun index emission hget => (h.emitted index emission hget).extend more
  covers := by
    intro k invalidation hget hsince hk
    have hread := h.readAt
    exact h.covers k invalidation (getElem?_of_extend hget (by omega)) hsince hk
  resumed := by
    intro client hclient hresumed
    exact (h.resumed client hclient hresumed).extend (Nat.le_trans h.since h.readAt) more
  known := h.known
  arrived := h.arrived
  received := h.received

theorem Received.extend {receipts : List Receipt} {receipt : Receipt} (h : Received made receipts receipt)
    (more : List Invalidation) : Received (made ++ more) receipts receipt where
  within := by
    have hwithin := h.within
    rw [length_append]
    omega
  began := h.began
  id := h.id
  told := h.told.extend h.within more

theorem Queued.invalidate {stream : EventStream} (h : Queued made c stream) {revision resources : UInt32}
    (hresources : resources ≠ 0) : Queued (made ++ [⟨revision, resources⟩]) c (stream.queue revision resources) := by
  have hqueue : (stream.queue revision resources).queuedResources = stream.queuedResources ||| resources := by
    unfold queue
    rw [if_neg hresources]
  constructor
  · intro k invalidation hget hread
    rw [hqueue]
    by_cases hk : k < made.length
    · exact or_mono_right resources (h.waiting k invalidation (getElem?_of_extend hget hk) hread)
    · obtain ⟨-, rfl⟩ := getElem?_append_last hget (by omega)
      exact or_idem_right _ _
  · intro hfirst hnone
    rw [hqueue]
    exact or_mono_right resources (h.first hfirst hnone)

end

theorem nextRevision_toNat {revision : UInt32} (h : revision.toNat ≠ 2 ^ 32 - 1) :
    (nextRevision revision).toNat = revision.toNat + 1 := by
  have hbound := revision.toNat_lt
  have hsum : (revision + 1).toNat = revision.toNat + 1 := by
    change (revision.toNat + 1) % 2 ^ 32 = _
    omega
  have hnonzero : revision + 1 ≠ 0 := by
    intro hzero
    rw [hzero] at hsum
    change 0 = revision.toNat + 1 at hsum
    omega
  unfold nextRevision
  rw [if_neg hnonzero, hsum]

namespace EventInvariant

variable {d : EventDevice}

theorem invalidate (h : EventInvariant d) {resources : UInt32}
    (hwrap : resources ≠ 0 → d.router.eventRevision.toNat ≠ 2 ^ 32 - 1) :
    EventInvariant (d.invalidate resources) := by
  by_cases hresources : resources = 0
  · have hsame : d.invalidate resources = d := by
      unfold EventDevice.invalidate EventRouter.invalidate
      rw [if_pos hresources, if_pos hresources]
    rwa [hsame]
  have hnext := nextRevision_toNat (hwrap hresources)
  have hmade : (d.invalidate resources).made =
      d.made ++ [⟨nextRevision d.router.eventRevision, resources⟩] := if_neg hresources
  have hrouter : (d.invalidate resources).router =
      { d.router with
        eventRevision := nextRevision d.router.eventRevision
        activeEventStreams := fun slot => (d.router.activeEventStreams slot).map
          (queue (nextRevision d.router.eventRevision) resources) } := if_neg hresources
  have hbegan := h.began
  have hrevision := h.revision
  constructor
  · rw [hmade, length_append, length_singleton]
    exact le_succ_of_le hbegan
  · rw [hmade, hrouter, length_append, length_singleton]
    change (nextRevision d.router.eventRevision).toNat = 1 + (d.made.length + 1 - d.boot.began)
    omega
  · rw [hmade]
    intro k invalidation hget hk
    change d.boot.began ≤ k at hk
    change invalidation.revision.toNat = 2 + (k - d.boot.began)
    by_cases hold : k < d.made.length
    · exact h.numbered k invalidation (getElem?_of_extend hget hold) hk
    · obtain ⟨hlast, rfl⟩ := getElem?_append_last hget (by omega)
      change (nextRevision d.router.eventRevision).toNat = 2 + (k - d.boot.began)
      omega
  · rw [hmade]
    intro invalidation hmem
    rcases mem_append.1 hmem with hmem | hmem
    · exact h.resources invalidation hmem
    · obtain rfl := mem_singleton.1 hmem
      exact hresources
  · rw [hrouter]
    intro slot stream hstream hqueued
    obtain ⟨old, hold, rfl⟩ := map_eq_some_iff.1 hstream
    unfold queue
    rw [if_neg hresources]
  · intro slot c hc
    obtain ⟨hboot, hfaithful, stream, hstream, hqueued⟩ := h.opened slot c hc
    rw [hmade, hrouter]
    refine ⟨hboot, hfaithful.extend _, _, ?_, hqueued.invalidate hresources⟩
    exact congrArg (Option.map _) hstream
  · rw [hmade]
    exact fun c hc => (h.closed c hc).extend _
  · rw [hmade]
    exact fun client receipt hreceipt => (h.receipts client receipt hreceipt).extend _

theorem menu (h : EventInvariant d) (menuChanges menuRevision : UInt32) :
    EventInvariant { d with
      menuChanges := menuChanges
      router := { d.router with menuRevision := menuRevision } } :=
  ⟨h.began, h.revision, h.numbered, h.resources, h.current, h.opened, h.closed, h.receipts⟩

theorem pollMenu (h : EventInvariant d)
    (hwrap : d.menuChanges ≠ d.router.menuRevision → d.router.eventRevision.toNat ≠ 2 ^ 32 - 1) :
    EventInvariant d.pollMenu := by
  by_cases hsame : d.menuChanges = d.router.menuRevision
  · have hpoll : d.pollMenu = d := by
      unfold EventDevice.pollMenu EventRouter.pollMenuInvalidation
      rw [if_pos hsame, if_pos hsame]
    rwa [hpoll]
  · have hpoll : d.pollMenu = EventDevice.invalidate invalidateMenu
        { d with router := { d.router with menuRevision := d.menuChanges } } := by
      unfold EventDevice.pollMenu EventRouter.pollMenuInvalidation EventDevice.invalidate
      rw [if_neg hsame, if_neg hsame]
      rfl
    rw [hpoll]
    exact (h.menu d.menuChanges d.menuChanges).invalidate fun _ => hwrap hsame

variable {c : EventConnection} {slot : Fin maximumEventStreams}

theorem place (h : EventInvariant d) (slot : Fin maximumEventStreams) {stream : EventStream}
    (hcurrent : stream.queuedResources ≠ 0 → stream.queuedRevision = d.router.eventRevision)
    (hboot : c.boot = d.boot) (hfaithful : Faithful d.made d.receipts c) (hqueued : Queued d.made c stream) :
    EventInvariant (EventDevice.setOpened { d with router := d.router.setStream slot (some stream) } slot
      (some c)) := by
  refine ⟨h.began, h.revision, h.numbered, h.resources, ?_, ?_, h.closed, h.receipts⟩
  · intro other stream' hstream hnonzero
    change (if other = slot then some stream else d.router.activeEventStreams other) = some stream' at hstream
    split at hstream
    · cases hstream
      exact hcurrent hnonzero
    · exact h.current other stream' hstream hnonzero
  · intro other c' hc
    change (if other = slot then some c else d.opened other) = some c' at hc
    change c'.boot = d.boot ∧ Faithful d.made d.receipts c' ∧ ∃ stream',
      (if other = slot then some stream else d.router.activeEventStreams other) = some stream' ∧
        Queued d.made c' stream'
    by_cases hother : other = slot
    · rw [if_pos hother] at hc ⊢
      cases hc
      exact ⟨hboot, hfaithful, stream, rfl, hqueued⟩
    · rw [if_neg hother] at hc ⊢
      exact h.opened other c' hc

theorem replace (h : EventInvariant d) {c' : EventConnection}
    (hopened : d.opened slot = some c) (hboot : c'.boot = c.boot) (hfaithful : Faithful d.made d.receipts c')
    (hqueued : ∀ stream, Queued d.made c stream → Queued d.made c' stream) :
    EventInvariant (d.setOpened slot (some c')) := by
  refine ⟨h.began, h.revision, h.numbered, h.resources, h.current, ?_, h.closed, h.receipts⟩
  intro other last hlast
  change (if other = slot then some c' else d.opened other) = some last at hlast
  split at hlast
  · rename_i hother
    cases hlast
    obtain ⟨hc, -, stream, hstream, hstill⟩ := h.opened slot c hopened
    rw [hother]
    exact ⟨hboot.trans hc, hfaithful, stream, hstream, hqueued stream hstill⟩
  · exact h.opened other last hlast

theorem close (h : EventInvariant d) (hopened : d.opened slot = some c) :
    EventInvariant (EventDevice.setOpened
      { d with router := d.router.eventStreamReleased slot, closed := c :: d.closed } slot none) := by
  refine ⟨h.began, h.revision, h.numbered, h.resources, ?_, ?_, ?_, h.receipts⟩
  · intro other stream hstream
    change (if other = slot then none else d.router.activeEventStreams other) = some stream at hstream
    split at hstream
    · cases hstream
    · exact h.current other stream hstream
  · intro other last hlast
    change (if other = slot then none else d.opened other) = some last at hlast
    change last.boot = d.boot ∧ Faithful d.made d.receipts last ∧ ∃ stream,
      (if other = slot then none else d.router.activeEventStreams other) = some stream ∧
        Queued d.made last stream
    by_cases hother : other = slot
    · rw [if_pos hother] at hlast
      cases hlast
    · rw [if_neg hother] at hlast ⊢
      exact h.opened other last hlast
  · intro last hlast
    rcases mem_cons.1 hlast with rfl | hlast
    · exact (h.opened slot _ hopened).2.1
    · exact h.closed last hlast

theorem restart (h : EventInvariant d) (menuChanges : UInt32) : EventInvariant (d.restart menuChanges) := by
  constructor
  · exact Nat.le_refl _
  · change (1 : UInt32).toNat = 1 + (d.made.length - d.made.length)
    rw [Nat.sub_self]
    rfl
  · intro k invalidation hget hk
    change d.made[k]? = some invalidation at hget
    change d.made.length ≤ k at hk
    rw [getElem?_eq_none hk] at hget
    cases hget
  · exact h.resources
  · intro slot stream hstream
    cases hstream
  · intro slot c hc
    cases hc
  · intro c hc
    rcases mem_append.1 hc with hc | hc
    · obtain ⟨slot, -, hslot⟩ := mem_filterMap.1 hc
      exact (h.opened slot c hslot).2.1
    · exact h.closed c hc
  · exact h.receipts

end EventInvariant

/-! ### Requests -/

theorem pollMenuInvalidation_menuRevision (menuChanges : UInt32) (router : EventRouter) :
    (router.pollMenuInvalidation menuChanges).menuRevision = menuChanges := by
  unfold EventRouter.pollMenuInvalidation
  split
  · rename_i hsame
    exact hsame.symm
  · rfl

section

variable {menuChanges : UInt32} {head : HttpRequestHead} {allocated : Bool} {router router' : EventRouter}

theorem routeEvents_error {reply : ApiReply}
    (h : routeEvents menuChanges head allocated router = (.error reply, router')) :
    router' = router ∨ router' = router.pollMenuInvalidation menuChanges := by
  unfold routeEvents at h
  split at h
  · exact .inl (Prod.mk.inj h).2.symm
  split at h
  · exact .inl (Prod.mk.inj h).2.symm
  split at h
  · exact .inl (Prod.mk.inj h).2.symm
  dsimp only at h
  split at h
  · exact .inr (Prod.mk.inj h).2.symm
  split at h
  · cases (Prod.mk.inj h).1
  · cases (Prod.mk.inj h).1

def openedStream (lastId : Option UInt32) (revision : UInt32) : EventStream :=
  if lastId ≠ some revision then queue revision invalidateAll {} else {}

theorem routeEvents_ok {slot : Fin maximumEventStreams}
    (h : routeEvents menuChanges head allocated router = (.ok slot, router')) :
    ∃ lastId, lastEventId head = some lastId ∧
      router' = (router.pollMenuInvalidation menuChanges).setStream slot
        (some (openedStream lastId (router.pollMenuInvalidation menuChanges).eventRevision)) := by
  unfold routeEvents at h
  split at h
  · cases (Prod.mk.inj h).1
  split at h
  · cases (Prod.mk.inj h).1
  split at h
  · cases (Prod.mk.inj h).1
  rename_i lastId hlast
  refine ⟨lastId, hlast, ?_⟩
  dsimp only at h
  unfold openedStream
  split at h
  · cases (Prod.mk.inj h).1
  split at h
  · rename_i hdiffers
    obtain ⟨hslot, hrouter⟩ := Prod.mk.inj h
    rw [if_pos hdiffers, ← Except.ok.inj hslot]
    exact hrouter.symm
  · rename_i hsame
    obtain ⟨hslot, hrouter⟩ := Prod.mk.inj h
    rw [if_neg hsame, ← Except.ok.inj hslot]
    exact hrouter.symm

end

/-! ### Receipts -/

section

variable {made : List Invalidation} {receipts receipts' : Nat → List Receipt} {c c' : EventConnection}

/-- What was sent and received does not matter for what was emitted. -/
theorem Emitted.congr {index : Nat} {emission : Emission} (h : Emitted made c index emission)
    (hboot : c'.boot = c.boot) (hsince : c'.since = c.since)
    (hresynchronized : c'.resynchronized = c.resynchronized) (hemitted : c'.emitted = c.emitted) :
    Emitted made c' index emission := by
  constructor
  · rw [hsince]
    exact h.since
  · exact h.within
  · rw [hboot]
    exact h.id
  · rw [hresynchronized]
    exact h.first
  · rw [hsince, hemitted]
    exact h.covers

theorem Faithful.sent (h : Faithful made receipts c) (sent : Nat) : Faithful made receipts { c with sent := sent } :=
  ⟨h.began, h.since, h.readAt, fun index emission hget => (h.emitted index emission hget).congr rfl rfl rfl rfl,
    h.covers, h.resumed, h.known, h.arrived, h.received⟩

theorem Faithful.mono (h : Faithful made receipts c)
    (hmore : ∀ client, receipts client ⊆ receipts' client) : Faithful made receipts' c := by
  refine ⟨h.began, h.since, h.readAt, h.emitted, h.covers, h.resumed, ?_, h.arrived, ?_⟩
  · intro client hclient receipt hreceipt
    exact hmore client (h.known client hclient hreceipt)
  · intro client hclient index emission hindex hget
    exact hmore client (h.received client hclient index emission hindex hget)

variable {receipt : Receipt} {name : Nat}

theorem Received.mono {some all : List Receipt} (h : Received made some receipt)
    (hmore : some ⊆ all) : Received made all receipt :=
  ⟨h.within, h.began, h.id, h.told.mono hmore⟩

theorem arrival_eq (h : EventDevice.arrival c = some (name, receipt)) :
    c.client = some name ∧ ∃ emission, c.emitted[c.received]? = some emission ∧
      receipt = ⟨c.boot, emission⟩ := by
  unfold EventDevice.arrival at h
  split at h
  · rename_i client emission hclient hemission
    split at h
    · cases h
      exact ⟨hclient, emission, hemission, rfl⟩
    · cases h
  · cases h

/-- A client that gets an event has been told of everything that was made before it was read: of what
was made before its connection by the first event or by what it had got, and since then by this event
and those before it. -/
theorem Faithful.arrives (h : Faithful made receipts c) (harrival : EventDevice.arrival c = some (name, receipt))
    (hmore : ∀ client, receipts client ⊆ receipts' client) (hnew : receipt ∈ receipts' name) :
    Faithful made receipts' { c with received := c.received + 1 } ∧
      Received made (receipts' name) receipt := by
  obtain ⟨hclient, emission, hemission, rfl⟩ := arrival_eq harrival
  have hlater := h.mono hmore
  have hemitted := h.emitted c.received emission hemission
  have hgot : ∀ (index : Nat) (other : Emission), index ≤ c.received → c.emitted[index]? = some other →
      ⟨c.boot, other⟩ ∈ receipts' name := by
    intro index other hindex hget
    rcases Nat.lt_or_eq_of_le hindex with hearlier | rfl
    · exact hlater.received name hclient index other hearlier hget
    · obtain rfl : emission = other := some.inj (hemission.symm.trans hget)
      exact hnew
  constructor
  · refine ⟨h.began, h.since, h.readAt, ?_, h.covers, h.resumed, hlater.known, ?_, ?_⟩
    · intro index other hget
      exact (h.emitted index other hget).congr rfl rfl rfl rfl
    · exact (List.getElem?_eq_some_iff.1 hemission).1
    · intro client hname index other hindex hget
      obtain rfl : name = client := some.inj (hclient.symm.trans hname)
      exact hgot index other (le_of_lt_succ hindex) hget
  refine ⟨hemitted.within, Nat.le_trans h.began hemitted.since, hemitted.id, ?_⟩
  intro k invalidation hget hk
  by_cases hsince : c.since ≤ k
  · obtain ⟨earlier, hearlier, other, hother, hbefore, hcovers⟩ := hemitted.covers k invalidation hget hsince hk
    exact ⟨_, hgot earlier other hearlier hother, hbefore, hcovers.resources⟩
  by_cases hresynchronized : c.resynchronized = true
  · have hfirst : 0 < c.emitted.length := Nat.lt_of_le_of_lt (Nat.zero_le _) (List.getElem?_eq_some_iff.1 hemission).1
    have hhead := getElem?_eq_getElem hfirst
    have hall := h.emitted 0 _ hhead
    refine ⟨_, hgot 0 _ (Nat.zero_le _) hhead, Nat.lt_of_lt_of_le (Nat.not_le.1 hsince) hall.since, ?_⟩
    have hresources := hall.first hresynchronized rfl
    exact hresources.symm ▸ resourceNames_subset_all _
  · have htold := h.resumed name hclient (Bool.eq_false_iff.2 hresynchronized)
    exact (htold.mono (hlater.known name hclient)) k invalidation hget (Nat.not_le.1 hsince)

end

namespace EventDevice

variable (d : EventDevice) (name : Nat) (receipt : Receipt)

theorem receipts_subset_addReceipt (client : Nat) :
    d.receipts client ⊆ (d.addReceipt name receipt).receipts client := by
  intro earlier hearlier
  unfold addReceipt
  dsimp only
  split
  · exact mem_append_left _ hearlier
  · exact hearlier

theorem mem_receipts_addReceipt : receipt ∈ (d.addReceipt name receipt).receipts name := by
  unfold addReceipt
  dsimp only
  rw [if_pos rfl]
  exact mem_append_right _ mem_cons_self

variable {d name receipt}

theorem mem_addReceipt {client : Nat} {other : Receipt}
    (h : other ∈ (d.addReceipt name receipt).receipts client) (hnew : other ∉ d.receipts client) :
    client = name ∧ other = receipt := by
  unfold addReceipt at h
  dsimp only at h
  split at h
  · rename_i hname
    rcases mem_append.1 h with hold | hlast
    · exact absurd hold hnew
    · exact ⟨hname, mem_singleton.1 hlast⟩
  · exact absurd h hnew

end EventDevice

/-! ### Steps -/

/-- The numbers do not come round in a step, and where a client resumes under the number that the
router has reached, it got that number since the device started. -/
structure Steady (action : EventAction) (d : EventDevice) : Prop where
  numbers : ∀ d', d.step action = some d' → d.made.length < d'.made.length →
    d.router.eventRevision.toNat ≠ 2 ^ 32 - 1
  resumes : ∀ client head allocated, action = .request (some client) head allocated →
    lastEventId head = some (some d.pollMenu.router.eventRevision) →
      ∃ receipt ∈ d.receipts client,
        receipt.emission.event.id = d.pollMenu.router.eventRevision ∧ receipt.boot = d.boot

theorem pollMenu_made (h : d.menuChanges ≠ d.router.menuRevision) : d.made.length < d.pollMenu.made.length := by
  unfold EventDevice.pollMenu
  rw [if_neg h, length_append, length_singleton]
  exact lt_succ_self _

theorem Steady.polls {action : EventAction} {d' : EventDevice} (h : Steady action d)
    (hstep : d.step action = some d') (hmade : d'.made = d.pollMenu.made) :
    d.menuChanges ≠ d.router.menuRevision → d.router.eventRevision.toNat ≠ 2 ^ 32 - 1 := by
  intro hchanged
  refine h.numbers d' hstep ?_
  rw [hmade]
  exact pollMenu_made hchanged

namespace EventInvariant

variable {d d' : EventDevice}

theorem start (menuChanges : UInt32) : EventInvariant (.start menuChanges) := by
  constructor
  · exact Nat.le_refl 0
  · rfl
  · intro k invalidation hget
    cases hget
  · intro invalidation hmem
    cases hmem
  · intro slot stream hstream
    cases hstream
  · intro slot c hc
    cases hc
  · intro c hc
    cases hc
  · intro client receipt hreceipt
    cases hreceipt

variable {receipt : Receipt} {slot : Fin maximumEventStreams} {stream : EventStream} {c : EventConnection} {k : Nat}
  {invalidation : Invalidation}

/-- A client that is told of nothing when it comes back has been told of everything. -/
theorem resumed (h : EventInvariant d) {receipts : List Receipt}
    (hreceived : Received d.made receipts receipt) (hboot : receipt.boot = d.boot)
    (hid : receipt.emission.event.id = d.router.eventRevision) : Told d.made receipts d.made.length := by
  have hnumber := hreceived.id
  have hrevision := h.revision
  have hbegan := hreceived.began
  have hwithin := hreceived.within
  rw [hid, hboot] at hnumber
  rw [hboot] at hbegan
  have hmade : receipt.emission.made = d.made.length := by omega
  rw [← hmade]
  exact hreceived.told

theorem request (h : EventInvariant d) {client : Option Nat} {head : HttpRequestHead} {allocated : Bool}
    (hsteady : Steady (.request client head allocated) d)
    (hstep : d.request client head allocated = some d') : EventInvariant d' := by
  have hwhole : d.step (.request client head allocated) = some d' := hstep
  unfold EventDevice.request at hstep
  split at hstep
  · cases hstep
  split at hstep
  · rename_i reply router hroute
    rcases routeEvents_error hroute with rfl | rfl
    · rw [if_pos rfl] at hstep
      cases hstep
      exact h
    · rw [pollMenuInvalidation_menuRevision] at hstep
      split at hstep
      · rename_i hsame
        cases hstep
        have hpoll : d.router.pollMenuInvalidation d.menuChanges = d.router := if_pos hsame
        rw [hpoll]
        exact h
      · cases hstep
        exact h.pollMenu (hsteady.polls hwhole rfl)
  · rename_i slot router hroute
    cases hstep
    have hpolled := h.pollMenu (hsteady.polls hwhole rfl)
    obtain ⟨lastId, hlast, rfl⟩ := routeEvents_ok hroute
    have hresynchronized : decide (lastEventId head ≠ some (some d.pollMenu.router.eventRevision)) = false →
        lastId = some d.pollMenu.router.eventRevision := by
      intro hfalse
      rw [decide_eq_false_iff_not, not_not, hlast] at hfalse
      exact some.inj hfalse
    refine hpolled.place slot ?_ rfl ?_ ?_
    · intro hqueued
      unfold openedStream at hqueued ⊢
      split
      · rfl
      · rename_i hsame
        rw [if_neg hsame] at hqueued
        exact absurd rfl hqueued
    · refine ⟨hpolled.began, Nat.le_refl _, Nat.le_refl _, ?_, ?_, ?_, ?_, Nat.le_refl 0, ?_⟩
      · intro index emission hget
        cases hget
      · intro k invalidation hget hsince hk
        exact absurd hk (Nat.not_lt.2 hsince)
      · intro name hname hfalse
        obtain rfl : client = some name := hname
        have hcurrent := hresynchronized hfalse
        rw [hcurrent] at hlast
        obtain ⟨receipt, hreceipt, hid, hboot⟩ := hsteady.resumes name head allocated rfl hlast
        exact hpolled.resumed (hpolled.receipts name receipt hreceipt) hboot hid
      · intro name hname
        obtain rfl : client = some name := hname
        exact Subset.refl _
      · intro name hname index emission hindex
        exact absurd hindex (Nat.not_lt_zero _)
    · constructor
      · intro k invalidation hget hread
        change d.pollMenu.made[k]? = some invalidation at hget
        change d.pollMenu.made.length ≤ k at hread
        rw [getElem?_eq_none hread] at hget
        cases hget
      · intro hfirst _
        have hdiffers : lastId ≠ some (d.router.pollMenuInvalidation d.menuChanges).eventRevision := by
          rintro rfl
          exact of_decide_eq_true hfirst hlast
        have hnonzero : invalidateAll ≠ 0 := by decide
        unfold openedStream queue
        rw [if_pos hdiffers, if_neg hnonzero]
        exact or_idem_right _ _

theorem readStream_eq {menuChanges : UInt32} {capacity : Nat} {router : EventRouter}
    (h : (router.pollMenuInvalidation menuChanges).activeEventStreams slot = some stream) :
    router.readStream menuChanges capacity slot = ((stream.read capacity).1,
      (router.pollMenuInvalidation menuChanges).setStream slot (some (stream.read capacity).2)) := by
  unfold EventRouter.readStream
  dsimp only
  rw [h]

theorem covers_event (h : EventInvariant d) (hstream : d.router.activeEventStreams slot = some stream)
    (hqueued : Queued d.made c stream)
    (hget : d.made[k]? = some invalidation) (hread : c.readAt ≤ k) (hbegan : d.boot.began ≤ k) :
    Covers stream.event invalidation := by
  have hnonzero := h.resources invalidation (mem_of_getElem? hget)
  have hwaiting := hqueued.waiting k invalidation hget hread
  have hcurrent := h.current slot stream hstream (ne_zero_of_or hnonzero hwaiting)
  refine ⟨?_, resourceNames_mono hnonzero hwaiting⟩
  have hbound : k < d.made.length := (List.getElem?_eq_some_iff.1 hget).1
  have hnumber := h.numbered k invalidation hget hbegan
  have hrevision := h.revision
  change invalidation.revision ≤ stream.queuedRevision
  rw [hcurrent, UInt32.le_iff_toNat_le]
  omega

theorem readAt_of_empty (h : EventInvariant d)
    (hqueued : Queued d.made c stream) (hempty : stream.queuedResources = 0)
    (hget : d.made[k]? = some invalidation) : k < c.readAt := by
  rw [← Nat.not_le]
  intro hread
  have hnonzero := h.resources invalidation (mem_of_getElem? hget)
  exact ne_zero_of_or hnonzero (hqueued.waiting k invalidation hget hread) hempty

theorem faithful_waited (h : EventInvariant d)
    (hfaithful : Faithful d.made d.receipts c) (hqueued : Queued d.made c stream)
    (hempty : stream.queuedResources = 0) :
    Faithful d.made d.receipts { c with readAt := d.made.length } where
  began := hfaithful.began
  since := Nat.le_trans hfaithful.since hfaithful.readAt
  readAt := Nat.le_refl _
  emitted := fun index emission hget => (hfaithful.emitted index emission hget).congr rfl rfl rfl rfl
  covers := by
    intro k invalidation hget hsince _
    exact hfaithful.covers k invalidation hget hsince (h.readAt_of_empty hqueued hempty hget)
  resumed := hfaithful.resumed
  known := hfaithful.known
  arrived := hfaithful.arrived
  received := hfaithful.received

theorem getElem?_append_cases {α : Type} {list : List α} {last value : α} (hget : (list ++ [last])[k]? = some value) :
    (k < list.length ∧ list[k]? = some value) ∨ (k = list.length ∧ value = last) := by
  by_cases hk : k < list.length
  · rw [getElem?_append_left hk] at hget
    exact .inl ⟨hk, hget⟩
  · exact .inr (getElem?_append_last hget (by omega))

theorem faithful_emitted (h : EventInvariant d) (hboot : c.boot = d.boot) (hfaithful : Faithful d.made d.receipts c)
    (hstream : d.router.activeEventStreams slot = some stream) (hqueued : Queued d.made c stream)
    (hsome : stream.queuedResources ≠ 0) :
    Faithful d.made d.receipts
      { c with emitted := c.emitted ++ [⟨stream.event, d.made.length⟩], readAt := d.made.length } := by
  have hbegan := hfaithful.began
  have hsinceRead := hfaithful.since
  have hread := hfaithful.readAt
  rw [hboot] at hbegan
  have hevent : ∀ (k : Nat) (invalidation : Invalidation), d.made[k]? = some invalidation → c.readAt ≤ k →
      Covers stream.event invalidation := by
    intro k invalidation hget hk
    exact h.covers_event hstream hqueued hget hk (by omega)
  have hlast : (c.emitted ++ [Emission.mk stream.event d.made.length])[c.emitted.length]? =
      some ⟨stream.event, d.made.length⟩ := getElem?_concat_length
  constructor
  · exact hfaithful.began
  · exact Nat.le_trans hsinceRead hread
  · exact Nat.le_refl _
  · intro index emission hget
    rcases getElem?_append_cases hget with ⟨hindex, hold⟩ | ⟨rfl, rfl⟩
    · have hemitted := hfaithful.emitted index emission hold
      refine ⟨hemitted.since, hemitted.within, hemitted.id, hemitted.first, ?_⟩
      intro k invalidation hget hsince hk
      obtain ⟨earlier, hearlier, other, hother, hrest⟩ := hemitted.covers k invalidation hget hsince hk
      exact ⟨earlier, hearlier, other, (getElem?_append_left (by omega)).trans hother, hrest⟩
    · refine ⟨Nat.le_trans hsinceRead hread, Nat.le_refl _, ?_, ?_, ?_⟩
      · have hrevision := h.revision
        change stream.queuedRevision.toNat = 1 + (d.made.length - c.boot.began)
        rw [h.current slot stream hstream hsome, hboot]
        exact hrevision
      · intro hfirst hnone
        have hall := hqueued.first hfirst (length_eq_zero_iff.1 hnone)
        exact resourceNames_of_all hall
      · intro k invalidation hget hsince hk
        by_cases hearlier : k < c.readAt
        · obtain ⟨emission, hmem, hlater, hcovers⟩ := hfaithful.covers k invalidation hget hsince hearlier
          obtain ⟨earlier, hbound, rfl⟩ := getElem_of_mem hmem
          exact ⟨earlier, Nat.le_of_lt hbound, _,
            (getElem?_append_left hbound).trans (getElem?_eq_getElem hbound), hlater, hcovers⟩
        · exact ⟨_, Nat.le_refl _, _, hlast, hk, hevent k invalidation hget (by omega)⟩
  · intro k invalidation hget hsince hk
    by_cases hearlier : k < c.readAt
    · obtain ⟨emission, hmem, hrest⟩ := hfaithful.covers k invalidation hget hsince hearlier
      exact ⟨emission, mem_append_left _ hmem, hrest⟩
    · exact ⟨_, mem_append_right _ mem_cons_self, hk, hevent k invalidation hget (by omega)⟩
  · exact hfaithful.resumed
  · exact hfaithful.known
  · change c.received ≤ (c.emitted ++ [_]).length
    rw [length_append]
    exact le_add_right_of_le hfaithful.arrived
  · intro client hclient index emission hindex hget
    rcases getElem?_append_cases hget with ⟨-, hold⟩ | ⟨rfl, -⟩
    · exact hfaithful.received client hclient index emission hindex hold
    · exact absurd hindex (Nat.not_lt.2 hfaithful.arrived)

theorem read (h : EventInvariant d) (hsteady : Steady (.read slot) d)
    (hstep : d.read slot = some d') : EventInvariant d' := by
  have hwhole : d.step (.read slot) = some d' := hstep
  unfold EventDevice.read at hstep
  split at hstep
  · cases hstep
  rename_i c hc
  split at hstep
  · cases hstep
  have hmade : d'.made = d.pollMenu.made := by
    split at hstep
    all_goals
      rw [← some.inj hstep]
      rfl
  have hpolled := h.pollMenu (hsteady.polls hwhole hmade)
  obtain ⟨hboot, hfaithful, stream, hstream, hqueued⟩ := hpolled.opened slot c hc
  have hresult : d.router.readStream d.menuChanges httpResponseStreamBufferBytes slot =
      ((stream.read httpResponseStreamBufferBytes).1, d.pollMenu.router.setStream slot
        (some (stream.read httpResponseStreamBufferBytes).2)) := readStream_eq hstream
  dsimp only at hstep
  rw [hresult] at hstep
  by_cases hempty : stream.queuedResources = 0
  · rw [read_empty hempty] at hstep
    cases hstep
    refine hpolled.place slot ?_ ?_ (hpolled.faithful_waited hfaithful hqueued hempty) ⟨?_, hqueued.first⟩
    · intro hsome
      exact absurd hempty hsome
    · exact hboot
    · intro k invalidation hget hread
      exact absurd (List.getElem?_eq_some_iff.1 hget).1 (Nat.not_lt.2 hread)
  · rw [stream.read_queued hempty, hstream] at hstep
    cases hstep
    refine hpolled.place slot ?_ ?_ (hpolled.faithful_emitted hboot hfaithful hstream hqueued hempty) ⟨?_, ?_⟩
    · intro hsome
      exact absurd rfl hsome
    · exact hboot
    · intro k invalidation hget hread
      exact absurd (List.getElem?_eq_some_iff.1 hget).1 (Nat.not_lt.2 hread)
    · intro _ hnone
      exact absurd hnone (append_ne_nil_of_right_ne_nil _ (cons_ne_nil _ _))

theorem write (h : EventInvariant d) {count : Nat} (hstep : d.write slot count = some d') : EventInvariant d' := by
  unfold EventDevice.write at hstep
  split at hstep
  · cases hstep
  rename_i c hc
  split at hstep
  · cases hstep
  cases hstep
  obtain ⟨-, hfaithful, -⟩ := h.opened slot c hc
  exact h.replace hc rfl (hfaithful.sent _) fun stream hqueued => ⟨hqueued.waiting, hqueued.first⟩

theorem addReceipt (h : EventInvariant d) {name : Nat}
    (hreceived : Received d.made ((d.addReceipt name receipt).receipts name) receipt) :
    EventInvariant (d.addReceipt name receipt) := by
  have hmore := d.receipts_subset_addReceipt name receipt
  refine ⟨h.began, h.revision, h.numbered, h.resources, h.current, ?_, ?_, ?_⟩
  · intro slot c hc
    obtain ⟨hboot, hfaithful, hrest⟩ := h.opened slot c hc
    exact ⟨hboot, hfaithful.mono hmore, hrest⟩
  · intro c hc
    exact (h.closed c hc).mono hmore
  · intro other earlier hearlier
    by_cases hold : earlier ∈ d.receipts other
    · exact (h.receipts other earlier hold).mono (hmore other)
    · obtain ⟨rfl, rfl⟩ := EventDevice.mem_addReceipt hearlier hold
      exact hreceived

theorem receive (h : EventInvariant d) (hstep : d.receive slot = some d') : EventInvariant d' := by
  unfold EventDevice.receive at hstep
  split at hstep
  · cases hstep
  rename_i c hc
  obtain ⟨⟨name, receipt⟩, harrival, rfl⟩ := map_eq_some_iff.1 hstep
  obtain ⟨-, hfaithful, -⟩ := h.opened slot c hc
  obtain ⟨hlater, hreceived⟩ := hfaithful.arrives harrival (d.receipts_subset_addReceipt name receipt)
    (d.mem_receipts_addReceipt name receipt)
  exact (h.addReceipt hreceived).replace hc rfl hlater fun stream hqueued => ⟨hqueued.waiting, hqueued.first⟩

theorem receiveLate (h : EventInvariant d) {index : Nat} (hstep : d.receiveLate index = some d') :
    EventInvariant d' := by
  unfold EventDevice.receiveLate at hstep
  split at hstep
  · cases hstep
  rename_i c hc
  obtain ⟨⟨name, receipt⟩, harrival, rfl⟩ := map_eq_some_iff.1 hstep
  have hfaithful := h.closed c (mem_of_getElem? hc)
  obtain ⟨hlater, hreceived⟩ := hfaithful.arrives harrival (d.receipts_subset_addReceipt name receipt)
    (d.mem_receipts_addReceipt name receipt)
  have hadded := h.addReceipt hreceived
  refine ⟨hadded.began, hadded.revision, hadded.numbered, hadded.resources, hadded.current, hadded.opened,
    ?_, hadded.receipts⟩
  intro other hother
  rcases mem_or_eq_of_mem_set hother with hold | rfl
  · exact hadded.closed other hold
  · exact hlater

theorem release (h : EventInvariant d) (hstep : d.release slot = some d') : EventInvariant d' := by
  unfold EventDevice.release at hstep
  split at hstep
  · cases hstep
  rename_i c hc
  cases hstep
  exact h.close hc

/-- Every step keeps the invariant, as long as the numbers do not come round. -/
theorem step (h : EventInvariant d) {action : EventAction} (hsteady : Steady action d)
    (hstep : d.step action = some d') : EventInvariant d' := by
  cases action with
  | commitMenu =>
    cases hstep
    exact h.menu (d.menuChanges + 1) d.router.menuRevision
  | pollMenu =>
    have hpolls := hsteady.polls hstep (congrArg EventDevice.made (some.inj hstep).symm)
    cases hstep
    exact h.pollMenu hpolls
  | invalidate resources =>
    have hnumbers := hsteady.numbers d' hstep
    cases hstep
    apply h.invalidate
    intro hresources
    apply hnumbers
    unfold EventDevice.invalidate
    rw [if_neg hresources, length_append, length_singleton]
    exact lt_succ_self _
  | request client head allocated => exact h.request hsteady hstep
  | read slot => exact h.read hsteady hstep
  | write slot count => exact h.write hstep
  | receive slot => exact h.receive hstep
  | receiveLate index => exact h.receiveLate hstep
  | release slot => exact h.release hstep
  | restart menuChanges =>
    cases hstep
    exact h.restart menuChanges

end EventInvariant

end Bmx.Remote
