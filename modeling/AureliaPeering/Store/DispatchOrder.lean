import AureliaPeering.Store.QueueFrames

/-!
The order in which the store hands out its items.

`claim_next` pops lazy keys while `has_dispatchable_work` scans slots; the queue part of the lane
invariant makes them agree.  The order of insertion is kept beside the store: a slot that is
filled is dated with the number of insertions tried so far, and loses its date when it stops being
ready.  The slots that have a date are those whose item was never claimed.
-/

namespace AureliaPeering.Store

open Collections RetainedStore List Option

namespace RetainedStore

/-- A lane that may be claimed from and has something to claim. -/
def Dispatchable (store : RetainedStore) (lane : RetainedLane) : Prop :=
  store.Open lane ∧ store.laneHasDispatchableWork lane = true

theorem laneHasDispatchableWork_iff {store : RetainedStore} (inv : store.Invariant)
    (lane : RetainedLane) :
    store.laneHasDispatchableWork lane = true ↔ ∃ index slot replay,
      store.slot ⟨lane, index⟩ = some slot ∧ slot.state.claimable replay = true := by
  unfold laneHasDispatchableWork
  rw [List.any_eq_true]
  constructor
  · rintro ⟨slot, listed, work⟩
    obtain ⟨index, found⟩ := mem_iff_getElem?.mp listed
    rw [Bool.and_eq_true, Bool.or_eq_true] at work
    rcases work.1 with fresh | replayed
    · exact ⟨index, slot, false, found, fresh⟩
    · exact ⟨index, slot, true, found, replayed⟩
  · rintro ⟨index, slot, replay, found, claimable⟩
    have sane := (inv.lanes lane).slot_of_getElem? found
    have occupied : slot.state ≠ .empty := by
      intro empty
      simp [empty] at claimable
    refine ⟨slot, mem_of_getElem? found, ?_⟩
    rw [sane.item_isSome_iff.mpr occupied, Bool.and_true]
    cases replay <;> simp [claimable]

theorem hasDispatchableWork_iff (store : RetainedStore) :
    store.hasDispatchableWork = true ↔ ∃ lane, store.Dispatchable lane := by
  simp only [hasDispatchableWork, Bool.or_eq_true, Bool.and_eq_true, Bool.not_eq_true',
    Dispatchable, Open]
  constructor
  · rintro ((acks | errors) | ⟨up, second | third⟩)
    · exact ⟨.a1Ack, .inr rfl, acks⟩
    · exact ⟨.a1Error, .inr rfl, errors⟩
    · exact ⟨.a2, .inl up, second⟩
    · exact ⟨.a3, .inl up, third⟩
  · rintro ⟨lane, opened, work⟩
    cases lane with
    | a1Ack => exact .inl (.inl work)
    | a1Error => exact .inl (.inr work)
    | a2 => exact .inr ⟨opened.resolve_right (by simp [RetainedLane.isA1]), .inl work⟩
    | a3 => exact .inr ⟨opened.resolve_right (by simp [RetainedLane.isA1]), .inr work⟩

/-- The claim takes the first live key of a queue of its lane; of the ready queue only if nothing
in the lane is ready for replay. -/
structure Found (store : RetainedStore) (claim : RetainedClaim) (replay : Bool)
    (queue : List QueueKey) (key : QueueKey) (slot : RetainedSlot) : Prop where
  opened : store.Open claim.slot.lane
  scan : LaneState.scanQueue (store.lane claim.slot.lane).slots replay
    ((store.lane claim.slot.lane).queue replay) = (queue, some (key, slot))
  index : claim.slot.index = key.index
  first : replay = false → ∀ index slot, store.slot ⟨claim.slot.lane, index⟩ = some slot →
    slot.state.claimable true = false

variable {store middle next : RetainedStore} {lane other : RetainedLane} {replay : Bool}
  {callisId : CallisId} {claim : RetainedClaim} {queue : List QueueKey} {key : QueueKey}
  {slot : RetainedSlot}

theorem Found.congr (found : Found middle claim replay queue key slot)
    (lane_eq : middle.lane claim.slot.lane = store.lane claim.slot.lane)
    (shutdown_eq : middle.shutdown = store.shutdown) : Found store claim replay queue key slot where
  opened := found.opened.imp_left shutdown_eq.symm.trans
  scan := lane_eq ▸ found.scan
  index := found.index
  first := by
    intro ready index slot at_index
    refine found.first ready index slot ?_
    rw [RetainedStore.slot, lane_eq]
    exact at_index

theorem Found.slot_eq (found : Found store claim replay queue key slot) :
    store.slot claim.slot = some slot ∧ slot.seq = key.seq ∧ slot.state.claimable replay := by
  obtain ⟨at_key, current, claimable⟩ := LaneState.scanQueue_found found.scan
  refine ⟨?_, current, claimable⟩
  rw [RetainedStore.slot, found.index]
  exact at_key

variable (inv : store.Invariant)

include inv

theorem claimFromQueue_missed (missed : store.claimFromQueue lane replay callisId = (none, next)) :
    ∃ queue, next = store.setLane lane ((store.lane lane).setQueue replay queue) := by
  rcases claimFromQueue_cases inv lane replay callisId with
    ⟨queue, _, result⟩ | ⟨_, _, _, _, _, _, result⟩
  · rw [missed] at result
    exact ⟨queue, congrArg Prod.snd result⟩
  · rw [missed] at result
    cases congrArg Prod.fst result

theorem claimFromQueue_found
    (claimed : (store.claimFromQueue lane replay callisId).1 = some claim) :
    ∃ queue key slot, LaneState.scanQueue (store.lane lane).slots replay
        ((store.lane lane).queue replay) = (queue, some (key, slot)) ∧
      claim.slot = ⟨lane, key.index⟩ := by
  rcases claimFromQueue_cases inv lane replay callisId with
    ⟨queue, _, result⟩ | ⟨queue, key, slot, _, scan, _, result⟩
  · rw [result] at claimed
    cases claimed
  · rw [result, some.injEq] at claimed
    exact ⟨queue, key, slot, scan, by rw [← claimed, claimOf]⟩

theorem claimLane_found (claimed : (store.claimLane lane callisId).1 = some claim) :
    claim.slot.lane = lane ∧ ∃ replay queue key slot, Found store claim replay queue key slot := by
  unfold claimLane at claimed
  split at claimed
  · cases claimed
  next opened =>
  have isOpen : store.Open lane := by
    cases down : store.shutdown <;> cases control : lane.isA1 <;> simp_all [Open]
  split at claimed
  · next control =>
      obtain ⟨queue, key, slot, scan, place⟩ := claimFromQueue_found inv claimed
      have here : claim.slot.lane = lane := by rw [place]
      refine ⟨here, false, queue, key, slot, here ▸ isOpen, here ▸ scan, by rw [place], ?_⟩
      intro _ index other at_index
      rw [here] at at_index
      refine Bool.eq_false_iff.mpr fun claimable => ?_
      have kind := ((inv.lanes lane).slot_of_getElem? at_index).retained
        (SlotState.retained_of_claimable claimable)
      cases lane <;> simp_all [RetainedLane.isA1, RetainedLane.kind]
  · split at claimed
    · next taken next replayed =>
        have replayed_some : (store.claimFromQueue lane true callisId).1 = some claim := by
          rw [replayed]
          exact claimed
        obtain ⟨queue, key, slot, scan, place⟩ := claimFromQueue_found inv replayed_some
        have here : claim.slot.lane = lane := by rw [place]
        exact ⟨here, true, queue, key, slot, here ▸ isOpen, here ▸ scan, by rw [place], by simp⟩
    · next next missed =>
        have spec := claimFromQueue_spec inv lane true callisId
        rw [missed] at spec
        obtain ⟨queue, key, slot, scan, place⟩ := claimFromQueue_found spec.1 claimed
        obtain ⟨_, rfl⟩ := claimFromQueue_missed inv missed
        have here : claim.slot.lane = lane := by rw [place]
        refine ⟨here, false, queue, key, slot, here ▸ isOpen, ?_, by rw [place], ?_⟩
        · simpa [here] using scan
        · intro _ index other at_index
          rw [here] at at_index
          refine Bool.eq_false_iff.mpr fun claimable => ?_
          have found := claimFromQueue_isSome inv at_index claimable callisId
          rw [missed] at found
          cases found

theorem claimFromQueue_other (different : other ≠ lane) (replay : Bool) (callisId : CallisId) :
    (store.claimFromQueue lane replay callisId).2.lane other = store.lane other := by
  rcases claimFromQueue_cases inv lane replay callisId with
    ⟨queue, _, result⟩ | ⟨queue, _, _, _, _, _, result⟩
  · rw [result]
    simp [different]
  · rw [result]
    simp [different]

theorem claimLane_other (different : other ≠ lane) (callisId : CallisId) :
    (store.claimLane lane callisId).2.lane other = store.lane other := by
  unfold claimLane
  split
  · rfl
  split
  · exact claimFromQueue_other inv different false callisId
  have replayed := claimFromQueue_other inv different true callisId
  have spec := claimFromQueue_spec inv lane true callisId
  split
  · next claim next claimed =>
      rw [claimed] at replayed
      exact replayed
  · next next missed =>
      rw [missed] at replayed spec
      exact (claimFromQueue_other spec.1 different false callisId).trans replayed

theorem not_dispatchable_of_missed (missed : store.claimLane lane callisId = (none, next)) :
    ¬ store.Dispatchable lane := by
  rintro ⟨opened, work⟩
  obtain ⟨index, slot, replay, found, claimable⟩ :=
    (laneHasDispatchableWork_iff inv lane).mp work
  have claimed := @claimLane_isSome store ⟨lane, index⟩ slot replay inv found claimable opened
    callisId
  rw [missed] at claimed
  cases claimed

omit inv

theorem claimLanes_found {callisId : CallisId} {lanes : List RetainedLane} (distinct : lanes.Nodup)
    {store : RetainedStore} (inv : store.Invariant) {claim : RetainedClaim}
    (claimed : (claimLanes callisId lanes store).1 = some claim) :
    ∃ before after, lanes = before ++ claim.slot.lane :: after ∧
      (∀ lane ∈ before, ¬ store.Dispatchable lane) ∧
      ∃ replay queue key slot, Found store claim replay queue key slot := by
  induction lanes generalizing store with
  | nil => cases claimed
  | cons lane rest ih =>
    obtain ⟨fresh, distinct⟩ := nodup_cons.mp distinct
    unfold claimLanes at claimed
    split at claimed
    · next taken next first =>
        have first_some : (store.claimLane lane callisId).1 = some claim := by
          rw [first]
          exact claimed
        obtain ⟨here, found⟩ := claimLane_found inv first_some
        exact ⟨[], rest, by rw [here]; rfl, by simp, found⟩
    · next next missed =>
        have spec := claimLane_spec inv lane callisId
        have shrinks := shrinks_of_tries inv (claimLane_tries store lane callisId) false
        rw [missed] at spec shrinks
        have shutdown_eq : next.shutdown = store.shutdown := shrinks.shutdown
        have kept : ∀ other, other ≠ lane → next.lane other = store.lane other := by
          intro other different
          have same := claimLane_other inv different callisId
          rw [missed] at same
          exact same
        obtain ⟨before, after, rfl, idle, replay, queue, key, slot, found⟩ :=
          ih distinct spec.1 claimed
        refine ⟨lane :: before, after, rfl, ?_, replay, queue, key, slot, found.congr
          (kept _ ?_) shutdown_eq⟩
        · intro other listed
          rcases mem_cons.mp listed with rfl | later
          · exact not_dispatchable_of_missed inv missed
          · have different : other ≠ lane := by
              rintro rfl
              exact fresh (mem_append_left _ later)
            have idle_next := idle other later
            simp only [Dispatchable, Open, laneHasDispatchableWork, kept other different,
              shutdown_eq] at idle_next ⊢
            exact idle_next
        · intro same
          exact fresh (by rw [← same]; simp)

end RetainedStore

theorem RetainedStore.Invariant.contents_of_slot {store : RetainedStore} (inv : store.Invariant)
    {id : SlotId} {slot : RetainedSlot} (found : store.slot id = some slot)
    (occupied : slot.state ≠ .empty) :
    ∃ stored, store.contents id = some stored ∧ stored.seq = slot.seq := by
  obtain ⟨item, item_eq⟩ := isSome_iff_exists.mp
    (((inv.lanes id.lane).slot_of_getElem? found).item_isSome_iff.mpr occupied)
  exact ⟨⟨item, slot.originalDeadline, slot.seq⟩, (LaneState.entry_eq_some_iff _ _ _).mpr
    ⟨slot, found, by simp [RetainedSlot.entry, item_eq]⟩, rfl⟩

section Order

variable {store next : RetainedStore} {stamps later : SlotId → Option Nat} {replay : Bool}
  {attempts tried : Nat} {lane : RetainedLane}

/-- How an operation that tries so many insertions uses the sequence numbers: what is stored now
was stored before, or has the next number. -/
structure Numbers (store next : RetainedStore) (tried : Nat) : Prop where
  nextSeq : next.nextSeq = store.nextSeq ∨
    tried = 1 ∧ next.nextSeq = LaneState.nextSeq store.nextSeq
  contents : ∀ id stored, next.contents id = some stored → store.contents id = some stored ∨
    tried = 1 ∧ store.contents id = none ∧ stored.seq = store.nextSeq ∧
      next.nextSeq = LaneState.nextSeq store.nextSeq

theorem step_numbers {label : Op × Output} (inv : store.Invariant)
    (taken : system.Step store label next) :
    Numbers store next (if label.1.inserted.isSome then 1 else 0) := by
  cases inserts : label.1.inserted with
  | none =>
    refine ⟨.inl (step_follows inv taken inserts).nextSeq, fun id stored present => .inl ?_⟩
    exact ((step_invariant inv taken).2.of_present present).resolve_right (by simp [inserts])
  | some item =>
    rcases insertion_cases inv inserts taken.2 with
      ⟨same, refused, _⟩ | ⟨id, _, _, vacant, contents_eq, placed, _⟩
    · exact ⟨refused.nextSeq.imp_right fun bumped => ⟨rfl, bumped⟩,
        fun _ _ present => .inl (same ▸ present)⟩
    · refine ⟨.inr ⟨rfl, placed.nextSeq⟩, fun other stored present => ?_⟩
      rw [contents_eq, Function.update_apply] at present
      split at present
      · rename_i here
        cases present
        exact .inr ⟨rfl, here ▸ vacant, placed.seq, placed.nextSeq⟩
      · exact .inl present

/-- Before the counter wraps it is above every sequence number in use. -/
structure Ahead (store : RetainedStore) (replay : Bool) (attempts : Nat) : Prop where
  counter : store.nextSeq ≤ attempts + 1
  stored : ∀ id stored, store.contents id = some stored → stored.seq < store.nextSeq
  queued : ∀ lane, ∀ key ∈ (store.lane lane).queue replay, key.seq < store.nextSeq

theorem Ahead.step (ahead : Ahead store replay attempts) (numbers : Numbers store next tried)
    (room : attempts + tried + 1 < u64Limit)
    (queued : ∀ lane, ∀ key ∈ (next.lane lane).queue replay,
      key ∈ (store.lane lane).queue replay ∨ ∃ id stored,
        (store.contents id = some stored ∨ next.contents id = some stored) ∧
          stored.seq = key.seq) : Ahead next replay (attempts + tried) := by
  have counter := ahead.counter
  have bumped : tried = 1 → LaneState.nextSeq store.nextSeq = store.nextSeq + 1 := by
    intro once
    rw [LaneState.nextSeq, Nat.mod_eq_of_lt (by omega)]
    omega
  have grown : store.nextSeq ≤ next.nextSeq ∧ next.nextSeq ≤ attempts + tried + 1 := by
    rcases numbers.nextSeq with same | ⟨once, isNext⟩
    · omega
    · rw [isNext, bumped once]
      omega
  have numbered : ∀ id stored, next.contents id = some stored → stored.seq < next.nextSeq := by
    intro id stored present
    rcases numbers.contents id stored present with before | ⟨once, _, seq_eq, isNext⟩
    · exact (ahead.stored id stored before).trans_le grown.1
    · rw [isNext, bumped once, seq_eq]
      exact Nat.lt_succ_self _
  refine ⟨grown.2, numbered, fun lane key listed => ?_⟩
  rcases queued lane key listed with old | ⟨id, stored, before | after, same⟩
  · exact (ahead.queued lane key old).trans_le grown.1
  · exact same ▸ (ahead.stored id stored before).trans_le grown.1
  · exact same ▸ numbered id stored after

/-- The stamp of the item a key stands for, as long as the item is stored. -/
def stampOf (store : RetainedStore) (stamps : SlotId → Option Nat) (lane : RetainedLane)
    (key : QueueKey) : Option Nat :=
  if (store.contents ⟨lane, key.index⟩).any (fun stored => decide (stored.seq = key.seq)) then
    stamps ⟨lane, key.index⟩
  else none

theorem stampOf_eq_some_iff (key : QueueKey) (value : Nat) :
    stampOf store stamps lane key = some value ↔
      (∃ stored, store.contents ⟨lane, key.index⟩ = some stored ∧ stored.seq = key.seq) ∧
        stamps ⟨lane, key.index⟩ = some value := by
  simp [stampOf, Option.ite_none_right_eq_some, Option.any_eq_true]

def Precedes (store : RetainedStore) (stamps : SlotId → Option Nat) (lane : RetainedLane)
    (key last : QueueKey) : Prop :=
  ∀ value ∈ stampOf store stamps lane key, ∀ follow ∈ stampOf store stamps lane last,
    value ≤ follow

theorem stampOf_of_step (numbers : Numbers store next tried)
    (kept : ∀ id, store.contents id ≠ none → ∀ value, later id = some value →
      stamps id = some value) {key : QueueKey}
    (known : tried = 1 → store.contents ⟨lane, key.index⟩ = none → key.seq ≠ store.nextSeq)
    {value : Nat} (stamped : stampOf next later lane key = some value) :
    stampOf store stamps lane key = some value := by
  obtain ⟨⟨stored, present, current⟩, stamp⟩ := (stampOf_eq_some_iff _ _).mp stamped
  rcases numbers.contents _ stored present with before | ⟨once, vacant, seq_eq, _⟩
  · exact (stampOf_eq_some_iff _ _).mpr
      ⟨⟨stored, before, current⟩, kept _ (by simp [before]) _ stamp⟩
  · exact absurd (current.symm.trans seq_eq) (known once vacant)

/-- As long as the sequence numbers have not wrapped, the stamps along a queue are in order. -/
structure InOrder (store : RetainedStore) (stamps : SlotId → Option Nat) (replay : Bool)
    (attempts : Nat) : Prop where
  ahead : attempts + 1 < u64Limit → Ahead store replay attempts
  sorted : attempts < u64Limit → ∀ lane,
    ((store.lane lane).queue replay).Pairwise (Precedes store stamps lane)

theorem InOrder.new (capacities : RetainedCapacities) (now : Instant)
    (stamps : SlotId → Option Nat) (replay : Bool) :
    InOrder (RetainedStore.new capacities now) stamps replay 0 := by
  have vacant (lane : RetainedLane) :
      ((RetainedStore.new capacities now).lane lane).queue replay = [] := by
    cases lane <;> cases replay <;> rfl
  refine ⟨fun _ => ⟨le_rfl, fun id stored present => ?_, fun lane key listed => ?_⟩,
    fun _ lane => ?_⟩
  · rw [new_contents] at present
    cases present
  · rw [vacant] at listed
    cases listed
  · rw [vacant]
    exact List.Pairwise.nil

theorem InOrder.step (order : InOrder store stamps replay attempts)
    (numbers : Numbers store next tried)
    (kept : ∀ id, store.contents id ≠ none → ∀ value, later id = some value →
      stamps id = some value)
    (queues : ∀ lane, ∃ old added, (next.lane lane).queue replay = old ++ added ∧
      old.Sublist ((store.lane lane).queue replay) ∧
      (∀ key ∈ added, ∃ id stored,
        (store.contents id = some stored ∨ next.contents id = some stored) ∧
          stored.seq = key.seq) ∧
      added.Pairwise (Precedes next later lane) ∧
      ∀ key ∈ old, ∀ last ∈ added, Precedes next later lane key last) :
    InOrder next later replay (attempts + tried) where
  ahead := by
    intro room
    refine (order.ahead (by omega)).step numbers room fun lane key listed => ?_
    obtain ⟨old, added, same, sublist, known, _⟩ := queues lane
    rw [same] at listed
    rcases mem_append.mp listed with isOld | isAdded
    · exact .inl (sublist.subset isOld)
    · exact .inr (known key isAdded)
  sorted := by
    intro room lane
    obtain ⟨old, added, same, sublist, _, ordered⟩ := queues lane
    have back {key : QueueKey} (isOld : key ∈ old) {value : Nat}
        (stamped : stampOf next later lane key = some value) :
        stampOf store stamps lane key = some value := by
      refine stampOf_of_step numbers kept (fun once _ => Nat.ne_of_lt ?_) stamped
      exact (order.ahead (by omega)).queued lane key (sublist.subset isOld)
    rw [same, pairwise_append]
    refine ⟨?_, ordered⟩
    apply ((order.sorted (by omega) lane).sublist sublist).imp_of_mem
    intro key last first second precedes value stamped follow followed
    exact precedes value (back first stamped) follow (back second followed)

theorem InOrder.oldest (order : InOrder store stamps replay attempts) (inv : store.Invariant)
    (few : attempts < u64Limit) {claim : RetainedClaim} {queue : List QueueKey} {key : QueueKey}
    {slot held : RetainedSlot} (found : Found store claim replay queue key slot) {value : Nat}
    (stamp : stamps claim.slot = some value) {other : SlotId}
    (same_lane : other.lane = claim.slot.lane) (at_other : store.slot other = some held)
    (claimable : held.state.claimable replay = true) {follow : Nat}
    (followed : stamps other = some follow) : value ≤ follow := by
  have occupied {slot : RetainedSlot} (claimable : slot.state.claimable replay = true) :
      slot.state ≠ .empty := by
    intro empty
    simp [empty] at claimable
  obtain ⟨at_claim, current, ready⟩ := found.slot_eq
  obtain ⟨stored, present, seq_eq⟩ := inv.contents_of_slot at_claim (occupied ready)
  obtain ⟨kept, still, kept_seq⟩ := inv.contents_of_slot at_other (occupied claimable)
  obtain ⟨_, index⟩ := other
  cases same_lane
  have listed := (inv.lanes claim.slot.lane).queued replay index held at_other claimable
  have place : (⟨claim.slot.lane, key.index⟩ : SlotId) = claim.slot := by
    rw [← found.index]
  have own : stampOf store stamps claim.slot.lane key = some value := by
    apply (stampOf_eq_some_iff _ _).mpr
    rw [place]
    exact ⟨⟨stored, present, seq_eq.trans current⟩, stamp⟩
  have theirs : stampOf store stamps claim.slot.lane ⟨index, held.seq⟩ = some follow :=
    (stampOf_eq_some_iff _ _).mpr ⟨⟨kept, still, kept_seq⟩, followed⟩
  rcases LaneState.scanQueue_first found.scan (order.sorted few claim.slot.lane) listed at_other rfl
      claimable with same | ordered
  · rw [← same, theirs, some.injEq] at own
    exact own.ge
  · exact ordered value own follow theirs

end Order

/-- A store with the dates of the items that were never claimed. -/
structure Dated where
  store : RetainedStore
  dates : SlotId → Option Nat
  attempts : Nat

namespace Dated

/-- A slot that has been filled gets the date of this attempt, and keeps it while it is ready. -/
def after (state : Dated) (op : Op) (next : RetainedStore) : Dated where
  store := next
  dates := fun id =>
    if (next.slot id).any (fun slot => decide (slot.state = .ready)) then
      if (state.store.contents id).isNone then some state.attempts else state.dates id
    else none
  attempts := state.attempts + if op.inserted.isSome then 1 else 0

def system : Machine.System Dated (Op × Output) where
  Initial state := ∃ capacities now, state = ⟨RetainedStore.new capacities now, fun _ => none, 0⟩
  Step state label next :=
    Store.system.Step state.store label next.store ∧ next = state.after label.1 next.store

theorem dates_after_eq_some_iff (state : Dated) (op : Op) (next : RetainedStore) (id : SlotId)
    (value : Nat) :
    (state.after op next).dates id = some value ↔
      (∃ slot, next.slot id = some slot ∧ slot.state = .ready) ∧
        (if (state.store.contents id).isNone then some state.attempts else state.dates id) =
          some value := by
  simp [after, Option.ite_none_right_eq_some, Option.any_eq_true]

structure Invariant (state : Dated) : Prop where
  store : state.store.Invariant
  dated : ∀ id value, state.dates id = some value → value < state.attempts ∧
    ∃ slot, state.store.slot id = some slot ∧ slot.state = .ready
  order : InOrder state.store state.dates false state.attempts

variable {state : Dated}

theorem dates_of_after {op : Op} {next : RetainedStore} {id : SlotId} {value : Nat}
    (dated : (state.after op next).dates id = some value) :
    (state.store.contents id ≠ none → state.dates id = some value) ∧
      (state.store.contents id = none → value = state.attempts) := by
  obtain ⟨_, chosen⟩ := (dates_after_eq_some_iff _ _ _ _ _).mp dated
  split at chosen
  · rename_i vacant
    exact ⟨fun present => absurd (isNone_iff_eq_none.mp vacant) present,
      fun _ => (some.inj chosen).symm⟩
  · rename_i present
    exact ⟨fun _ => chosen, fun vacant => absurd (isNone_iff_eq_none.mpr vacant) present⟩

/-- What a step appends to a ready queue is in order: the keys of items that had been claimed have
no date, and the key of a new item has the last one. -/
theorem Invariant.queues (inv : state.Invariant) {label : Op × Output} {next : RetainedStore}
    (performed : Store.system.Step state.store label next)
    (bounded : ∀ id value, (state.after label.1 next).dates id = some value →
      value ≤ state.attempts) (lane : RetainedLane) :
    ∃ old added, (next.lane lane).queue false = old ++ added ∧
      old.Sublist ((state.store.lane lane).queue false) ∧
      (∀ key ∈ added, ∃ id stored,
        (state.store.contents id = some stored ∨ next.contents id = some stored) ∧
          stored.seq = key.seq) ∧
      added.Pairwise (Precedes next (state.after label.1 next).dates lane) ∧
      ∀ key ∈ old, ∀ last ∈ added,
        Precedes next (state.after label.1 next).dates lane key last := by
  have unchanged (same : (next.lane lane).ready = (state.store.lane lane).ready) :
      (next.lane lane).queue false = (state.store.lane lane).queue false ++ [] :=
    same.trans (append_nil _).symm
  cases inserts : label.1.inserted with
  | none =>
    obtain ⟨old, added, same, sublist, written⟩ :=
      (step_follows inv.store performed inserts).ready lane
    have stored : ∀ key ∈ added, ∃ stored,
        state.store.contents ⟨lane, key.index⟩ = some stored ∧ stored.seq = key.seq := by
      intro key listed
      obtain ⟨slot, _, found, writing, current⟩ := written key listed
      obtain ⟨stored, present, seq_eq⟩ := inv.store.contents_of_slot found (by simp [writing])
      exact ⟨stored, present, seq_eq.trans current⟩
    have undated : ∀ key ∈ added, ∀ value,
        stampOf next (state.after label.1 next).dates lane key ≠ some value := by
      intro key listed value stamped
      obtain ⟨_, present, _⟩ := stored key listed
      obtain ⟨slot, _, found, writing, _⟩ := written key listed
      have before := (dates_of_after ((stampOf_eq_some_iff _ _).mp stamped).2).1 (by simp [present])
      obtain ⟨_, _, at_held, ready⟩ := inv.dated _ _ before
      cases found.symm.trans at_held
      cases writing.symm.trans ready
    refine ⟨old, added, same, sublist, fun key listed => ?_, ?_, ?_⟩
    · obtain ⟨stored, present, current⟩ := stored key listed
      exact ⟨_, stored, .inl present, current⟩
    · refine pairwise_of_forall_mem_list fun key listed _ _ value stamped => ?_
      exact absurd stamped (undated key listed value)
    · intro _ _ last listed _ _ follow followed
      exact absurd followed (undated last listed follow)
  | some item =>
    rcases insertion_cases inv.store inserts performed.2 with
      ⟨_, refused, _⟩ | ⟨id, deadline, seq, vacant, contents_eq, placed, _⟩
    · exact ⟨_, [], unchanged (by rw [refused.lanes]), .refl _, by simp, .nil, by simp⟩
    · by_cases here : lane = id.lane
      · refine ⟨_, [⟨id.index, seq⟩], (placed.ready lane).trans (if_pos here), .refl _, ?_,
          pairwise_singleton _ _, ?_⟩
        · intro key listed
          rw [mem_singleton.mp listed]
          exact ⟨id, _, .inr (by rw [contents_eq, Function.update_self]), rfl⟩
        · intro key _ last listed value stamped follow followed
          rw [mem_singleton.mp listed, here] at followed
          rw [(dates_of_after ((stampOf_eq_some_iff _ _).mp followed).2).2 vacant]
          exact bounded _ value ((stampOf_eq_some_iff _ _).mp stamped).2
      · exact ⟨_, [], unchanged ((placed.ready lane).trans (if_neg here)), .refl _, by simp, .nil,
          by simp⟩

theorem Invariant.step {next : Dated} {label : Op × Output} (inv : state.Invariant)
    (taken : system.Step state label next) : next.Invariant := by
  obtain ⟨performed, advanced⟩ := taken
  have next_inv := (step_invariant inv.store performed).1
  have numbers := step_numbers inv.store performed
  have bounded : ∀ id value, (state.after label.1 next.store).dates id = some value →
      value ≤ state.attempts := by
    intro id value dated
    by_cases vacant : state.store.contents id = none
    · exact ((dates_of_after dated).2 vacant).le
    · exact (inv.dated id value ((dates_of_after dated).1 vacant)).1.le
  rw [advanced]
  refine ⟨next_inv, fun id value dated => ?_,
    inv.order.step numbers (fun id present value dated => (dates_of_after dated).1 present)
      (inv.queues performed bounded)⟩
  have filled := ((dates_after_eq_some_iff _ _ _ _ _).mp dated).1
  refine ⟨?_, filled⟩
  obtain ⟨slot, found, ready⟩ := filled
  obtain ⟨stored, present, _⟩ := next_inv.contents_of_slot found (by simp [ready])
  rcases numbers.contents id stored present with before | ⟨once, _⟩
  · have earlier := (inv.dated id value ((dates_of_after dated).1 (by simp [before]))).1
    exact earlier.trans_le (Nat.le_add_right _ _)
  · change value < state.attempts + _
    rw [once]
    exact Nat.lt_succ_of_le (bounded id value dated)

theorem reachable_invariant (reached : system.Reachable state) : state.Invariant := by
  refine reached.invariant ?_ (fun _ _ _ before taken => before.step taken)
  rintro _ ⟨capacities, now, rfl⟩
  exact ⟨new_invariant capacities now, by simp, .new capacities now _ false⟩

theorem Invariant.oldest (inv : state.Invariant) (few : state.attempts < u64Limit)
    {claim : RetainedClaim} {replay : Bool} {queue : List QueueKey} {key : QueueKey}
    {slot : RetainedSlot} (found : Found state.store claim replay queue key slot) {value : Nat}
    (dated : state.dates claim.slot = some value) {other : SlotId}
    (same_lane : other.lane = claim.slot.lane) {follow : Nat}
    (followed : state.dates other = some follow) : value ≤ follow := by
  -- the claimed slot is ready, so that the ready queue was scanned
  obtain ⟨at_claim, _, claimable⟩ := found.slot_eq
  obtain ⟨_, _, at_held, ready⟩ := inv.dated _ _ dated
  cases at_claim.symm.trans at_held
  have fresh : replay = false := by simpa [ready] using claimable
  subst fresh
  obtain ⟨_, _, at_other, other_ready⟩ := inv.dated _ _ followed
  exact inv.order.oldest inv.store few found dated same_lane at_other (by simp [other_ready])
    followed

/-- The order of dispatch, in every state of every run.  `claim_next` finds nothing exactly when
there is no work; it claims from the first lane that has work; a message that is ready for replay
comes before any that was never written; and, as long as the sequence numbers have not wrapped,
the items of a lane that were never written are claimed in the order of their insertion. -/
theorem claim_order (reached : system.Reachable state) (callisId : CallisId) :
    ((state.store.claimNext callisId).1 = none ↔ state.store.hasDispatchableWork = false) ∧
    ∀ claim, (state.store.claimNext callisId).1 = some claim →
      (∃ before after, [.a1Ack, .a1Error, .a2, .a3] = before ++ claim.slot.lane :: after ∧
        state.store.Dispatchable claim.slot.lane ∧
        ∀ lane ∈ before, ¬ state.store.Dispatchable lane) ∧
      ((∃ index slot lastSent, state.store.slot ⟨claim.slot.lane, index⟩ = some slot ∧
          slot.state = .replayReady lastSent) →
        ∃ slot lastSent, state.store.slot claim.slot = some slot ∧
          slot.state = .replayReady lastSent) ∧
      (state.attempts < u64Limit → ∀ value, state.dates claim.slot = some value →
        ∀ other follow, other.lane = claim.slot.lane → state.dates other = some follow →
          value ≤ follow) := by
  have inv := reachable_invariant reached
  have work : ∀ claim, (state.store.claimNext callisId).1 = some claim →
      ∃ before after, [.a1Ack, .a1Error, .a2, .a3] = before ++ claim.slot.lane :: after ∧
        (∀ lane ∈ before, ¬ state.store.Dispatchable lane) ∧
        ∃ replay queue key slot, Found state.store claim replay queue key slot :=
    fun claim claimed => claimLanes_found (by decide) inv.store claimed
  have dispatchable : ∀ {claim replay queue key slot},
      Found state.store claim replay queue key slot →
      state.store.Dispatchable claim.slot.lane := by
    intro claim replay queue key slot found
    obtain ⟨at_claim, _, claimable⟩ := found.slot_eq
    exact ⟨found.opened, (laneHasDispatchableWork_iff inv.store _).mpr
      ⟨claim.slot.index, slot, replay, at_claim, claimable⟩⟩
  constructor
  · rw [← Bool.not_eq_true, hasDispatchableWork_iff]
    constructor
    · rintro idle ⟨lane, opened, hasWork⟩
      obtain ⟨index, slot, replay, found, claimable⟩ :=
        (laneHasDispatchableWork_iff inv.store lane).mp hasWork
      have claimed := @claimNext_isSome state.store ⟨lane, index⟩ slot replay inv.store found
        claimable opened callisId
      simp [idle] at claimed
    · intro idle
      cases claimed : (state.store.claimNext callisId).1 with
      | none => rfl
      | some claim =>
        obtain ⟨_, _, _, _, replay, queue, key, slot, found⟩ := work claim claimed
        exact absurd ⟨_, dispatchable found⟩ idle
  · intro claim claimed
    obtain ⟨before, after, order, idle, replay, queue, key, slot, found⟩ := work claim claimed
    refine ⟨⟨before, after, order, dispatchable found, idle⟩, ?_, ?_⟩
    · rintro ⟨index, other, lastSent, at_index, replayReady⟩
      obtain ⟨at_claim, _, claimable⟩ := found.slot_eq
      have replays : replay = true := by
        by_contra fresh
        have none_ready := found.first (by simpa using fresh) index other at_index
        simp [replayReady] at none_ready
      subst replays
      cases state_eq : slot.state with
      | replayReady lastSent => exact ⟨slot, lastSent, at_claim, state_eq⟩
      | empty | ready | writing | inflight => simp [state_eq] at claimable
    · intro few value dated other follow same_lane followed
      exact inv.oldest few found dated same_lane followed

theorem reachable_after (reached : system.Reachable state) (op : Op)
    {output : Output} {next : RetainedStore} (ordered : op.Ordered state.store)
    (performed : Store.step state.store op = .ok (output, next)) :
    system.Reachable (state.after op next) :=
  reached.step (⟨⟨ordered, performed⟩, rfl⟩ : system.Step state (op, output) _)

/-- Two messages are stored; the first is claimed before the second. -/
theorem claim_order_two_messages :
    ∃ state claim, system.Reachable state ∧ (state.store.claimNext 1).1 = some claim ∧
      claim.slot = ⟨.a3, 0⟩ ∧ state.dates ⟨.a3, 0⟩ = some 0 ∧ state.dates ⟨.a3, 1⟩ = some 1 ∧
      ∀ other follow, other.lane = .a3 → state.dates other = some follow → 0 ≤ follow := by
  have start : system.Reachable ⟨RetainedStore.new ⟨1, 1, 1, 2⟩ 0, fun _ => none, 0⟩ :=
    .start ⟨_, _, rfl⟩
  have first := reachable_after start
    (.insertTracked ⟨⟨7, 1, 2, a3MessageTypeBase, 0, []⟩, 0⟩ 10 0) trivial rfl
  have second := reachable_after first
    (.insertTracked ⟨⟨8, 1, 2, a3MessageTypeBase, 0, []⟩, 1⟩ 10 0) trivial rfl
  obtain ⟨_, order⟩ := claim_order second 1
  refine ⟨_, _, second, rfl, rfl, by decide, by decide, fun other follow same_lane followed => ?_⟩
  exact (order _ rfl).2.2 (by decide) 0 (by decide) other follow same_lane followed

section Wrap

/-- An ACK for a full lane uses up a sequence number and changes nothing else. -/
theorem step_insertAck_full {store : RetainedStore} (up : store.shutdown = false)
    (full : store.a1Ack.available = false) (unlisted : store.responses.lookup 6 = none) :
    Store.step store (.insertAck 6 10 0) =
      .ok (.response (.full .a1Ack 6),
        { store with nextSeq := LaneState.nextSeq store.nextSeq }) := by
  have refused := LaneState.allocate_of_not_available (.ack 6) 10 store.nextSeq 0 full
  simp [Store.step, insertAck, insertResponse, up, unlisted, RetainedStore.allocate,
    RetainedStore.lane, refused, setLane, Except.map]

theorem reachable_refused (reached : system.Reachable state)
    (up : state.store.shutdown = false) (full : state.store.a1Ack.available = false)
    (unlisted : state.store.responses.lookup 6 = none) {id : SlotId} {value : Nat}
    (dated : state.dates id = some value) (count : Nat) :
    ∃ later, system.Reachable later ∧
      later.store = { state.store with nextSeq := LaneState.nextSeq^[count] state.store.nextSeq } ∧
      later.attempts = state.attempts + count ∧ later.dates id = some value := by
  induction count with
  | zero => exact ⟨state, reached, rfl, rfl, dated⟩
  | succ count ih =>
    obtain ⟨later, later_reached, store_eq, attempts_eq, later_dated⟩ := ih
    have performed : Store.step later.store (.insertAck 6 10 0) = .ok (.response (.full .a1Ack 6),
        { later.store with nextSeq := LaneState.nextSeq later.store.nextSeq }) :=
      step_insertAck_full (by rw [store_eq]; exact up) (by rw [store_eq]; exact full)
        (by rw [store_eq]; exact unlisted)
    refine ⟨_, reachable_after later_reached (.insertAck 6 10 0) trivial performed, ?_, ?_,
      ?_⟩
    · rw [Function.iterate_succ_apply']
      simp [after, store_eq]
    · simp [after, attempts_eq, Op.inserted, Op.response, Nat.add_assoc]
    · have inv := reachable_invariant later_reached
      obtain ⟨_, slot, found, ready⟩ := inv.dated id value later_dated
      obtain ⟨_, present, _⟩ := inv.store.contents_of_slot found (by simp [ready])
      refine (dates_after_eq_some_iff _ _ _ _ _).mpr ⟨⟨slot, ?_, ready⟩, ?_⟩
      · rw [RetainedStore.slot, lane_with_nextSeq]
        exact found
      · rw [present]
        exact later_dated

theorem iterate_nextSeq (seq count : Nat) (below : seq + count < u64Limit) :
    LaneState.nextSeq^[count] seq = seq + count := by
  induction count with
  | zero => rfl
  | succ count ih =>
    rw [Function.iterate_succ_apply', ih (by omega), LaneState.nextSeq,
      Nat.mod_eq_of_lt (by omega)]
    omega

theorem reachable_wrapped (reached : system.Reachable state)
    (up : state.store.shutdown = false) (full : state.store.a1Ack.available = false)
    (unlisted : state.store.responses.lookup 6 = none) {id : SlotId} {value : Nat}
    (dated : state.dates id = some value) (counter : state.store.nextSeq = 4) :
    ∃ later, system.Reachable later ∧ later.store = { state.store with nextSeq := 1 } ∧
      later.attempts = state.attempts + (u64Limit - 4) ∧ later.dates id = some value := by
  obtain ⟨later, later_reached, store_eq, attempts_eq, later_dated⟩ :=
    reachable_refused reached up full unlisted dated (u64Limit - 4)
  refine ⟨later, later_reached, ?_, attempts_eq, later_dated⟩
  rw [store_eq, counter, show u64Limit - 4 = (u64Limit - 5) + 1 by decide,
    Function.iterate_succ_apply', iterate_nextSeq 4 (u64Limit - 5) (by decide)]
  rfl

/-- After as many insertions as there are sequence numbers a stale key of the ready queue names a
slot that was filled again, and its message overtakes one that was inserted before it. -/
theorem wrapped_sequence_overtakes :
    ∃ state claim other value follow, system.Reachable state ∧
      (state.store.claimNext 2).1 = some claim ∧ state.dates claim.slot = some value ∧
      other.lane = claim.slot.lane ∧ state.dates other = some follow ∧ follow < value := by
  have start : system.Reachable ⟨RetainedStore.new ⟨1, 1, 1, 2⟩ 0, fun _ => none, 0⟩ :=
    .start ⟨_, _, rfl⟩
  have first := reachable_after start
    (.insertTracked ⟨⟨7, 1, 2, a3MessageTypeBase, 0, []⟩, 0⟩ 10 0) trivial rfl
  have second := reachable_after first
    (.insertTracked ⟨⟨8, 1, 2, a3MessageTypeBase, 0, []⟩, 1⟩ 10 0) trivial rfl
  have acked := reachable_after second (.ack 7) trivial rfl
  have response := reachable_after acked (.insertAck 5 10 0) trivial rfl
  have writing := reachable_after response (.claimNext 1) trivial rfl
  obtain ⟨later, reached, wrapped, attempts_eq, dated⟩ :=
    @reachable_wrapped _ writing rfl (by decide) (by decide) ⟨.a3, 1⟩ 1 (by decide) (by decide)
  obtain ⟨next, claim, performed, claimed, place, filled, waiting⟩ : ∃ next claim,
      Store.step later.store (.insertTracked ⟨⟨9, 1, 2, a3MessageTypeBase, 0, []⟩, 2⟩ 10 0) =
        .ok (.tracked (.ok ()), next) ∧ (next.claimNext 2).1 = some claim ∧
      claim.slot = ⟨.a3, 0⟩ ∧ (∃ slot, next.slot ⟨.a3, 0⟩ = some slot ∧ slot.state = .ready) ∧
      ∃ slot, next.slot ⟨.a3, 1⟩ = some slot ∧ slot.state = .ready := by
    rw [wrapped]
    exact ⟨_, _, rfl, rfl, rfl, ⟨_, rfl, rfl⟩, _, rfl, rfl⟩
  refine ⟨_, claim, ⟨.a3, 1⟩, later.attempts, 1, reachable_after reached
    (.insertTracked ⟨⟨9, 1, 2, a3MessageTypeBase, 0, []⟩, 2⟩ 10 0) trivial performed, claimed,
    ?_, by rw [place], ?_, ?_⟩
  · refine (dates_after_eq_some_iff _ _ _ _ _).mpr ⟨place ▸ filled, ?_⟩
    rw [place, wrapped]
    rfl
  · refine (dates_after_eq_some_iff _ _ _ _ _).mpr ⟨waiting, ?_⟩
    rw [wrapped]
    exact dated
  · rw [attempts_eq]
    decide

end Wrap

end Dated

end AureliaPeering.Store
