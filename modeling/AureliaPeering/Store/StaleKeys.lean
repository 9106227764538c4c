import AureliaPeering.Store.ReplayOrder

/-!
The lengths of the queues and of the deadline heap.

A key leaves its queue only when a claim scans over it, and the heap only from its top.  As long as
no slot is queued or dated again while an older key of it is left, the slots bound the keys: a slot
has a key in a queue only where it waits for a claim from this queue, or is empty.
-/

namespace AureliaPeering.Store

open Collections RetainedStore List Option

/-- The states in which a slot may have a key in a queue. -/
def SlotState.Waits (state : SlotState) (replay : Bool) : Prop :=
  state.claimable replay = true ∨ state = .empty

theorem SlotState.Waits.lastSent {state : SlotState} {replay : Bool} {callisId : CallisId}
    (waits : state.Waits replay) (sent : state.lastSent = some callisId) :
    state.claimable true = true := by
  cases state with
  | replayReady => rfl
  | empty | ready => cases sent
  | writing | inflight => rcases waits with claimable | empty <;> contradiction

theorem SlotState.not_waits_writing {callisId : CallisId} (replay : Bool) :
    ¬ (SlotState.writing callisId).Waits replay := by
  simp [Waits]

theorem SlotState.claimable_iff {state : SlotState} {replay : Bool}
    (claimable : state.claimable replay = true) (other : Bool) :
    state.claimable other = true ↔ other = replay := by
  cases state <;> cases replay <;> cases other <;> simp_all

namespace LaneState

variable {state next : LaneState} {index : Nat} {slot : RetainedSlot} {replay : Bool}

def Unlisted (state : LaneState) (index : Nat) : Prop :=
  ∀ replay, ∀ key ∈ state.queue replay, key.index ≠ index

/-- No queue lists a slot twice, and what it lists waits there. -/
structure Single (state : LaneState) : Prop where
  distinct : ∀ replay, ((state.queue replay).map QueueKey.index).Nodup
  waits : ∀ replay, ∀ key ∈ state.queue replay, ∃ slot,
    state.slots[key.index]? = some slot ∧ slot.state.Waits replay

theorem Single.unlisted (single : state.Single) (found : state.slots[index]? = some slot)
    (busy : ∀ replay, ¬ slot.state.Waits replay) : state.Unlisted index := by
  rintro replay key listed rfl
  obtain ⟨_, at_key, waits⟩ := single.waits replay key listed
  cases found.symm.trans at_key
  exact busy replay waits

/-- Slots are emptied and keys dropped. -/
theorem Single.of_vacated (single : state.Single) (alters : state.Alters RetainedSlot.Vacant next)
    (queues : ∀ replay, (next.queue replay).Sublist (state.queue replay)) : next.Single where
  distinct replay := (single.distinct replay).sublist ((queues replay).map _)
  waits replay key listed := by
    obtain ⟨slot, found, waits⟩ := single.waits replay key ((queues replay).subset listed)
    rcases alters key.index with same | ⟨emptied, at_key, vacant⟩
    · exact ⟨slot, same.trans found, waits⟩
    · exact ⟨emptied, at_key, .inr vacant.2⟩

/-- A slot without keys is filled, and queued where its new state says. -/
theorem Single.of_filled (single : state.Single) (unlisted : state.Unlisted index)
    (slots : ∀ other, next.slots[other]? = if other = index then some slot else state.slots[other]?)
    (queues : ∀ replay, next.queue replay = state.queue replay ++
      if slot.state.claimable replay = true then [⟨index, slot.seq⟩] else []) : next.Single where
  distinct replay := by
    rw [queues, map_append, nodup_append']
    refine ⟨single.distinct replay, by split <;> simp, fun other listed new => ?_⟩
    obtain ⟨key, queued, rfl⟩ := mem_map.mp listed
    split at new
    · exact unlisted replay key queued (by simpa using new)
    · cases new
  waits replay key listed := by
    rw [queues, mem_append] at listed
    rw [slots]
    rcases listed with kept | new
    · rw [if_neg (unlisted replay key kept)]
      exact single.waits replay key kept
    · split at new
      · rename_i claimable
        rw [mem_singleton.mp new, if_pos rfl]
        exact ⟨slot, rfl, .inl claimable⟩
      · cases new

theorem queue_setTargetCapacity (state : LaneState) (capacity : Nat) (now : Instant) :
    ∀ replay, (state.setTargetCapacity capacity now).queue replay = state.queue replay
  | false => setTargetCapacity_ready state capacity now
  | true => setTargetCapacity_replay state capacity now

theorem Single.popped {queue : List QueueKey} {result : Option (QueueKey × RetainedSlot)}
    (single : state.Single) (scan : scanQueue state.slots replay (state.queue replay) =
      (queue, result)) : (state.setQueue replay queue).Single := by
  refine single.of_vacated (.of_slots (slots_setQueue ..)) fun other => ?_
  rw [queue_setQueue]
  split
  · rename_i same
    exact same ▸ scanQueue_sublist scan
  · exact .refl _

/-- The claimed slot has lost its only key. -/
theorem Single.claimed {queue : List QueueKey} {key : QueueKey} (single : state.Single)
    (scan : scanQueue state.slots replay (state.queue replay) = (queue, some (key, slot)))
    (callisId : CallisId) : ((state.setQueue replay queue).setSlot key.index
      { slot with state := .writing callisId }).Single := by
  obtain ⟨found, _, claimable⟩ := scanQueue_found scan
  obtain ⟨dropped, split_eq⟩ := scanQueue_split scan
  have slots (other : Nat) : ((state.setQueue replay queue).setSlot key.index
      { slot with state := .writing callisId }).slots[other]? = if other = key.index
        then some { slot with state := .writing callisId }
        else (state.setQueue replay queue).slots[other]? := by
    rw [setSlot, slots_setQueue]
    exact getElem?_set_of_found found _ other
  refine (single.popped scan).of_filled ?_ slots fun _ => (append_nil _).symm
  rintro other listed queued same
  rw [queue_setQueue] at queued
  split at queued
  · have distinct := single.distinct replay
    rw [split_eq, map_append, map_cons] at distinct
    have once := (nodup_cons.mp (nodup_append'.mp distinct).2.1).1
    exact once (same ▸ mem_map_of_mem queued)
  · rename_i apart
    obtain ⟨_, at_key, waits⟩ := single.waits other listed queued
    rw [same] at at_key
    cases found.symm.trans at_key
    rcases waits with waits | empty
    · exact apart ((SlotState.claimable_iff claimable other).mp waits)
    · simp [empty] at claimable

theorem sweptKeys_nodup (callisId : CallisId) (test : SlotState → Bool)
    (slots : List RetainedSlot) : ((sweptKeys callisId test slots).map QueueKey.index).Nodup := by
  have indices : (slots.zipIdx.map Prod.snd).Nodup := by
    rw [zipIdx_map_snd]
    exact nodup_range'
  rw [sweptKeys, map_filterMap]
  refine pairwise_filterMap.mpr ((pairwise_map.mp indices).imp fun apart first isFirst second => ?_)
  -- both keys carry the index of the slot they come from
  grind

theorem sweptState_of_waits (waits : slot.state.Waits replay) (callisId : CallisId) :
    sweptState callisId slot = none := by
  unfold sweptState
  split
  all_goals first
    | rfl
    | (rename_i state_eq _; simp [SlotState.Waits, state_eq] at waits)

theorem Single.sweep (single : state.Single) (callisId : CallisId) :
    (state.sweep callisId).Single where
  distinct replay := by
    rw [queue_sweep, map_append, nodup_append']
    refine ⟨single.distinct replay, sweptKeys_nodup .., fun index listed swept => ?_⟩
    obtain ⟨key, queued, rfl⟩ := mem_map.mp listed
    obtain ⟨other, isSwept, same⟩ := mem_map.mp swept
    obtain ⟨slot, _, found, moved, _⟩ := (mem_sweptKeys_iff _ _ _ _).mp isSwept
    obtain ⟨_, at_key, waits⟩ := single.waits replay key queued
    rw [same] at found
    cases found.symm.trans at_key
    cases moved.symm.trans (sweptState_of_waits waits callisId)
  waits replay key listed := by
    change ∃ slot, (state.slots.map (sweepSlot callisId))[key.index]? = some slot ∧ _
    rw [getElem?_map]
    rw [queue_sweep, mem_append] at listed
    rcases listed with kept | swept
    · obtain ⟨slot, found, waits⟩ := single.waits replay key kept
      refine ⟨slot, ?_, waits⟩
      simp only [found, Option.map_some, sweepSlot, sweptState_of_waits waits]
    · obtain ⟨slot, target, found, moved, claimable, _⟩ := (mem_sweptKeys_iff _ _ _ _).mp swept
      refine ⟨_, congrArg (Option.map _) found, .inl ?_⟩
      simpa only [sweepSlot, moved] using claimable

end LaneState

namespace RetainedStore

variable {store next : RetainedStore} {id : SlotId} {slot : RetainedSlot} {replay : Bool}

def Single (store : RetainedStore) : Prop := ∀ lane, (store.lane lane).Single

variable (single : store.Single)

include single

theorem Single.setLane {lane : RetainedLane} {state : LaneState} (alone : state.Single) :
    (store.setLane lane state).Single := by
  intro other
  rw [lane_setLane]
  split
  · exact alone
  · exact single other

theorem Single.of_lanes (same : ∀ lane, next.lane lane = store.lane lane) : next.Single :=
  fun lane => same lane ▸ single lane

theorem Single.of_vacates (moves : Relation.ReflTransGen Vacates store next) : next.Single :=
  fun lane => (single lane).of_vacated (alters_of_vacates moves lane) fun replay =>
    (shrinks_of_vacates moves replay).queue lane

/-- A slot without keys gets another state, and is queued if that state is claimable. -/
theorem Single.setState (found : store.slot id = some slot)
    (busy : ∀ replay, ¬ slot.state.Waits replay) {state : LaneState} {target : SlotState}
    (slots : state.slots =
      ((store.lane id.lane).setSlot id.index { slot with state := target }).slots)
    (queues : ∀ replay, state.queue replay = (store.lane id.lane).queue replay ++
      if target.claimable replay = true then [⟨id.index, slot.seq⟩] else []) :
    (store.setLane id.lane state).Single := by
  have filled (other : Nat) : state.slots[other]? = if other = id.index
      then some { slot with state := target } else (store.lane id.lane).slots[other]? := by
    rw [slots]
    exact LaneState.getElem?_set_of_found found _ other
  apply single.setLane
  exact (single id.lane).of_filled ((single id.lane).unlisted found busy) filled queues

theorem Single.requeue (found : store.slot id = some slot)
    (busy : ∀ replay, ¬ slot.state.Waits replay) {target : SlotState}
    (claimable : target.claimable replay = true) :
    (store.requeue id slot replay target).Single := by
  refine single.setState found busy (LaneState.slots_setQueue ..) fun other => ?_
  rw [LaneState.queue_setQueue]
  simp only [SlotState.claimable_iff claimable]
  split
  · rename_i same
    rw [same]
    rfl
  · exact (append_nil _).symm

theorem Single.completeWrite (claim : RetainedClaim) (result : Except AureliaError Unit) :
    (store.completeWrite claim result).2.Single := by
  unfold RetainedStore.completeWrite
  split
  · exact single
  rename_i slot found
  split
  · exact single
  rename_i fresh
  have busy : ∀ replay, ¬ slot.state.Waits replay := by
    rw [not_or, not_ne_iff, not_ne_iff] at fresh
    rw [fresh.1]
    exact SlotState.not_waits_writing
  split
  · exact single
  · exact single.requeue found busy rfl
  · exact single.requeue found busy rfl
  · exact single.setState found busy rfl fun _ => (append_nil _).symm
  · split
    · exact single
    · rename_i removed
      exact single.of_vacates (.single ⟨_, _, removed⟩)

theorem Single.claimFromQueue (inv : store.Invariant) (lane : RetainedLane) (replay : Bool)
    (callisId : CallisId) : (store.claimFromQueue lane replay callisId).2.Single := by
  rcases claimFromQueue_cases inv lane replay callisId with
    ⟨_, scan, result⟩ | ⟨_, _, _, _, scan, _, result⟩
  · rw [result]
    exact single.setLane ((single lane).popped scan)
  · rw [result]
    exact single.setLane ((single lane).claimed scan callisId)

theorem Single.of_tries {callisId : CallisId} (inv : store.Invariant)
    (tries : Relation.ReflTransGen (Tries callisId) store next) : next.Single := by
  induction tries with
  | refl => exact single
  | tail before tried ih =>
    obtain ⟨lane, replay, rfl⟩ := tried
    exact ih.claimFromQueue (spec_of_tries inv before).1 lane replay callisId

/-- A walk that marks no slot twice, and none that waits for its replay already. -/
theorem Single.markSlotsReplayReady {ids : List SlotId} (distinct : ids.Nodup)
    (unmarked : ∀ id ∈ ids, ∀ slot, store.slot id = some slot →
      slot.state.claimable true = false) : (store.markSlotsReplayReady ids).Single := by
  induction ids generalizing store with
  | nil => exact single
  | cons id rest ih =>
    obtain ⟨once, distinct⟩ := nodup_cons.mp distinct
    rw [RetainedStore.markSlotsReplayReady, foldl_cons]
    cases marked : store.markedKey id with
    | none =>
      rw [markSlotReplayReady_of_none marked]
      exact ih single distinct fun other listed => unmarked other (mem_cons_of_mem _ listed)
    | some key =>
      obtain ⟨slot, lastSent, found, _, sent, result⟩ := markSlotReplayReady_of_some marked
      rw [result]
      refine ih (single.requeue found (fun replay waits => ?_) rfl) distinct ?_
      · cases (waits.lastSent sent).symm.trans (unmarked id mem_cons_self slot found)
      · intro other listed held
        rw [slot_requeue found, if_neg (ne_of_mem_of_not_mem listed once)]
        exact unmarked other (mem_cons_of_mem _ listed) held

omit single

/-- No queue and not the heap has two keys of one slot. -/
structure Sparse (store : RetainedStore) : Prop where
  inv : store.Invariant
  single : store.Single
  dated : (store.deadlines.elements.map DeadlineKey.slot).Nodup
  exist : ∀ key ∈ store.deadlines.elements, (store.slot key.slot).isSome

theorem Alters.isSome {described : RetainedSlot → Prop} (alters : store.Alters described next)
    (exists_slot : (store.slot id).isSome) : (next.slot id).isSome := by
  rcases alters.slot id with same | ⟨_, found, _⟩
  · exact same ▸ exists_slot
  · exact isSome_of_eq_some found

theorem Sparse.of_sublist (sparse : store.Sparse) (inv : next.Invariant) (single : next.Single)
    (deadlines : next.deadlines.elements.Sublist store.deadlines.elements)
    (exist : ∀ id, (store.slot id).isSome → (next.slot id).isSome) : next.Sparse where
  inv := inv
  single := single
  dated := sparse.dated.sublist (deadlines.map _)
  exist key listed := exist key.slot (sparse.exist key (deadlines.subset listed))

theorem Sparse.placed (sparse : store.Sparse) (inv : next.Invariant)
    (placed : Placed store next id slot)
    (unlisted : (store.lane id.lane).Unlisted id.index)
    (undated : ∀ key ∈ store.deadlines.elements, key.slot ≠ id) : next.Sparse where
  inv := inv
  single lane := by
    by_cases here : lane = id.lane
    · subst here
      have filled (index : Nat) : (next.lane id.lane).slots[index]? = if index = id.index
          then some slot else (store.lane id.lane).slots[index]? := by
        refine (placed.slots ⟨id.lane, index⟩).trans ?_
        simp only [show (⟨id.lane, index⟩ : SlotId) = id ↔ index = id.index from
          ⟨congrArg SlotId.index, by rintro rfl; rfl⟩]
        rfl
      refine (sparse.single id.lane).of_filled unlisted filled fun replay => ?_
      rw [placed.state]
      cases replay with
      | false => simpa [LaneState.queue] using placed.ready id.lane
      | true => simpa [LaneState.queue] using placed.replay id.lane
    · refine (sparse.single lane).of_vacated (fun index => .inl ?_) fun replay => ?_
      · exact (placed.slots ⟨lane, index⟩).trans
          (if_neg fun same => here (congrArg SlotId.lane same))
      · have same : (next.lane lane).queue replay = (store.lane lane).queue replay := by
          cases replay with
          | false => exact (placed.ready lane).trans (if_neg here)
          | true => exact placed.replay lane
        rw [same]
  dated := by
    rw [placed.deadlines]
    refine ((perm_orderedInsert _ _ _).map _).nodup_iff.mpr (nodup_cons.mpr ⟨?_, sparse.dated⟩)
    intro listed
    obtain ⟨key, isKey, same⟩ := mem_map.mp listed
    exact undated key isKey same
  exist key listed := by
    rw [placed.deadlines] at listed
    rw [placed.slots]
    split
    · rfl
    · rename_i apart
      rcases (mem_orderedInsert _).mp listed with rfl | old
      · exact absurd rfl apart
      · exact sparse.exist key old

end RetainedStore

/-- The slots that a reconnect marks for replay. -/
def Op.marked (store : RetainedStore) : Op → List SlotId
  | .markAllTrackedReplayReady order => order
  | .markTrackedReplayReady peerMsgIds =>
    peerMsgIds.filterMap fun peerMsgId => store.tracked.lookup peerMsgId
  | _ => []

/-- An insertion takes a slot with no key left, and a reconnect marks no message twice and none
that waits for its replay already. -/
structure Op.Sparing (store : RetainedStore) (op : Op) : Prop where
  reused : ∀ lane index, op.lane = some lane → (store.lane lane).free.head? = some index →
    (store.lane lane).Unlisted index ∧ ∀ key ∈ store.deadlines.elements, key.slot ≠ ⟨lane, index⟩
  once : (op.marked store).Nodup
  unmarked : ∀ id ∈ op.marked store, ∀ slot, store.slot id = some slot →
    slot.state.claimable true = false

variable {store next : RetainedStore} {label : Op × Output}

theorem step_single (inv : store.Invariant) (single : store.Single)
    (taken : system.Step store label next) (inserts : label.1.inserted = none)
    (sparing : label.1.Sparing store) : next.Single := by
  obtain ⟨op, _⟩ := label
  obtain rfl : ((Except.toOption (step store op)).map Prod.snd).getD store = next := by
    rw [show step store op = _ from taken.2]
    rfl
  cases op with
  | insertAck | insertError | insertTracked => cases inserts
  | setCapacities capacities now =>
    have same (lane : RetainedLane) (replay : Bool) :
        ((store.setCapacities capacities now).lane lane).queue replay =
          (store.lane lane).queue replay := by
      cases lane <;> exact LaneState.queue_setTargetCapacity _ _ now replay
    refine fun lane => (single lane).of_vacated (alters_setCapacities store _ now lane) ?_
    exact fun replay => (congrArg (· <+ _) (same lane replay)).mpr (.refl _)
  | setShutdown => exact single.of_lanes fun lane => lane_with_shutdown store lane true
  | claimNext callisId =>
    exact single.of_tries inv (claimLanes_tries callisId [.a1Ack, .a1Error, .a2, .a3] store)
  | completeWrite claim result => exact single.completeWrite claim result
  | ack peerMsgId | failOne peerMsgId error =>
    exact single.of_vacates (completeOne_vacates store peerMsgId _)
  | failAll error order | failNonA1 error order | dropResponses order =>
    exact single.of_vacates (removeSlots_vacates _ store)
  | markCallisReplayReady callisId =>
    intro lane
    cases lane with
    | a1Ack => exact single .a1Ack
    | a1Error => exact (single .a1Error).sweep callisId
    | a2 => exact (single .a2).sweep callisId
    | a3 => exact (single .a3).sweep callisId
  | markAllTrackedReplayReady order | markTrackedReplayReady peerMsgIds =>
    exact single.markSlotsReplayReady sparing.once sparing.unmarked
  | expireDue now =>
    exact (single.of_vacates (removeLiveKeys_vacates _ store)).of_lanes fun lane =>
      lane_with_deadlines _ lane _
  | nextDeadline => exact single.of_lanes fun lane => lane_with_deadlines store lane _
  | beginShutdown error order =>
    have down : store.setShutdown.Single :=
      single.of_lanes fun lane => lane_with_shutdown store lane true
    exact down.of_vacates (removeSlots_vacates _ store.setShutdown)

theorem step_exists (inv : store.Invariant) (taken : system.Step store label next) (id : SlotId)
    (present : (store.slot id).isSome) : (next.slot id).isSome := by
  obtain ⟨op, _⟩ := label
  obtain ⟨_, performed⟩ := taken
  by_cases claims : ∃ callisId, op = .claimNext callisId
  · obtain ⟨callisId, rfl⟩ := claims
    cases performed
    exact (alters_of_tries (claimLanes_tries callisId [.a1Ack, .a1Error, .a2, .a3] store)).isSome
      present
  by_cases completes : ∃ claim result, op = .completeWrite claim result
  · obtain ⟨claim, result, rfl⟩ := completes
    obtain rfl : (store.completeWrite claim result).2 = next :=
      congrArg Prod.snd (Except.ok.inj performed)
    rcases completeWrite_slots store claim result with same | ⟨_, _, _, alters | slots⟩
    · rw [same]
      exact present
    · exact alters.isSome present
    · rw [slots]
      split
      · rfl
      · exact present
  · exact (step_alters inv performed (fun _ same => claims ⟨_, same⟩)
      fun _ _ same => completes ⟨_, _, same⟩).isSome present

theorem step_sparse (sparse : store.Sparse) (taken : system.Step store label next)
    (sparing : label.1.Sparing store) : next.Sparse := by
  have inv := sparse.inv
  have next_inv := (step_invariant inv taken).1
  have exist := step_exists inv taken
  cases inserts : label.1.inserted with
  | none =>
    exact sparse.of_sublist next_inv (step_single inv sparse.single taken inserts sparing)
      (step_follows inv taken inserts).deadlines exist
  | some item =>
    rcases insertion_cases inv inserts taken.2 with
      ⟨_, refused, _⟩ | ⟨id, _, _, _, _, placed, _, isLane⟩
    · exact sparse.of_sublist next_inv (sparse.single.of_lanes refused.lanes)
        (refused.deadlines ▸ .refl _) exist
    · obtain ⟨unlisted, undated⟩ := sparing.reused id.lane id.index isLane placed.free
      exact sparse.placed next_inv placed unlisted undated

theorem LaneState.Single.length_le {state : LaneState} (single : state.Single) (replay : Bool) :
    (state.queue replay).length ≤ state.slots.length := by
  have inside : (state.queue replay).map QueueKey.index ⊆ range state.slots.length := by
    intro index listed
    obtain ⟨key, queued, rfl⟩ := mem_map.mp listed
    obtain ⟨_, found, _⟩ := single.waits replay key queued
    exact mem_range.mpr (List.getElem?_eq_some_iff.mp found).1
  simpa using (subperm_of_subset (single.distinct replay) inside).length_le

def RetainedStore.slotIds (store : RetainedStore) : List SlotId :=
  [.a1Ack, .a1Error, .a2, .a3].flatMap fun lane =>
    (range (store.lane lane).slots.length).map (SlotId.mk lane)

theorem RetainedStore.Sparse.length_le (sparse : store.Sparse) :
    store.deadlines.elements.length ≤ store.slotIds.length := by
  have inside : store.deadlines.elements.map DeadlineKey.slot ⊆ store.slotIds := by
    intro id listed
    obtain ⟨key, isKey, rfl⟩ := mem_map.mp listed
    obtain ⟨_, found⟩ := isSome_iff_exists.mp (sparse.exist key isKey)
    refine mem_flatMap.mpr ⟨key.slot.lane, by cases key.slot.lane <;> decide, ?_⟩
    exact mem_map_of_mem (mem_range.mpr (List.getElem?_eq_some_iff.mp found).1)
  simpa only [length_map] using (subperm_of_subset sparse.dated inside).length_le

theorem new_sparse (capacities : RetainedCapacities) (now : Instant) :
    (RetainedStore.new capacities now).Sparse := by
  refine ⟨new_invariant capacities now, fun lane => ⟨fun replay => ?_, fun replay key listed => ?_⟩,
    .nil, nofun⟩
  · cases lane <;> cases replay <;> exact .nil
  · cases lane <;> cases replay <;> cases listed

/-- Along every run whose insertions and reconnects are sparing, a queue has at most one key for
each slot of its lane, and the heap at most one for each slot of the store. -/
theorem sparing_indexes_bounded
    (reached : (system.restrict fun store label => label.1.Sparing store).Reachable store) :
    (∀ lane, (store.lane lane).ready.length ≤ (store.lane lane).slots.length ∧
      (store.lane lane).replay.length ≤ (store.lane lane).slots.length) ∧
    store.deadlines.elements.length ≤ store.a1Ack.slots.length + store.a1Error.slots.length +
      store.a2.slots.length + store.a3.slots.length := by
  have sparse : store.Sparse := by
    refine reached.invariant ?_ ?_
    · rintro _ ⟨capacities, now, rfl⟩
      exact new_sparse capacities now
    · rintro _ _ _ sparse ⟨taken, sparing⟩
      exact step_sparse sparse taken sparing
  refine ⟨fun lane => ?_, ?_⟩
  · exact ⟨(sparse.single lane).length_le false, (sparse.single lane).length_le true⟩
  · have bound := sparse.length_le
    simpa [slotIds, lane, Nat.add_assoc] using bound

theorem Op.sparing_of_none {op : Op} (inserts : op.lane = none) (marks : op.marked store = []) :
    op.Sparing store := by
  refine ⟨fun lane index isLane => ?_, marks ▸ .nil, fun id listed => ?_⟩
  · cases inserts.symm.trans isLane
  · cases marks ▸ listed

/-- The only slot of its lane is taken by a second message, after the first one was sent, replayed
and acknowledged and its date has left the heap. -/
theorem sparing_indexes_bounded_reused : ∃ store,
    (system.restrict fun store label => label.1.Sparing store).Reachable store ∧
      store.a3.slots.length = 1 ∧ store.a3.ready = [⟨0, 2⟩] ∧ store.a3.replay.length ≤ 1 ∧
      store.deadlines.elements.length ≤ 4 := by
  have start : (system.restrict fun store label => label.1.Sparing store).Reachable
      (RetainedStore.new ⟨1, 1, 1, 1⟩ 0) := .start ⟨_, _, rfl⟩
  have inserted := start.take (.insertTracked ⟨⟨7, 1, 2, a3MessageTypeBase, 0, []⟩, 0⟩ 10 0, _)
    ⟨⟨trivial, rfl⟩, by
      rintro _ _ ⟨⟩ ⟨⟩
      exact ⟨by rintro (_ | _) _ ⟨⟩, nofun⟩, .nil, nofun⟩
  have claimed := inserted.take (.claimNext 5, _) ⟨⟨trivial, rfl⟩, Op.sparing_of_none rfl rfl⟩
  have lost := claimed.take (.markCallisReplayReady 5, _)
    ⟨⟨trivial, rfl⟩, Op.sparing_of_none rfl rfl⟩
  have again := lost.take (.claimNext 6, _) ⟨⟨trivial, rfl⟩, Op.sparing_of_none rfl rfl⟩
  have acked := again.take (.ack 7, _) ⟨⟨trivial, rfl⟩, Op.sparing_of_none rfl rfl⟩
  have dated := acked.take (.nextDeadline, _) ⟨⟨trivial, rfl⟩, Op.sparing_of_none rfl rfl⟩
  have reused := dated.take (.insertTracked ⟨⟨8, 1, 2, a3MessageTypeBase, 0, []⟩, 1⟩ 20 0, _)
    ⟨⟨trivial, rfl⟩, by
      rintro _ _ ⟨⟩ ⟨⟩
      exact ⟨by rintro (_ | _) _ ⟨⟩, nofun⟩, .nil, nofun⟩
  obtain ⟨lanes, heap⟩ := sparing_indexes_bounded reused
  exact ⟨_, reused, rfl, rfl, (lanes .a3).2, heap⟩

/-- A store with one slot in each lane, after its only message was claimed and then marked for
replay as often as there are keys. -/
def replayed (keys : List QueueKey) : RetainedStore :=
  let item := RetainedItem.tracked ⟨⟨7, 1, 2, a3MessageTypeBase, 0, []⟩, 0⟩
  { RetainedStore.new ⟨1, 1, 1, 1⟩ 0 with
    a3 := ⟨.a3, [⟨some item, 10, 1, .replayReady 5⟩], [], [], keys, 1, 1⟩
    tracked := (∅ : Collections.HashMap PeerMessageId SlotId).insert 7 ⟨.a3, 0⟩
    deadlines := Collections.MinHeap.empty.push ⟨10, ⟨.a3, 0⟩, 1⟩
    nextSeq := 2 }

theorem reachable_replayed (marks : Nat) :
    system.Reachable (replayed (List.replicate (marks + 1) ⟨0, 1⟩)) := by
  induction marks with
  | zero =>
    have start : system.Reachable (RetainedStore.new ⟨1, 1, 1, 1⟩ 0) := .start ⟨_, _, rfl⟩
    have inserted := start.take (.insertTracked ⟨⟨7, 1, 2, a3MessageTypeBase, 0, []⟩, 0⟩ 10 0, _)
      ⟨trivial, rfl⟩
    have claimed := inserted.take (.claimNext 5, _) ⟨trivial, rfl⟩
    exact claimed.take (.markTrackedReplayReady [7], _) ⟨trivial, rfl⟩
  | succ marks ih =>
    rw [List.replicate_succ']
    exact ih.take (.markTrackedReplayReady [7], _) ⟨trivial, rfl⟩

/-- Repeated replay marking lengthens a queue without bound, with four slots in all. -/
theorem replay_queue_unbounded : ¬∃ bound : Nat → Nat, ∀ store, system.Reachable store →
    ∀ lane, (store.lane lane).replay.length ≤ bound (store.a1Ack.slots.length +
      store.a1Error.slots.length + store.a2.slots.length + store.a3.slots.length) := by
  rintro ⟨bound, bounded⟩
  have short : bound 4 + 1 ≤ bound 4 := by
    simpa [replayed, lane, RetainedStore.new, LaneState.new] using
      bounded _ (reachable_replayed (bound 4)) .a3
  exact Nat.not_succ_le_self _ short

end AureliaPeering.Store
