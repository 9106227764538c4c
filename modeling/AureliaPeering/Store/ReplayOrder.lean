import AureliaPeering.Store.Carriers
import AureliaPeering.Store.DispatchOrder

/-!
The order in which the store replays.

A sweep queues its slots by index, a reconnect in the order of a hash map, a failed write at the
end.  None of these is the order of insertion, which is kept here beside the store.  A key that was
left behind in a replay queue becomes live again with its slot, so it counts as long as its item is
stored.
-/

namespace AureliaPeering.Store

open Collections RetainedStore LaneState List Option

namespace RetainedStore

/-- The key under which a slot is queued when it is marked for replay. -/
def markedKey (store : RetainedStore) (id : SlotId) : Option QueueKey :=
  (store.slot id).bind fun slot =>
    if slot.item.any (·.isTracked) && slot.state.lastSent.isSome then some ⟨id.index, slot.seq⟩
    else none

theorem markedKey_eq_some_iff (store : RetainedStore) (id : SlotId) (key : QueueKey) :
    store.markedKey id = some key ↔ ∃ slot outbound lastSent, store.slot id = some slot ∧
      slot.item = some (.tracked outbound) ∧ slot.state.lastSent = some lastSent ∧
      ⟨id.index, slot.seq⟩ = key := by
  unfold markedKey
  constructor
  · intro marked
    obtain ⟨slot, found, chosen⟩ := bind_eq_some_iff.mp marked
    obtain ⟨condition, same⟩ := ite_none_right_eq_some.mp chosen
    obtain ⟨isMessage, isSent⟩ := Bool.and_eq_true_iff.mp condition
    obtain ⟨item, item_eq, tracked⟩ := (any_eq_true _ _).mp isMessage
    obtain ⟨lastSent, sent⟩ := isSome_iff_exists.mp isSent
    cases item with
    | ack peerMsgId | error peerMsgId frame => cases tracked
    | tracked outbound => exact ⟨slot, outbound, lastSent, found, item_eq, sent, some.inj same⟩
  · rintro ⟨slot, outbound, lastSent, found, item_eq, sent, same⟩
    simp [found, item_eq, sent, same]

theorem markSlotReplayReady_of_none {store : RetainedStore} {id : SlotId}
    (unmarked : store.markedKey id = none) : store.markSlotReplayReady id = store := by
  unfold markSlotReplayReady
  split
  · rfl
  · rename_i slot found
    split
    · rename_i outbound lastSent item_eq sent
      have marked := (store.markedKey_eq_some_iff id _).mpr
        ⟨slot, outbound, lastSent, found, item_eq, sent, rfl⟩
      cases unmarked.symm.trans marked
    · rfl

theorem markSlotReplayReady_of_some {store : RetainedStore} {id : SlotId} {key : QueueKey}
    (marked : store.markedKey id = some key) : ∃ slot lastSent, store.slot id = some slot ∧
      key = ⟨id.index, slot.seq⟩ ∧ slot.state.lastSent = some lastSent ∧
      store.markSlotReplayReady id = store.requeue id slot true (.replayReady lastSent) := by
  obtain ⟨slot, _, lastSent, found, item_eq, sent, rfl⟩ :=
    (store.markedKey_eq_some_iff id key).mp marked
  refine ⟨slot, lastSent, found, rfl, sent, ?_⟩
  simp only [markSlotReplayReady, found, item_eq, sent]

theorem slot_requeue {store : RetainedStore} {id : SlotId} {slot : RetainedSlot}
    (found : store.slot id = some slot) (replay : Bool) (target : SlotState) (other : SlotId) :
    (store.requeue id slot replay target).slot other =
      if other = id then some { slot with state := target } else store.slot other := by
  by_cases here : other = id
  · rw [if_pos here, here]
    exact requeue_slot found replay target
  · rw [if_neg here, requeue, slot_setLane]
    split
    · rename_i same
      have position : id.index ≠ other.index := by
        intro equal
        apply here
        cases other
        cases id
        simp_all
      simp [setSlot, RetainedStore.slot, same, getElem?_set_ne position]
    · rfl

theorem markedKey_markSlotReplayReady (store : RetainedStore) (id other : SlotId) :
    (store.markSlotReplayReady id).markedKey other = store.markedKey other := by
  cases marked : store.markedKey id with
  | none => rw [markSlotReplayReady_of_none marked]
  | some key =>
    obtain ⟨_, lastSent, found, _, sent, result⟩ := markSlotReplayReady_of_some marked
    rw [result, markedKey, slot_requeue found, markedKey]
    split
    · rename_i here
      have replays : (SlotState.replayReady lastSent).lastSent = some lastSent := rfl
      simp [here, found, sent, replays]
    · rfl

/-- The keys that a walk over the slots appends to the replay queue of a lane. -/
def markedKeys (store : RetainedStore) (slots : List SlotId) (lane : RetainedLane) :
    List QueueKey :=
  (slots.filter fun id => decide (id.lane = lane)).filterMap store.markedKey

theorem markSlotsReplayReady_replay (slots : List SlotId) (store : RetainedStore)
    (lane : RetainedLane) :
    ((store.markSlotsReplayReady slots).lane lane).replay =
      (store.lane lane).replay ++ store.markedKeys slots lane := by
  induction slots generalizing store with
  | nil => exact (append_nil _).symm
  | cons id rest ih =>
    have later : (store.markSlotReplayReady id).markedKeys rest lane =
        store.markedKeys rest lane := by
      unfold markedKeys
      congr 1
      exact funext (markedKey_markSlotReplayReady store id)
    rw [markSlotsReplayReady, foldl_cons]
    change ((markSlotsReplayReady (store.markSlotReplayReady id) rest).lane lane).replay = _
    rw [ih, later]
    cases marked : store.markedKey id with
    | none =>
      rw [markSlotReplayReady_of_none marked]
      by_cases here : id.lane = lane <;> simp [markedKeys, here, marked]
    | some key =>
      obtain ⟨slot, _, _, key_eq, _, result⟩ := markSlotReplayReady_of_some marked
      rw [result, requeue, lane_setLane]
      by_cases here : id.lane = lane
      · subst here
        simp [markedKeys, marked, key_eq, setQueue, queue,
          setSlot]
      · simp [markedKeys, here, Ne.symm here]

/-- A failed write that still holds its slot queues a message again. -/
def failedKey (store : RetainedStore) (claim : RetainedClaim) : Option QueueKey :=
  (store.slot claim.slot).bind fun slot =>
    if slot.state = .writing claim.callisId ∧ slot.identity = some claim.identity ∧
        slot.item.any (·.isTracked) then some ⟨claim.slot.index, slot.seq⟩ else none

theorem completeWrite_replay (store : RetainedStore) (claim : RetainedClaim)
    (result : Except AureliaError Unit) (lane : RetainedLane) :
    ((store.completeWrite claim result).2.lane lane).replay = (store.lane lane).replay ++
      match result with
      | .error _ => if claim.slot.lane = lane then (store.failedKey claim).toList else []
      | .ok _ => [] := by
  have unchanged {keys : List QueueKey} (none_queued : keys = []) :
      (store.lane lane).replay = (store.lane lane).replay ++ keys := by
    rw [none_queued, append_nil]
  cases found : store.slot claim.slot with
  | none =>
    simp only [completeWrite, found]
    apply unchanged
    cases result <;> simp [failedKey, found]
  | some slot =>
    by_cases stale : slot.state ≠ .writing claim.callisId ∨ slot.identity ≠ some claim.identity
    · simp only [completeWrite, found, if_pos stale]
      apply unchanged
      rw [ne_eq, ne_eq, ← not_and_or] at stale
      cases result with
      | ok value => rfl
      | error error =>
        have unheld : store.failedKey claim = none := by
          simp only [failedKey, found, bind_some]
          rw [if_neg]
          exact fun held => stale ⟨held.1, held.2.1⟩
        simp [unheld]
    · have fresh : slot.state = .writing claim.callisId ∧ slot.identity = some claim.identity := by
        rwa [ne_eq, ne_eq, ← not_and_or, not_not] at stale
      cases item_eq : slot.item with
      | none => simp [RetainedSlot.identity, item_eq] at fresh
      | some item =>
        rw [completeWrite_of_not_stale found stale item_eq]
        have queued : store.failedKey claim =
            if item.isTracked then some ⟨claim.slot.index, slot.seq⟩ else none := by
          simp [failedKey, found, fresh.1, fresh.2, item_eq]
        cases result with
        | error error =>
          cases tracked : item.isTracked with
          | true =>
            simp only [requeue, lane_setLane, queued, tracked, if_true]
            by_cases here : lane = claim.slot.lane
            · subst here
              simp [setQueue, queue, setSlot]
            · simp [here, Ne.symm here]
          | false =>
            simp only [requeue, lane_setLane, queued, tracked]
            by_cases here : lane = claim.slot.lane
            · subst here
              simp [setQueue, setSlot]
            · simp [here]
        | ok value =>
          cases tracked : item.isTracked with
          | true =>
            dsimp only
            rw [lane_setLane]
            by_cases here : lane = claim.slot.lane
            · subst here
              simp [setSlot]
            · simp [here]
          | false =>
            rw [append_nil]
            cases removed : store.removeBySlot claim.slot with
            | none => rfl
            | some taken => exact (removeBySlot_queues removed).2.2.2 lane true

end RetainedStore

/-- The keys that an operation appends to the replay queue of a lane. -/
def Op.replayed (store : RetainedStore) (lane : RetainedLane) : Op → List QueueKey
  | .markCallisReplayReady callisId =>
    if lane = .a1Ack then []
    else LaneState.sweptKeys callisId (fun target => target.claimable true)
      (store.lane lane).slots
  | .markAllTrackedReplayReady order => store.markedKeys order lane
  | .markTrackedReplayReady peerMsgIds =>
    store.markedKeys (peerMsgIds.filterMap fun peerMsgId => store.tracked.lookup peerMsgId) lane
  | .completeWrite claim (.error _) =>
    if claim.slot.lane = lane then (store.failedKey claim).toList else []
  | _ => []

/-- What an operation does to the replay queues: keys are dropped, and `replayed` is appended. -/
theorem step_replay {store next : RetainedStore} {op : Op} {output : Output}
    (inv : store.Invariant) (performed : step store op = .ok (output, next)) (lane : RetainedLane) :
    ∃ kept, (next.lane lane).replay = kept ++ op.replayed store lane ∧
      kept.Sublist (store.lane lane).replay := by
  have shrunk {next : RetainedStore}
      (dropped : ((next.lane lane).replay).Sublist (store.lane lane).replay) :
      ∃ kept, (next.lane lane).replay = kept ++ [] ∧ kept.Sublist (store.lane lane).replay :=
    ⟨_, (append_nil _).symm, dropped⟩
  have unchanged {next : RetainedStore}
      (same : (next.lane lane).replay = (store.lane lane).replay) :
      ∃ kept, (next.lane lane).replay = kept ++ [] ∧ kept.Sublist (store.lane lane).replay :=
    shrunk (same ▸ .refl _)
  have inserted {item : RetainedItem} (inserts : op.inserted = some item) :
      ∃ kept, (next.lane lane).replay = kept ++ [] ∧ kept.Sublist (store.lane lane).replay := by
    rcases insertion_cases inv inserts performed with
      ⟨_, refused, _⟩ | ⟨_, _, _, _, _, placed, _⟩
    · exact unchanged (by rw [refused.lanes])
    · exact unchanged (placed.replay lane)
  cases op with
  | insertAck | insertError | insertTracked => exact inserted rfl
  | setCapacities capacities now =>
    cases performed
    apply unchanged
    cases lane <;> exact setTargetCapacity_replay _ _ now
  | setShutdown =>
    cases performed
    exact unchanged (congrArg _ (lane_with_shutdown store lane true))
  | claimNext callisId =>
    cases performed
    have tries := claimLanes_tries callisId [.a1Ack, .a1Error, .a2, .a3] store
    exact shrunk ((shrinks_of_tries inv tries true).queue lane)
  | completeWrite claim result =>
    cases performed
    have queued := completeWrite_replay store claim result lane
    cases result <;> exact ⟨_, queued, List.Sublist.refl _⟩
  | ack peerMsgId | failOne peerMsgId error =>
    cases performed
    exact shrunk ((shrinks_of_vacates (completeOne_vacates store peerMsgId _) true).queue lane)
  | failAll error order | failNonA1 error order | dropResponses order =>
    cases performed
    exact shrunk ((shrinks_of_vacates (removeSlots_vacates _ store) true).queue lane)
  | markCallisReplayReady callisId =>
    cases performed
    cases lane with
    | a1Ack => exact ⟨_, (append_nil _).symm, List.Sublist.refl _⟩
    | a1Error | a2 | a3 => exact ⟨_, rfl, List.Sublist.refl _⟩
  | markAllTrackedReplayReady order | markTrackedReplayReady peerMsgIds =>
    cases performed
    exact ⟨_, markSlotsReplayReady_replay _ store lane, List.Sublist.refl _⟩
  | expireDue now =>
    cases performed
    apply shrunk
    rw [lane_with_deadlines]
    exact (shrinks_of_vacates (removeLiveKeys_vacates _ store) true).queue lane
  | nextDeadline =>
    cases performed
    exact unchanged (congrArg _ (lane_with_deadlines store lane _))
  | beginShutdown error order =>
    cases performed
    apply shrunk
    have dropped := (shrinks_of_vacates (removeSlots_vacates
      (order.filter fun slot => !slot.lane.isA1) store.setShutdown) true).queue lane
    rwa [show store.setShutdown.lane lane = store.lane lane from
      lane_with_shutdown store lane true] at dropped

theorem stored_of_replayed {store : RetainedStore} (inv : store.Invariant) {op : Op}
    {lane : RetainedLane} {key : QueueKey} (listed : key ∈ op.replayed store lane) :
    ∃ stored, store.contents ⟨lane, key.index⟩ = some stored ∧ stored.seq = key.seq := by
  have marked {slots : List SlotId} (listed : key ∈ store.markedKeys slots lane) :
      ∃ stored, store.contents ⟨lane, key.index⟩ = some stored ∧ stored.seq = key.seq := by
    obtain ⟨id, isListed, produced⟩ := mem_filterMap.mp listed
    have here : id.lane = lane := by simpa using (mem_filter.mp isListed).2
    obtain ⟨slot, _, _, found, _, sent, rfl⟩ :=
      (store.markedKey_eq_some_iff id key).mp produced
    have occupied : slot.state ≠ .empty := by
      intro empty
      rw [empty] at sent
      cases sent
    subst here
    exact inv.contents_of_slot found occupied
  cases op with
  | markCallisReplayReady callisId =>
    unfold Op.replayed at listed
    dsimp only at listed
    split at listed
    · cases listed
    · obtain ⟨slot, _, found, swept, _, current⟩ :=
        (mem_sweptKeys_iff _ _ _ _).mp listed
      obtain ⟨stored, present, seq_eq⟩ := @RetainedStore.Invariant.contents_of_slot store inv
        ⟨lane, key.index⟩ slot found (sweptState_cases swept).1
      exact ⟨stored, present, seq_eq.trans current⟩
  | markAllTrackedReplayReady order | markTrackedReplayReady peerMsgIds => exact marked listed
  | completeWrite claim result =>
    cases result with
    | ok value => cases listed
    | error error =>
      unfold Op.replayed at listed
      dsimp only at listed
      split at listed
      · rename_i here
        obtain ⟨slot, found, chosen⟩ := bind_eq_some_iff.mp (mem_toList.mp listed)
        obtain ⟨⟨writing, _⟩, same⟩ := ite_none_right_eq_some.mp chosen
        subst here
        cases same
        exact inv.contents_of_slot found (by simp [writing])
      · cases listed
  | _ => cases listed

/-- A store with the order of the insertions: each item that is stored has the number of the
insertions tried before its own. -/
structure Aged where
  store : RetainedStore
  born : SlotId → Option Nat
  attempts : Nat

namespace Aged

def after (state : Aged) (op : Op) (next : RetainedStore) : Aged where
  store := next
  born := fun id =>
    if (next.contents id).isSome then
      if (state.store.contents id).isNone then some state.attempts else state.born id
    else none
  attempts := state.attempts + if op.inserted.isSome then 1 else 0

def system : Machine.System Aged (Op × Output) where
  Initial state := ∃ capacities now, state = ⟨RetainedStore.new capacities now, fun _ => none, 0⟩
  Step state label next :=
    Store.system.Step state.store label next.store ∧ next = state.after label.1 next.store

/-- What a step queues for replay it queues in the order of insertion, and behind no message that
was inserted later. -/
def Orderly (state : Aged) (label : Op × Output) : Prop :=
  ∀ lane, (label.1.replayed state.store lane).Pairwise (Precedes state.store state.born lane) ∧
    ∀ key ∈ (state.store.lane lane).replay, ∀ later ∈ label.1.replayed state.store lane,
      Precedes state.store state.born lane key later

def ReplayReady (state : Aged) (id : SlotId) : Prop :=
  ∃ slot, state.store.slot id = some slot ∧ slot.state.claimable true = true

structure Invariant (state : Aged) : Prop where
  store : state.store.Invariant
  dated : ∀ id, (state.store.contents id).isSome = true → (state.born id).isSome = true
  order : InOrder state.store state.born true state.attempts

theorem born_after (state : Aged) {op : Op} {next : RetainedStore} {id : SlotId}
    (stored : (next.contents id).isSome = true) :
    (state.after op next).born id =
      if (state.store.contents id).isNone then some state.attempts else state.born id := by
  simp only [after, stored, if_true]

theorem Invariant.step {state next : Aged} {label : Op × Output} (inv : state.Invariant)
    (taken : (system.restrict Orderly).Step state label next) : next.Invariant := by
  obtain ⟨⟨performed, advanced⟩, orderly⟩ := taken
  have next_inv := (step_invariant inv.store performed).1
  have numbers := step_numbers inv.store performed
  have kept : ∀ id, state.store.contents id ≠ none → ∀ value,
      (state.after label.1 next.store).born id = some value → state.born id = some value := by
    intro id present value aged
    by_cases stored : (next.store.contents id).isSome = true
    · rwa [born_after state stored, if_neg (by simpa using present)] at aged
    · simp [after, stored] at aged
  -- an insertion queues nothing for replay
  have idle (lane : RetainedLane) (tried : label.1.inserted.isSome = true) :
      label.1.replayed state.store lane = [] := by
    cases operation : label.1 with
    | insertAck | insertError | insertTracked => rfl
    | _ => simp [operation, Op.inserted, Op.response] at tried
  have still {lane : RetainedLane} {key last : QueueKey}
      (before : Precedes state.store state.born lane key last)
      (listed : last ∈ label.1.replayed state.store lane) :
      Precedes next.store (state.after label.1 next.store).born lane key last := by
    have none_tried : (if label.1.inserted.isSome then 1 else 0) ≠ 1 := by
      intro once
      have inserts : label.1.inserted.isSome = true := by
        by_contra none_inserted
        cases (if_neg none_inserted).symm.trans once
      rw [idle lane inserts] at listed
      cases listed
    intro value aged follow followed
    exact before value (stampOf_of_step numbers kept (absurd · none_tried) aged) follow
      (stampOf_of_step numbers kept (absurd · none_tried) followed)
  rw [advanced]
  refine ⟨next_inv, fun id stored => ?_, inv.order.step numbers kept fun lane => ?_⟩
  · change (next.store.contents id).isSome = true at stored
    rw [born_after state stored]
    split
    · rfl
    · rename_i present
      rw [isNone_iff_eq_none, ← ne_eq, ← isSome_iff_ne_none] at present
      exact inv.dated id present
  · obtain ⟨old, same, sublist⟩ := step_replay inv.store performed.2 lane
    refine ⟨old, _, same, sublist, fun key listed => ?_, ?_, ?_⟩
    · obtain ⟨stored, present, current⟩ := stored_of_replayed inv.store listed
      exact ⟨_, stored, .inl present, current⟩
    · exact (orderly lane).1.imp_of_mem fun _ second before => still before second
    · intro key isOld last listed
      exact still ((orderly lane).2 key (sublist.subset isOld) last listed) listed

theorem reachable_invariant {state : Aged} (reached : (system.restrict Orderly).Reachable state) :
    state.Invariant := by
  refine reached.invariant ?_ (fun _ _ _ before taken => before.step taken)
  rintro _ ⟨capacities, now, rfl⟩
  refine ⟨new_invariant capacities now, fun id stored => ?_, .new capacities now _ true⟩
  change ((RetainedStore.new capacities now).contents id).isSome = true at stored
  rw [new_contents] at stored
  cases stored

/-- The item of one slot was not inserted after the item of another. -/
def NotAfter (state : Aged) (id other : SlotId) : Prop :=
  ∃ value follow, state.born id = some value ∧ state.born other = some follow ∧ value ≤ follow

theorem Invariant.oldest {state : Aged} (inv : state.Invariant) (few : state.attempts < u64Limit)
    {claim : RetainedClaim} {replay : Bool} {queue : List QueueKey} {key : QueueKey}
    {slot : RetainedSlot} (found : Found state.store claim replay queue key slot)
    (replays : state.ReplayReady claim.slot) {other : SlotId}
    (same_lane : other.lane = claim.slot.lane) (waiting : state.ReplayReady other) :
    state.NotAfter claim.slot other := by
  have dated {id : SlotId} (waits : state.ReplayReady id) :
      ∃ value, state.born id = some value := by
    obtain ⟨slot, at_id, claimable⟩ := waits
    have occupied : slot.state ≠ .empty := by
      intro empty
      simp [empty] at claimable
    obtain ⟨_, present, _⟩ := inv.store.contents_of_slot at_id occupied
    exact isSome_iff_exists.mp (inv.dated id (by simp [present]))
  obtain ⟨value, born⟩ := dated replays
  obtain ⟨follow, followed⟩ := dated waiting
  -- the claimed slot is ready for replay, so that the replay queue was scanned
  obtain ⟨at_claim, _, claimable⟩ := found.slot_eq
  obtain ⟨_, at_held, ready⟩ := replays
  cases at_claim.symm.trans at_held
  have replayed : replay = true := by
    cases replay with
    | true => rfl
    | false => cases state_eq : slot.state <;> simp [state_eq] at ready claimable
  subst replayed
  obtain ⟨_, at_other, later_ready⟩ := waiting
  exact ⟨value, follow, born, followed,
    inv.order.oldest inv.store few found born same_lane at_other later_ready followed⟩

theorem reachable_after {state : Aged} (reached : (system.restrict Orderly).Reachable state)
    (op : Op) {output : Output} {next : RetainedStore} (ordered : op.Ordered state.store)
    (performed : Store.step state.store op = .ok (output, next))
    (orderly : state.Orderly (op, output)) :
    (system.restrict Orderly).Reachable (state.after op next) :=
  reached.step (⟨⟨⟨ordered, performed⟩, rfl⟩, orderly⟩ :
    (system.restrict Orderly).Step state (op, output) _)

theorem orderly_claimNext (state : Aged) (callisId : CallisId) (output : Output) :
    state.Orderly (.claimNext callisId, output) := by
  intro lane
  exact ⟨List.Pairwise.nil, fun _ _ later none_queued => absurd none_queued not_mem_nil⟩

/-- What was not stored after it still is not when only dispatch states have changed. -/
theorem NotAfter.of_after {state : Aged} {op : Op} {next : RetainedStore}
    (same : next.contents = state.store.contents) {id other : SlotId}
    (ordered : (state.after op next).NotAfter id other) : state.NotAfter id other := by
  have born {id : SlotId} {value : Nat} (at_id : (state.after op next).born id = some value) :
      state.born id = some value := by
    simp only [after, same] at at_id
    split at at_id
    · rename_i stored
      obtain ⟨_, present⟩ := isSome_iff_exists.mp stored
      simpa [present] using at_id
    · cases at_id
  obtain ⟨value, follow, at_id, at_other, bound⟩ := ordered
  exact ⟨value, follow, born at_id, born at_other, bound⟩

theorem claims_in_order {state : Aged} (reached : (system.restrict Orderly).Reachable state)
    (few : state.attempts < u64Limit) (callisId : CallisId) (count : Nat) :
    (claims callisId count state.store).Pairwise fun earlier later =>
      state.ReplayReady earlier.slot → state.ReplayReady later.slot →
        later.slot.lane = earlier.slot.lane → state.NotAfter earlier.slot later.slot := by
  induction count generalizing state with
  | zero => exact List.Pairwise.nil
  | succ count ih =>
    have inv := reachable_invariant reached
    have first := claimNext_claimed inv.store callisId
    have spec := claimLanes_spec callisId [.a1Ack, .a1Error, .a2, .a3] inv.store
    change (state.store.claimNext callisId).2.Invariant ∧
      (state.store.claimNext callisId).2.contents = _ at spec
    unfold claims
    split
    · exact List.Pairwise.nil
    · rename_i claim next claimed
      have claimed_some : (state.store.claimNext callisId).1 = some claim := by rw [claimed]
      rw [claimed] at first spec
      obtain ⟨_, _, _, _, replay, _, _, slot, found⟩ :=
        claimLanes_found (by decide) inv.store claimed_some
      obtain ⟨_, _, _, _, _, _, _, slots⟩ := first
      have performed : Store.step state.store (.claimNext callisId) =
          .ok (.claim (some claim), next) := by
        simp only [Store.step, claimed]
      have later_reached : (system.restrict Orderly).Reachable
          (state.after (.claimNext callisId) next) :=
        reachable_after reached _ trivial performed (orderly_claimNext state callisId _)
      -- a later claim is of another slot, which this claim leaves as it was
      have stays {later : RetainedClaim} (listed : later ∈ claims callisId count next)
          (waiting : state.ReplayReady later.slot) :
          (state.after (.claimNext callisId) next).ReplayReady later.slot := by
        obtain ⟨_, _, at_held, claimable⟩ := claimable_of_mem_claims spec.1 listed
        obtain ⟨waiter, at_waiter, ready⟩ := waiting
        rw [slots] at at_held
        split at at_held
        · cases at_held
          simp at claimable
        · rename_i elsewhere
          refine ⟨waiter, ?_, ready⟩
          exact (slots later.slot).trans ((if_neg elsewhere).trans at_waiter)
      apply pairwise_cons.mpr
      constructor
      · intro later _ replays waiting same_lane
        exact inv.oldest few found replays same_lane waiting
      · apply (ih later_reached few).imp_of_mem
        intro earlier later first_listed second_listed ordered replays waiting same_lane
        have after := ordered (stays first_listed replays) (stays second_listed waiting) same_lane
        exact after.of_after spec.2

/-- Replay follows the order of insertion, in every run in which everything that is queued for
replay is queued in that order.  A claim of a message that is ready for replay takes the oldest one
of its lane, and so do all the claims of a callis that replays them. -/
theorem replayed_in_insertion_order {state : Aged}
    (reached : (system.restrict Orderly).Reachable state) (few : state.attempts < u64Limit)
    (callisId : CallisId) :
    (∀ claim, (state.store.claimNext callisId).1 = some claim → state.ReplayReady claim.slot →
      ∀ other, other.lane = claim.slot.lane → state.ReplayReady other →
        state.NotAfter claim.slot other) ∧
    ∀ count, (claims callisId count state.store).Pairwise fun earlier later =>
      state.ReplayReady earlier.slot → state.ReplayReady later.slot →
        later.slot.lane = earlier.slot.lane → state.NotAfter earlier.slot later.slot := by
  constructor
  · intro claim claimed replays other same_lane waiting
    have inv := reachable_invariant reached
    obtain ⟨_, _, _, _, _, _, _, _, found⟩ :=
      claimLanes_found (by decide) inv.store claimed
    exact inv.oldest few found replays same_lane waiting
  · exact claims_in_order reached few callisId

instance (store : RetainedStore) (stamps : SlotId → Option Nat) (lane : RetainedLane)
    (key last : QueueKey) : Decidable (Precedes store stamps lane key last) := by
  unfold Precedes
  infer_instance

/-- Two messages in flight on a lost callis are replayed on another one, the first one first. -/
theorem replayed_in_insertion_order_sweep :
    ∃ state claim, (system.restrict Orderly).Reachable state ∧ state.attempts = 2 ∧
      (state.store.claimNext 2).1 = some claim ∧ claim.slot = ⟨.a3, 0⟩ ∧
      state.ReplayReady ⟨.a3, 0⟩ ∧ state.ReplayReady ⟨.a3, 1⟩ ∧
      state.NotAfter ⟨.a3, 0⟩ ⟨.a3, 1⟩ := by
  have start : (system.restrict Orderly).Reachable
      ⟨RetainedStore.new ⟨1, 1, 1, 2⟩ 0, fun _ => none, 0⟩ := .start ⟨_, _, rfl⟩
  have first := reachable_after start
    (.insertTracked ⟨⟨7, 1, 2, a3MessageTypeBase, 0, []⟩, 0⟩ 10 0) trivial rfl
    (fun lane => by cases lane <;> decide)
  have second := reachable_after first
    (.insertTracked ⟨⟨8, 1, 2, a3MessageTypeBase, 0, []⟩, 1⟩ 10 0) trivial rfl
    (fun lane => by cases lane <;> decide)
  have claimed := reachable_after second (.claimNext 1) trivial rfl
    (fun lane => by cases lane <;> decide)
  have written := reachable_after claimed
    (.completeWrite ⟨⟨.a3, 0⟩, ⟨7, 1, .tracked⟩, 1, 10,
      .message 7 ⟨7, 1, 2, a3MessageTypeBase, 0, []⟩⟩ (.ok ())) trivial rfl
    (fun lane => by cases lane <;> decide)
  have claimed_next := reachable_after written (.claimNext 1) trivial rfl
    (fun lane => by cases lane <;> decide)
  have written_next := reachable_after claimed_next
    (.completeWrite ⟨⟨.a3, 1⟩, ⟨8, 2, .tracked⟩, 1, 10,
      .message 8 ⟨8, 1, 2, a3MessageTypeBase, 0, []⟩⟩ (.ok ())) trivial rfl
    (fun lane => by cases lane <;> decide)
  have swept := reachable_after written_next (.markCallisReplayReady 1) trivial rfl
    (fun lane => by cases lane <;> decide)
  refine ⟨_, _, swept, rfl, rfl, rfl, ⟨_, rfl, rfl⟩, ⟨_, rfl, rfl⟩, ?_⟩
  exact (replayed_in_insertion_order swept (by decide) 2).1 _ rfl ⟨_, rfl, rfl⟩ ⟨.a3, 1⟩ rfl
    ⟨_, rfl, rfl⟩

/-- A message that took the slot of an acknowledged one is replayed before a message that was
inserted earlier: the sweep queues its slots by their index. -/
theorem sweep_replays_reused_slot_first :
    ∃ state claim other value follow, system.Reachable state ∧
      (state.store.claimNext 2).1 = some claim ∧ state.ReplayReady claim.slot ∧
      state.ReplayReady other ∧ other.lane = claim.slot.lane ∧
      state.born claim.slot = some value ∧ state.born other = some follow ∧ follow < value := by
  have stepped {state : Aged} (reached : system.Reachable state) {op : Op} {output : Output}
      {next : RetainedStore} (ordered : op.Ordered state.store)
      (performed : Store.step state.store op = .ok (output, next)) :
      system.Reachable (state.after op next) :=
    reached.step (⟨⟨ordered, performed⟩, rfl⟩ : system.Step state (op, output) _)
  have start : system.Reachable ⟨RetainedStore.new ⟨1, 1, 1, 2⟩ 0, fun _ => none, 0⟩ :=
    .start ⟨_, _, rfl⟩
  have first := @stepped _ start
    (.insertTracked ⟨⟨7, 1, 2, a3MessageTypeBase, 0, []⟩, 0⟩ 10 0) _ _ trivial rfl
  have second := @stepped _ first
    (.insertTracked ⟨⟨8, 1, 2, a3MessageTypeBase, 0, []⟩, 1⟩ 10 0) _ _ trivial rfl
  have acked := @stepped _ second (.ack 7) _ _ trivial rfl
  have third := @stepped _ acked
    (.insertTracked ⟨⟨9, 1, 2, a3MessageTypeBase, 0, []⟩, 2⟩ 10 0) _ _ trivial rfl
  have claimed := @stepped _ third (.claimNext 1) _ _ trivial rfl
  have written := @stepped _ claimed
    (.completeWrite ⟨⟨.a3, 1⟩, ⟨8, 2, .tracked⟩, 1, 10,
      .message 8 ⟨8, 1, 2, a3MessageTypeBase, 0, []⟩⟩ (.ok ())) _ _ trivial rfl
  have claimed_next := @stepped _ written (.claimNext 1) _ _ trivial rfl
  have written_next := @stepped _ claimed_next
    (.completeWrite ⟨⟨.a3, 0⟩, ⟨9, 3, .tracked⟩, 1, 10,
      .message 9 ⟨9, 1, 2, a3MessageTypeBase, 0, []⟩⟩ (.ok ())) _ _ trivial rfl
  have swept := @stepped _ written_next (.markCallisReplayReady 1) _ _ trivial rfl
  exact ⟨_, _, ⟨.a3, 1⟩, 2, 1, swept, rfl, ⟨_, rfl, rfl⟩, ⟨_, rfl, rfl⟩, rfl, by decide, by decide,
    by decide⟩

end Aged

end AureliaPeering.Store
