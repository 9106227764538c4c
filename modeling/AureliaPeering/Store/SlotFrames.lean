import AureliaPeering.Store.QueueFrames

/-!
What the operations of the store do to its slots.

Every operation but a claim and a completed write leaves each slot as it was or puts it on no
callis.
-/

namespace AureliaPeering.Store

open Collections RetainedStore List
open Relation (ReflTransGen)

def SlotState.carrier : SlotState → Option CallisId
  | .writing callisId | .inflight callisId => some callisId
  | .empty | .ready | .replayReady _ => none

def RetainedSlot.Idle (slot : RetainedSlot) : Prop := slot.state.carrier = none

def RetainedSlot.Vacant (slot : RetainedSlot) : Prop := slot.item = none ∧ slot.state = .empty

theorem RetainedSlot.Vacant.idle {slot : RetainedSlot} (vacant : slot.Vacant) : slot.Idle := by
  rw [RetainedSlot.Idle, vacant.2]
  rfl

namespace LaneState

def Alters (described : RetainedSlot → Prop) (state next : LaneState) : Prop :=
  ∀ index : Nat, next.slots[index]? = state.slots[index]? ∨
    ∃ slot, next.slots[index]? = some slot ∧ described slot

section Alters

variable {described : RetainedSlot → Prop} {state middle next : LaneState}
variable {slot : RetainedSlot} {now : Instant} {index : Nat} {item : RetainedItem}

theorem Alters.of_slots (same : next.slots = state.slots) : state.Alters described next :=
  fun index => .inl (congrArg (fun slots => slots[index]?) same)

theorem Alters.trans (first : state.Alters described middle)
    (second : middle.Alters described next) : state.Alters described next := by
  intro index
  rcases second index with same | new
  · rw [same]
    exact first index
  · exact .inr new

theorem Alters.mono {broader : RetainedSlot → Prop} (weaker : ∀ slot, described slot → broader slot)
    (alters : state.Alters described next) : state.Alters broader next := by
  intro index
  rcases alters index with same | ⟨slot, found, isNew⟩
  · exact .inl same
  · exact .inr ⟨slot, found, weaker slot isNew⟩

theorem alters_setSlot (state : LaneState) (index : Nat)
    (isNew : described slot) : state.Alters described (state.setSlot index slot) := by
  intro other
  simp only [setSlot, getElem?_set]
  split
  · rename_i here
    subst here
    split
    · exact .inr ⟨slot, rfl, isNew⟩
    · rename_i outside
      exact .inl (getElem?_eq_none (not_lt.mp outside)).symm
  · exact .inl rfl

theorem alters_push (pushed : next.slots = state.slots ++ [RetainedSlot.empty now]) :
    state.Alters RetainedSlot.Vacant next := by
  intro index
  rw [pushed]
  rcases lt_trichotomy index state.slots.length with inside | rfl | outside
  · exact .inl (getElem?_append_left inside)
  · apply Or.inr
    refine ⟨RetainedSlot.empty now, ?_, rfl, rfl⟩
    simp
  · apply Or.inl
    rw [getElem?_eq_none outside.le, getElem?_eq_none]
    rw [length_append]
    exact outside

theorem alters_grow (now : Instant) (count : Nat) (state : LaneState) :
    state.Alters RetainedSlot.Vacant (grow now count state) := by
  induction count generalizing state with
  | zero => exact .of_slots rfl
  | succ count ih =>
    exact (alters_push rfl).trans (ih _)

theorem alters_setTargetCapacity (state : LaneState) (targetCapacity : Nat) (now : Instant) :
    state.Alters RetainedSlot.Vacant (state.setTargetCapacity targetCapacity now) :=
  (alters_grow now _ state).trans (.of_slots rfl)

theorem alters_removeSlot (removed : state.removeSlot index = some (item, next)) :
    state.Alters RetainedSlot.Vacant next := by
  unfold removeSlot at removed
  split at removed
  · cases removed
  · rename_i slot found
    split at removed
    · cases removed
    · cases removed
      have emptied := alters_setSlot state index
        (show RetainedSlot.Vacant ⟨none, slot.originalDeadline, nextSeq slot.seq, .empty⟩ from
          ⟨rfl, rfl⟩)
      exact emptied.trans (.of_slots rfl)

theorem idle_of_sweptState {callisId : CallisId} {target : SlotState}
    (swept : sweptState callisId slot = some target) : target.carrier = none := by
  unfold sweptState at swept
  split at swept <;> first
    | (split at swept <;> cases swept; rfl)
    | cases swept

theorem sweepSlot_cases (callisId : CallisId) (slot : RetainedSlot) :
    sweepSlot callisId slot = slot ∨ (sweepSlot callisId slot).Idle := by
  unfold sweepSlot
  split
  · rename_i target swept
    exact .inr (idle_of_sweptState swept)
  · exact .inl rfl

theorem alters_sweep (state : LaneState) (callisId : CallisId) :
    state.Alters RetainedSlot.Idle (state.sweep callisId) := by
  intro index
  change (state.slots.map (sweepSlot callisId))[index]? = _ ∨
    ∃ slot, (state.slots.map (sweepSlot callisId))[index]? = _ ∧ _
  rw [getElem?_map]
  cases found : state.slots[index]? with
  | none => exact .inl rfl
  | some slot =>
    rcases sweepSlot_cases callisId slot with same | idle
    · exact .inl (congrArg some same)
    · exact .inr ⟨_, rfl, idle⟩

end Alters

end LaneState

namespace RetainedStore

def Alters (described : RetainedSlot → Prop) (store next : RetainedStore) : Prop :=
  ∀ lane, (store.lane lane).Alters described (next.lane lane)

section Alters

variable {described : RetainedSlot → Prop} {store middle next : RetainedStore}
variable {lane : RetainedLane} {item : RetainedItem} {deadline now : Instant}

theorem Alters.slot (alters : store.Alters described next) (id : SlotId) :
    next.slot id = store.slot id ∨ ∃ slot, next.slot id = some slot ∧ described slot :=
  alters id.lane id.index

theorem Alters.of_lanes (same : ∀ lane, next.lane lane = store.lane lane) :
    store.Alters described next :=
  fun lane => .of_slots (congrArg _ (same lane))

theorem Alters.refl (store : RetainedStore) : store.Alters described store :=
  .of_lanes fun _ => rfl

theorem Alters.trans (first : store.Alters described middle)
    (second : middle.Alters described next) : store.Alters described next :=
  fun lane => (first lane).trans (second lane)

theorem Alters.mono {broader : RetainedSlot → Prop} (weaker : ∀ slot, described slot → broader slot)
    (alters : store.Alters described next) : store.Alters broader next :=
  fun lane => (alters lane).mono weaker

theorem Alters.idle (alters : store.Alters RetainedSlot.Vacant next) :
    store.Alters RetainedSlot.Idle next :=
  alters.mono fun _ => RetainedSlot.Vacant.idle

theorem alters_setLane {state : LaneState}
    (altered : (store.lane lane).Alters described state) :
    store.Alters described (store.setLane lane state) := by
  intro other
  rw [lane_setLane]
  split
  · rename_i same
    subst same
    exact altered
  · exact .of_slots rfl

theorem alters_setCapacities (store : RetainedStore) (capacities : RetainedCapacities)
    (now : Instant) : store.Alters RetainedSlot.Vacant (store.setCapacities capacities now) := by
  intro lane
  cases lane <;> exact LaneState.alters_setTargetCapacity _ _ now

theorem alters_removeBySlot {id : SlotId}
    (removed : store.removeBySlot id = some (item, next)) :
    store.Alters RetainedSlot.Vacant next := by
  unfold removeBySlot at removed
  split at removed
  · cases removed
  · rename_i taken state inLane
    apply (alters_setLane (LaneState.alters_removeSlot inLane)).trans
    cases taken with
    | ack peerMsgId | error peerMsgId frame =>
      cases removed
      exact .of_lanes fun lane => lane_with_responses _ lane _
    | tracked outbound =>
      cases removed
      exact .of_lanes fun lane => lane_with_tracked _ lane _

theorem alters_of_vacates (moves : ReflTransGen Vacates store next) :
    store.Alters RetainedSlot.Vacant next := by
  induction moves with
  | refl => exact .refl store
  | tail _ vacated ih =>
    obtain ⟨_, _, removed⟩ := vacated
    exact ih.trans (alters_removeBySlot removed)

theorem alters_expireDue (store : RetainedStore) (now : Instant) :
    store.Alters RetainedSlot.Vacant (store.expireDue now).2 := by
  apply (alters_of_vacates (removeLiveKeys_vacates _ store)).trans
  exact .of_lanes fun lane => lane_with_deadlines _ lane _

theorem alters_requeue (store : RetainedStore) (id : SlotId) (slot : RetainedSlot) (replay : Bool)
    {target : SlotState} (idle : target.carrier = none) :
    store.Alters RetainedSlot.Idle (store.requeue id slot replay target) := by
  apply alters_setLane
  apply (LaneState.alters_setSlot _ id.index
    (show RetainedSlot.Idle { slot with state := target } from idle)).trans
  exact .of_slots (LaneState.slots_setQueue ..)

theorem alters_markSlotReplayReady (store : RetainedStore) (id : SlotId) :
    store.Alters RetainedSlot.Idle (store.markSlotReplayReady id) := by
  unfold markSlotReplayReady
  split
  · exact .refl store
  · split
    · exact alters_requeue store _ _ _ rfl
    · exact .refl store

theorem alters_markSlotsReplayReady (slots : List SlotId) (store : RetainedStore) :
    store.Alters RetainedSlot.Idle (store.markSlotsReplayReady slots) := by
  induction slots generalizing store with
  | nil => exact .refl store
  | cons id rest ih =>
    exact (alters_markSlotReplayReady store id).trans (ih _)

theorem alters_markCallisReplayReady (store : RetainedStore) (callisId : CallisId) :
    store.Alters RetainedSlot.Idle (store.markCallisReplayReady callisId) := by
  intro lane
  cases lane with
  | a1Ack => exact .of_slots rfl
  | a1Error | a2 | a3 => exact LaneState.alters_sweep _ callisId

theorem alters_claimFromQueue (store : RetainedStore) (lane : RetainedLane) (replay : Bool)
    (callisId : CallisId) :
    store.Alters (·.state = .writing callisId) (store.claimFromQueue lane replay callisId).2 := by
  have queued (queue : List QueueKey) :
      (store.lane lane).Alters (·.state = .writing callisId)
        ((store.lane lane).setQueue replay queue) :=
    .of_slots (LaneState.slots_setQueue ..)
  unfold claimFromQueue
  dsimp only
  split
  · exact alters_setLane (queued _)
  · split
    · exact alters_setLane (queued _)
    · apply alters_setLane
      exact (queued _).trans (LaneState.alters_setSlot _ _ rfl)

theorem alters_of_tries {callisId : CallisId} (tries : ReflTransGen (Tries callisId) store next) :
    store.Alters (·.state = .writing callisId) next := by
  induction tries with
  | refl => exact .refl store
  | tail _ tried ih =>
    obtain ⟨lane, replay, rfl⟩ := tried
    exact ih.trans (alters_claimFromQueue _ lane replay callisId)

/-- The slot that a completed write finds written by its own claim. -/
def WrittenBy (claim : RetainedClaim) (slot : RetainedSlot) : Prop :=
  slot.state = .writing claim.callisId ∧ slot.identity = some claim.identity

/-- A completion that does not find its claim changes nothing.  One that does may put the slot in
flight on the callis of the claim. -/
theorem completeWrite_slots (store : RetainedStore) (claim : RetainedClaim)
    (result : Except AureliaError Unit) :
    store.completeWrite claim result = ([], store) ∨
      ∃ slot, store.slot claim.slot = some slot ∧ WrittenBy claim slot ∧
        (store.Alters RetainedSlot.Idle (store.completeWrite claim result).2 ∨
          ∀ id, (store.completeWrite claim result).2.slot id =
            if id = claim.slot then some { slot with state := .inflight claim.callisId }
            else store.slot id) := by
  unfold completeWrite
  split
  · exact .inl rfl
  · rename_i slot found
    split
    · exact .inl rfl
    · rename_i fresh
      have written : WrittenBy claim slot := by
        rw [not_or, not_ne_iff, not_ne_iff] at fresh
        exact fresh
      split
      · exact .inl rfl
      · exact .inr ⟨slot, found, written, .inl (alters_requeue store _ _ _ rfl)⟩
      · exact .inr ⟨slot, found, written, .inl (alters_requeue store _ _ _ rfl)⟩
      · refine .inr ⟨slot, found, written, .inr fun id => ?_⟩
        have inside := (List.getElem?_eq_some_iff.mp found).1
        rw [slot_setLane]
        by_cases here : id = claim.slot
        · subst here
          simp [LaneState.setSlot, inside]
        · rw [if_neg here]
          split
          · rename_i same
            have apart : claim.slot.index ≠ id.index := by
              intro index
              obtain ⟨lane, position⟩ := id
              exact here (by cases same; cases index; rfl)
            simp only [LaneState.setSlot, getElem?_set_ne apart]
            rw [← same]
            rfl
          · rfl
      · split
        · exact .inl rfl
        · rename_i removed
          exact .inr ⟨slot, found, written, .inl (alters_removeBySlot removed).idle⟩

end Alters

end RetainedStore

/-- An operation that neither claims nor completes a write puts nothing on a callis. -/
theorem step_alters {store next : RetainedStore} {op : Op} {output : Output}
    (inv : store.Invariant) (performed : step store op = .ok (output, next))
    (unclaiming : ∀ callisId, op ≠ .claimNext callisId)
    (incomplete : ∀ claim result, op ≠ .completeWrite claim result) :
    store.Alters RetainedSlot.Idle next := by
  have inserted {item : RetainedItem} (inserts : op.inserted = some item) :
      store.Alters RetainedSlot.Idle next := by
    rcases insertion_cases inv inserts performed with
      ⟨_, refused, _⟩ | ⟨id, _, _, _, _, placed, _⟩
    · exact .of_lanes refused.lanes
    · intro lane index
      have filled := placed.slots ⟨lane, index⟩
      split at filled
      · exact .inr ⟨_, filled, rfl⟩
      · exact .inl filled
  cases op with
  | claimNext callisId => exact absurd rfl (unclaiming callisId)
  | completeWrite claim result => exact absurd rfl (incomplete claim result)
  | setCapacities capacities now =>
    cases performed
    exact (alters_setCapacities store capacities now).idle
  | setShutdown =>
    cases performed
    exact .of_lanes fun lane => lane_with_shutdown _ lane _
  | insertAck | insertError | insertTracked => exact inserted rfl
  | ack peerMsgId | failOne peerMsgId error =>
    cases performed
    exact (alters_of_vacates (completeOne_vacates store peerMsgId _)).idle
  | failAll error order | failNonA1 error order | dropResponses order =>
    cases performed
    exact (alters_of_vacates (removeSlots_vacates _ store)).idle
  | markCallisReplayReady callisId =>
    cases performed
    exact alters_markCallisReplayReady store callisId
  | markAllTrackedReplayReady order | markTrackedReplayReady peerMsgIds =>
    cases performed
    exact alters_markSlotsReplayReady _ store
  | expireDue now =>
    cases performed
    exact (alters_expireDue store now).idle
  | nextDeadline =>
    cases performed
    exact .of_lanes fun lane => lane_with_deadlines _ lane _
  | beginShutdown error order =>
    cases performed
    have down : store.Alters RetainedSlot.Vacant store.setShutdown :=
      .of_lanes fun lane => lane_with_shutdown _ lane _
    exact (down.trans (alters_of_vacates (removeSlots_vacates _ store.setShutdown))).idle

end AureliaPeering.Store
