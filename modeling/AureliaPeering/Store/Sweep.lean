import AureliaPeering.Store.Carriers

/-!
The sweep after the loss of a callis.

In the lanes it visits it takes every item off the callis and makes it claimable again.  It does not
visit the ACK lane.
-/

namespace AureliaPeering.Store

open Collections RetainedStore

namespace LaneState
variable {callisId : CallisId} {slot : RetainedSlot}

theorem sweepSlot_of_elsewhere
    (elsewhere : slot.state.carrier ≠ some callisId) : sweepSlot callisId slot = slot := by
  have unmoved : sweptState callisId slot = none := by
    unfold sweptState
    split
    · rename_i writing peerMsgId state_eq _
      rw [if_neg]
      rintro rfl
      exact elsewhere (by rw [state_eq]; rfl)
    · rename_i writing peerMsgId frame state_eq _
      rw [if_neg]
      rintro rfl
      exact elsewhere (by rw [state_eq]; rfl)
    · rename_i writing outbound state_eq _
      rw [if_neg]
      rintro rfl
      exact elsewhere (by rw [state_eq]; rfl)
    · rename_i lastSent outbound state_eq _
      rw [if_neg]
      rintro rfl
      exact elsewhere (by rw [state_eq]; rfl)
    · rfl
  rw [sweepSlot, unmoved]

theorem sweepSlot_of_tracked
    {outbound : TrackedOutbound} (item_eq : slot.item = some (.tracked outbound))
    (carried : slot.state.carrier = some callisId) :
    sweepSlot callisId slot = { slot with state := .replayReady callisId } := by
  have moved : sweptState callisId slot = some (.replayReady callisId) := by
    cases state_eq : slot.state with
    | empty | ready | replayReady => simp [state_eq, SlotState.carrier] at carried
    | writing holder | inflight holder =>
      have same : holder = callisId := by simpa [state_eq, SlotState.carrier] using carried
      simp [sweptState, state_eq, item_eq, same]
  rw [sweepSlot, moved]

theorem sweepSlot_of_response {item : RetainedItem}
    (item_eq : slot.item = some item) (response : item.isTracked = false)
    (writing : slot.state = .writing callisId) :
    sweepSlot callisId slot = { slot with state := .ready } := by
  have moved : sweptState callisId slot = some .ready := by
    cases item with
    | ack peerMsgId | error peerMsgId frame => simp [sweptState, writing, item_eq]
    | tracked outbound => cases response
  rw [sweepSlot, moved]

end LaneState

namespace RetainedStore

theorem slot_markCallisReplayReady (store : RetainedStore) (callisId : CallisId) (id : SlotId) :
    (store.markCallisReplayReady callisId).slot id =
      if id.lane = .a1Ack then store.slot id
      else (store.slot id).map (LaneState.sweepSlot callisId) := by
  obtain ⟨lane, _⟩ := id
  cases lane with
  | a1Ack => rfl
  | a1Error | a2 | a3 => exact List.getElem?_map ..

/-- The item of a slot can be claimed: by anyone, as soon as the items queued before it have been
claimed. -/
def ClaimableAt (store : RetainedStore) (id : SlotId) (slot : RetainedSlot) : Prop :=
  store.Open id.lane → ∀ callisId, ∃ count, ∃ claim ∈ claims callisId count store,
    claim.slot = id ∧ slot.identity = some claim.identity

/-- Nothing is left on the callis, everything that was on it is claimable again, and what was not on
it is as it was. -/
structure SweptClean (store next : RetainedStore) (callisId : CallisId) : Prop where
  gone : ∀ id slot, next.slot id = some slot →
    slot.state ≠ .writing callisId ∧ slot.state ≠ .inflight callisId
  messages : ∀ id slot outbound, store.slot id = some slot →
    slot.item = some (.tracked outbound) →
    (slot.state = .writing callisId ∨ slot.state = .inflight callisId) →
    next.slot id = some { slot with state := .replayReady callisId } ∧
      next.ClaimableAt id { slot with state := .replayReady callisId }
  responses : ∀ id slot item, store.slot id = some slot → slot.item = some item →
    item.isTracked = false → slot.state = .writing callisId →
    next.slot id = some { slot with state := .ready } ∧
      next.ClaimableAt id { slot with state := .ready }
  others : ∀ id slot, store.slot id = some slot → slot.state ≠ .writing callisId →
    slot.state ≠ .inflight callisId → next.slot id = some slot

end RetainedStore

section Sweep

variable {store : RetainedStore} {callisId : CallisId}
variable {id : SlotId} {slot : RetainedSlot}

theorem claimableAt_swept (inv : store.Invariant)
    (found : (store.markCallisReplayReady callisId).slot id = some slot) {replay : Bool}
    (claimable : slot.state.claimable replay = true) :
    (store.markCallisReplayReady callisId).ClaimableAt id slot := by
  intro opened claimer
  exact exists_claim (markCallisReplayReady_spec inv callisId).1 found claimable opened claimer

theorem carrier_ne_some_iff (state : SlotState) (callisId : CallisId) :
    state.carrier ≠ some callisId ↔ state ≠ .writing callisId ∧ state ≠ .inflight callisId := by
  cases state <;> simp [SlotState.carrier]

theorem slot_swept (inv : store.Invariant)
    (unwritten : ∀ index slot, store.slot ⟨.a1Ack, index⟩ = some slot →
      slot.state ≠ .writing callisId)
    (found : store.slot id = some slot) :
    (store.markCallisReplayReady callisId).slot id =
      some (LaneState.sweepSlot callisId slot) := by
  rw [slot_markCallisReplayReady]
  split
  · rename_i acks
    obtain ⟨_, index⟩ := id
    cases acks
    have elsewhere : slot.state.carrier ≠ some callisId := by
      apply (carrier_ne_some_iff _ _).mpr
      constructor
      · exact unwritten index slot found
      · intro inflight
        have kind := ((inv.lanes .a1Ack).slot_of_getElem? found).retained
          (by rw [inflight]; rfl)
        cases kind
    rw [LaneState.sweepSlot_of_elsewhere elsewhere]
    exact found
  · rw [found, Option.map_some]

theorem sweptClean_of_unwritten (inv : store.Invariant)
    (unwritten : ∀ index slot, store.slot ⟨.a1Ack, index⟩ = some slot →
      slot.state ≠ .writing callisId) :
    SweptClean store (store.markCallisReplayReady callisId) callisId := by
  constructor
  · intro id swept at_id
    apply (carrier_ne_some_iff _ _).mp
    intro carried
    have present : ∃ slot, store.slot id = some slot := by
      rw [slot_markCallisReplayReady] at at_id
      split at at_id
      · exact ⟨swept, at_id⟩
      · obtain ⟨slot, found, _⟩ := Option.map_eq_some_iff.mp at_id
        exact ⟨slot, found⟩
    obtain ⟨slot, found⟩ := present
    cases (slot_swept inv unwritten found).symm.trans at_id
    have before := LaneState.carrier_sweepSlot carried
    have sane := (inv.lanes id.lane).slot_of_getElem? found
    have occupied : slot.state ≠ .empty := by
      intro empty
      rw [empty] at before
      cases before
    obtain ⟨item, item_eq⟩ := Option.isSome_iff_exists.mp (sane.item_isSome_iff.mpr occupied)
    cases tracked : item.isTracked with
    | true =>
      cases item with
      | ack peerMsgId => cases tracked
      | error peerMsgId frame => cases tracked
      | tracked outbound =>
        rw [LaneState.sweepSlot_of_tracked item_eq before] at carried
        cases carried
    | false =>
      have writing : slot.state = .writing callisId := by
        cases state_eq : slot.state with
        | empty => exact absurd state_eq occupied
        | ready | replayReady _ => simp [state_eq, SlotState.carrier] at before
        | writing holder => simpa [state_eq, SlotState.carrier] using before
        | inflight holder =>
          have kind := (sane.placed item item_eq).trans (sane.retained (by rw [state_eq]; rfl))
          simp [RetainedItem.isTracked, kind] at tracked
      rw [LaneState.sweepSlot_of_response item_eq tracked writing] at carried
      cases carried
  · intro id slot outbound found item_eq onCallis
    have carried : slot.state.carrier = some callisId := by
      rcases onCallis with writing | inflight
      · rw [writing]
        rfl
      · rw [inflight]
        rfl
    have swept := slot_swept inv unwritten found
    rw [LaneState.sweepSlot_of_tracked item_eq carried] at swept
    exact ⟨swept, @claimableAt_swept store callisId id _ inv swept true rfl⟩
  · intro id slot item found item_eq response writing
    have swept := slot_swept inv unwritten found
    rw [LaneState.sweepSlot_of_response item_eq response writing] at swept
    exact ⟨swept, @claimableAt_swept store callisId id _ inv swept false rfl⟩
  · intro id slot found unwriting unsent
    rw [slot_swept inv unwritten found,
      LaneState.sweepSlot_of_elsewhere ((carrier_ne_some_iff _ _).mpr ⟨unwriting, unsent⟩)]

/-- In every reachable state the sweep for a callis is complete exactly if the callis is not writing
an ACK. -/
theorem sweep_complete_iff (reached : system.Reachable store) (callisId : CallisId) :
    SweptClean store (store.markCallisReplayReady callisId) callisId ↔
      ∀ index slot, store.slot ⟨.a1Ack, index⟩ = some slot → slot.state ≠ .writing callisId := by
  constructor
  · intro clean index slot found
    apply (clean.gone ⟨.a1Ack, index⟩ slot _).1
    rw [slot_markCallisReplayReady]
    exact found
  · exact sweptClean_of_unwritten (reachable_invariant reached)

end Sweep

/-- An ERROR response whose callis is lost in the middle of its write is ready again. -/
theorem sweep_complete_iff_error :
    ∃ store slot, system.Reachable store ∧ store.slot ⟨.a1Error, 0⟩ = some slot ∧
      slot.state = .writing 1 ∧
      (store.markCallisReplayReady 1).slot ⟨.a1Error, 0⟩ = some { slot with state := .ready } := by
  have start : system.Reachable (RetainedStore.new ⟨1, 1, 1, 1⟩ 0) := .start ⟨_, _, rfl⟩
  have inserted := start.take (.insertError 5 (.ack 5) 10 0, _) ⟨trivial, rfl⟩
  have claimed := inserted.take (.claimNext 1, _) ⟨trivial, rfl⟩
  have clean := (sweep_complete_iff claimed 1).mpr (by
    intro index slot found
    have one : (RetainedStore.new ⟨1, 1, 1, 1⟩ 0).slot ⟨.a1Ack, index⟩ = some slot := found
    cases index with
    | zero =>
      cases one
      nofun
    | succ index => cases one)
  exact ⟨_, _, claimed, rfl, rfl, (clean.responses ⟨.a1Error, 0⟩ _ _ rfl rfl rfl rfl).1⟩

/-- An ACK whose callis is lost in the middle of its write stays with that callis: it is still
stored, and no callis can claim it. -/
theorem sweep_leaves_ack_writing :
    ∃ store slot, system.Reachable store ∧
      (store.markCallisReplayReady 1).slot ⟨.a1Ack, 0⟩ = some slot ∧
      slot.item = some (.ack 5) ∧ slot.state = .writing 1 ∧
      (store.markCallisReplayReady 1).hasDispatchableWork = false ∧
      ∀ callisId, ((store.markCallisReplayReady 1).claimNext callisId).1 = none := by
  have start : system.Reachable (RetainedStore.new ⟨1, 1, 1, 1⟩ 0) := .start ⟨_, _, rfl⟩
  have inserted := start.take (.insertAck 5 10 0, _) ⟨trivial, rfl⟩
  have claimed := inserted.take (.claimNext 1, _) ⟨trivial, rfl⟩
  exact ⟨_, _, claimed, rfl, rfl, rfl, by decide, fun _ => rfl⟩

end AureliaPeering.Store
