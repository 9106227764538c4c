import AureliaPeering.Store.SlotFrames

/-!
The callis that carry the messages of a store.

Only a claim puts a message on a callis, and the sweep for a callis takes every message off it.
-/

namespace AureliaPeering.Store

open Collections RetainedStore List

namespace LaneState

def Carries (state : LaneState) (callisId : CallisId) : Prop :=
  ∃ slot ∈ state.slots, slot.state.carrier = some callisId

section Carries

variable {state next : LaneState} {callisId : CallisId}

theorem Carries.of_alters {described : RetainedSlot → Prop}
    (elsewhere : ∀ slot, described slot → slot.state.carrier ≠ some callisId)
    (alters : state.Alters described next) (carries : next.Carries callisId) :
    state.Carries callisId := by
  obtain ⟨slot, listed, isCarrier⟩ := carries
  obtain ⟨index, found⟩ := mem_iff_getElem?.mp listed
  rcases alters index with same | ⟨_, isNew, isDescribed⟩
  · exact ⟨slot, mem_of_getElem? (same.symm.trans found), isCarrier⟩
  · cases found.symm.trans isNew
    exact absurd isCarrier (elsewhere slot isDescribed)

theorem carrier_sweepSlot {other : CallisId} {slot : RetainedSlot}
    (carries : (sweepSlot other slot).state.carrier = some callisId) :
    slot.state.carrier = some callisId := by
  rcases sweepSlot_cases other slot with same | idle
  · rw [same] at carries
    exact carries
  · cases carries.symm.trans idle

theorem not_carries_sweep {lane : RetainedLane} (inv : state.Invariant lane)
    (messages : lane.isA1 = false) : ¬(state.sweep callisId).Carries callisId := by
  rintro ⟨_, listed, isCarrier⟩
  obtain ⟨slot, isSlot, rfl⟩ := mem_map.mp listed
  have before := carrier_sweepSlot isCarrier
  obtain ⟨_, found⟩ := mem_iff_getElem?.mp isSlot
  have sane := inv.slot_of_getElem? found
  have occupied : slot.state ≠ .empty := by
    intro empty
    rw [empty] at before
    cases before
  obtain ⟨item, isItem⟩ := Option.isSome_iff_exists.mp (sane.item_isSome_iff.mpr occupied)
  have kind := sane.placed item isItem
  cases item with
  | ack peerMsgId =>
    cases lane <;> simp_all [RetainedLane.isA1, RetainedLane.kind, RetainedItem.kind]
  | error peerMsgId frame =>
    cases lane <;> simp_all [RetainedLane.isA1, RetainedLane.kind, RetainedItem.kind]
  | tracked outbound =>
    cases state_eq : slot.state with
    | empty => exact occupied state_eq
    | ready | replayReady _ => simp [state_eq, SlotState.carrier] at before
    | writing holder | inflight holder =>
      obtain rfl : holder = callisId := by simpa [state_eq, SlotState.carrier] using before
      simp [sweepSlot, sweptState, state_eq, isItem, SlotState.carrier] at isCarrier

end Carries

end LaneState

namespace RetainedStore

def Carries (store : RetainedStore) (callisId : CallisId) : Prop :=
  ∃ lane, lane.isA1 = false ∧ (store.lane lane).Carries callisId

section Carries

variable {store next : RetainedStore} {callisId : CallisId}

theorem carries_of_tracked (inv : store.Invariant) {id : SlotId} {slot : RetainedSlot}
    {outbound : TrackedOutbound} (found : store.slot id = some slot)
    (isTracked : slot.item = some (.tracked outbound))
    (isCarrier : slot.state.carrier = some callisId) : store.Carries callisId := by
  have kind := ((inv.lanes id.lane).slot_of_getElem? found).placed _ isTracked
  refine ⟨id.lane, ?_, slot, mem_of_getElem? found, isCarrier⟩
  cases lane_eq : id.lane <;> simp_all [RetainedLane.kind, RetainedItem.kind, RetainedLane.isA1]

theorem Carries.of_alters {described : RetainedSlot → Prop}
    (elsewhere : ∀ slot, described slot → slot.state.carrier ≠ some callisId)
    (alters : store.Alters described next) (carries : next.Carries callisId) :
    store.Carries callisId := by
  obtain ⟨lane, messages, inLane⟩ := carries
  exact ⟨lane, messages, inLane.of_alters elsewhere (alters lane)⟩

theorem Carries.of_idle (alters : store.Alters RetainedSlot.Idle next)
    (carries : next.Carries callisId) : store.Carries callisId := by
  apply carries.of_alters _ alters
  intro slot idle isCarrier
  cases idle.symm.trans isCarrier

theorem Carries.of_completeWrite {claim : RetainedClaim} {result : Except AureliaError Unit}
    (carries : (store.completeWrite claim result).2.Carries callisId) :
    store.Carries callisId := by
  rcases completeWrite_slots store claim result with
    unchanged | ⟨slot, found, written, idle | sent⟩
  · rw [unchanged] at carries
    exact carries
  · exact carries.of_idle idle
  · obtain ⟨lane, messages, held, listed, isCarrier⟩ := carries
    obtain ⟨index, at_index⟩ := mem_iff_getElem?.mp listed
    have at_id := (sent ⟨lane, index⟩).symm.trans at_index
    refine ⟨lane, messages, ?_⟩
    split at at_id
    · rename_i here
      rw [← here] at found
      refine ⟨slot, mem_of_getElem? found, ?_⟩
      cases at_id
      rw [written.1]
      exact isCarrier
    · exact ⟨held, mem_of_getElem? at_id, isCarrier⟩

theorem not_carries_markCallisReplayReady (inv : store.Invariant) :
    ¬(store.markCallisReplayReady callisId).Carries callisId := by
  rintro ⟨lane, messages, inLane⟩
  have sane := inv.lanes lane
  cases lane with
  | a1Ack | a1Error => cases messages
  | a2 | a3 => exact LaneState.not_carries_sweep sane messages inLane

theorem Carries.of_claimLanes {lanes : List RetainedLane} {claimer : CallisId}
    (carries : (claimLanes claimer lanes store).2.Carries callisId) :
    store.Carries callisId ∨ callisId = claimer := by
  by_cases same : callisId = claimer
  · exact .inr same
  · apply Or.inl
    apply carries.of_alters _ (alters_of_tries (claimLanes_tries claimer lanes store))
    intro slot writing isCarrier
    rw [writing] at isCarrier
    exact same (Option.some.inj isCarrier).symm

theorem not_carries_failAll (inv : store.Invariant) (error : AureliaError) {order : List SlotId}
    (ordered : store.tracked.ValueOrder order) :
    ¬(store.failAll error order).2.Carries callisId := by
  obtain ⟨next_inv, _, contents_eq⟩ := removeSlots_spec order inv
  rintro ⟨lane, _, slot, listed, isCarrier⟩
  obtain ⟨index, found⟩ := mem_iff_getElem?.mp listed
  have sane := (next_inv.lanes lane).slot_of_getElem? found
  have occupied : slot.state ≠ .empty := by
    intro empty
    rw [empty] at isCarrier
    cases isCarrier
  obtain ⟨item, isItem⟩ := Option.isSome_iff_exists.mp (sane.item_isSome_iff.mpr occupied)
  have present : (removeSlots order store).2.contents ⟨lane, index⟩ =
      some ⟨item, slot.originalDeadline, slot.seq⟩ :=
    (LaneState.entry_eq_some_iff _ _ _).mpr ⟨slot, found, by simp [RetainedSlot.entry, isItem]⟩
  have kind := sane.placed item isItem
  have isTracked : item.isTracked = true := by
    cases lane <;> simp_all [RetainedLane.isA1, RetainedLane.kind, RetainedItem.isTracked]
  rw [contents_eq] at present
  split at present
  · cases present
  · rename_i unlisted
    refine unlisted ((ordered.mem_iff _).mpr ⟨item.peerMsgId, ?_⟩)
    exact (inv.tracked_iff _ _).mpr ⟨_, present, isTracked, rfl⟩

end Carries

end RetainedStore

theorem carries_of_step {store next : RetainedStore} {op : Op} {output : Output}
    (inv : store.Invariant) (performed : step store op = .ok (output, next)) {callisId : CallisId}
    (carries : next.Carries callisId) : store.Carries callisId ∨ op = .claimNext callisId := by
  by_cases claims : ∃ claimer, op = .claimNext claimer
  · obtain ⟨claimer, rfl⟩ := claims
    simp only [step, Except.ok.injEq, Prod.mk.injEq] at performed
    obtain ⟨_, rfl⟩ := performed
    rcases RetainedStore.Carries.of_claimLanes carries with old | rfl
    · exact .inl old
    · exact .inr rfl
  by_cases completes : ∃ claim result, op = .completeWrite claim result
  · obtain ⟨claim, result, rfl⟩ := completes
    cases performed
    exact .inl carries.of_completeWrite
  · apply Or.inl
    apply carries.of_idle
    apply step_alters inv performed
    · exact fun claimer same => claims ⟨claimer, same⟩
    · exact fun claim result same => completes ⟨claim, result, same⟩

end AureliaPeering.Store
