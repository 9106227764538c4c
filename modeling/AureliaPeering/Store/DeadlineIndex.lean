import Mathlib.Order.Bounds.Basic
import AureliaPeering.Store.Shutdown
import AureliaPeering.Store.SlotFrames

/-!
The deadline heap as an index of the stored items.

The heap keeps the keys of removed items.  Such a key is harmless: it is handled only if its slot
holds an item with the same deadline.
-/

namespace AureliaPeering.Store

open Collections RetainedStore Option

namespace RetainedStore

def isEmpty (store : RetainedStore) : Bool :=
  store.a1Ack.liveCount == 0 && store.a1Error.liveCount == 0 && store.a2.liveCount == 0 &&
    store.a3.liveCount == 0

theorem Invariant.isEmpty_iff {store : RetainedStore} (inv : store.Invariant) :
    store.isEmpty = true ↔ ∀ id, store.contents id = none := by
  simp only [isEmpty, Bool.and_eq_true, beq_iff_eq]
  constructor
  · rintro ⟨⟨⟨acks, errors⟩, second⟩, third⟩ ⟨lane, index⟩
    cases lane with
    | a1Ack => exact (inv.liveCount_eq_zero_iff .a1Ack).mp acks index
    | a1Error => exact (inv.liveCount_eq_zero_iff .a1Error).mp errors index
    | a2 => exact (inv.liveCount_eq_zero_iff .a2).mp second index
    | a3 => exact (inv.liveCount_eq_zero_iff .a3).mp third index
  · intro vacant
    have empty (lane : RetainedLane) : (store.lane lane).liveCount = 0 :=
      (inv.liveCount_eq_zero_iff lane).mpr fun index => vacant ⟨lane, index⟩
    exact ⟨⟨⟨empty .a1Ack, empty .a1Error⟩, empty .a2⟩, empty .a3⟩

/-- The deadlines of the stored items. -/
def storedDeadlines (store : RetainedStore) : Set Instant :=
  { deadline | ∃ id stored, store.contents id = some stored ∧ stored.deadline = deadline }

/-- The effect is the timeout of the message in the slot. -/
def TimesOut (store : RetainedStore) (id : SlotId) (effect : CompletionEffect) : Prop :=
  ∃ stored outbound, store.contents id = some stored ∧ stored.item = .tracked outbound ∧
    effect = ⟨outbound.peerMsgId, outbound.ackTx, .error (.new .sendTimeout)⟩

end RetainedStore

section Expiry

variable {store : RetainedStore}

theorem slot_expireDue (inv : store.Invariant) {now : Instant} {id : SlotId} {slot : RetainedSlot}
    (found : store.slot id = some slot) (occupied : slot.item.isSome = true)
    (pending : now < slot.originalDeadline) : (store.expireDue now).2.slot id = some slot := by
  obtain ⟨item, item_eq⟩ := isSome_iff_exists.mp occupied
  have present : store.contents id = some ⟨item, slot.originalDeadline, slot.seq⟩ :=
    (LaneState.entry_eq_some_iff _ _ _).mpr ⟨slot, found, by simp [RetainedSlot.entry, item_eq]⟩
  have remains := ((expireDue_spec inv now).2.2 id _).mpr ⟨present, pending⟩
  rcases (alters_expireDue store now).slot id with same | ⟨_, at_id, vacant⟩
  · exact same.trans found
  · obtain ⟨_, at_kept, kept_entry⟩ := (LaneState.entry_eq_some_iff _ _ _).mp remains
    cases at_id.symm.trans at_kept
    simp [RetainedSlot.entry, vacant.1] at kept_entry

theorem timeouts_expireDue (inv : store.Invariant) (now : Instant) :
    ∃ ids : List SlotId, ids.Nodup ∧
      (∀ id, id ∈ ids ↔ ∃ stored outbound, store.contents id = some stored ∧
        stored.item = .tracked outbound ∧ stored.deadline ≤ now) ∧
      List.Forall₂ store.TimesOut ids (store.expireDue now).1 := by
  obtain ⟨_, ⟨_, effects_eq, removals⟩, contents_iff⟩ := expireDue_spec inv now
  obtain ⟨ids, distinct, listed, effects⟩ :=
    removals.effects (.error (.new .sendTimeout))
  refine ⟨ids, distinct, ?_, effects_eq ▸ effects⟩
  intro id
  rw [listed]
  constructor
  · rintro ⟨gone, stored, outbound, present, isTracked⟩
    refine ⟨stored, outbound, present, isTracked, ?_⟩
    by_contra pending
    cases gone.symm.trans ((contents_iff id stored).mpr ⟨present, not_le.mp pending⟩)
  · rintro ⟨stored, outbound, present, isTracked, due⟩
    refine ⟨?_, stored, outbound, present, isTracked⟩
    by_contra remains
    obtain ⟨held, at_id⟩ := ne_none_iff_exists'.mp remains
    obtain ⟨before, pending⟩ := (contents_iff id held).mp at_id
    cases present.symm.trans before
    exact absurd due (not_le.mpr pending)

theorem isLeast_nextDeadline (inv : store.Invariant) {deadline : Instant}
    (reported : store.nextDeadline.1 = some deadline) :
    IsLeast store.storedDeadlines deadline := by
  obtain ⟨key, isTop, rfl⟩ := map_eq_some_iff.mp reported
  have live := MinHeap.test_of_peek_popWhile isTop
  rw [Bool.not_eq_eq_eq_not, Bool.not_false] at live
  obtain ⟨stored, present, same, _⟩ := (keyLive_iff inv key).mp live
  constructor
  · exact ⟨key.slot, stored, present, same⟩
  · rintro _ ⟨id, held, at_id, rfl⟩
    have listed := (nextDeadline_invariant inv).deadline_mem id held
      ((nextDeadline_contents store).symm ▸ at_id)
    exact Prod.Lex.monotone_fst key.rank _ (MinHeap.rank_peek_le isTop listed)

theorem nextDeadline_eq_none_iff (inv : store.Invariant) :
    store.nextDeadline.1 = none ↔ store.isEmpty = true := by
  rw [inv.isEmpty_iff]
  constructor
  · intro silent id
    by_contra remains
    obtain ⟨held, at_id⟩ := ne_none_iff_exists'.mp remains
    have listed := (nextDeadline_invariant inv).deadline_mem id held
      ((nextDeadline_contents store).symm ▸ at_id)
    exact MinHeap.not_mem_of_peek (map_eq_none_iff.mp silent) _ listed
  · intro vacant
    by_contra reports
    obtain ⟨deadline, reported⟩ := ne_none_iff_exists'.mp reports
    obtain ⟨id, stored, present, _⟩ := (isLeast_nextDeadline inv reported).1
    cases (vacant id).symm.trans present

/-- In every reachable state, expiry removes what is due and nothing else, completes each message it
removes with a timeout, and the next deadline is the earliest one stored. -/
theorem deadline_index_exact (reached : system.Reachable store) (now : Instant) :
    (∀ id stored, (store.expireDue now).2.contents id = some stored ↔
      store.contents id = some stored ∧ now < stored.deadline) ∧
    (∀ id slot, store.slot id = some slot → slot.item.isSome = true →
      now < slot.originalDeadline → (store.expireDue now).2.slot id = some slot) ∧
    (∃ ids : List SlotId, ids.Nodup ∧
      (∀ id, id ∈ ids ↔ ∃ stored outbound, store.contents id = some stored ∧
        stored.item = .tracked outbound ∧ stored.deadline ≤ now) ∧
      List.Forall₂ store.TimesOut ids (store.expireDue now).1) ∧
    (store.nextDeadline.1 = none ↔ store.isEmpty = true) ∧
    (∀ deadline, store.nextDeadline.1 = some deadline →
      IsLeast store.storedDeadlines deadline) ∧
    (∀ lane, store.nextDeadline.2.lane lane = store.lane lane) := by
  have inv := reachable_invariant reached
  exact ⟨(expireDue_spec inv now).2.2, fun id slot => slot_expireDue inv,
    timeouts_expireDue inv now, nextDeadline_eq_none_iff inv,
    fun deadline => isLeast_nextDeadline inv, fun lane => lane_with_deadlines _ lane _⟩

end Expiry

/-- A message and an ACK are due, another message is not: one timeout, and the deadline of the other
message is the next one although the key of the acknowledged first one is still in the heap. -/
theorem deadline_index_exact_mixed :
    ∃ store, system.Reachable store ∧ store.deadlines.elements.length = 4 ∧
      (store.expireDue 10).1 = [⟨8, 1, .error (.new .sendTimeout)⟩] ∧
      (store.expireDue 10).2.slot ⟨.a3, 2⟩ = store.slot ⟨.a3, 2⟩ ∧
      IsLeast store.storedDeadlines 10 := by
  have start : system.Reachable (RetainedStore.new ⟨1, 1, 1, 3⟩ 0) := .start ⟨_, _, rfl⟩
  have first := start.take (.insertTracked ⟨⟨7, 1, 2, a3MessageTypeBase, 0, []⟩, 0⟩ 5 0, _)
    ⟨trivial, rfl⟩
  have second := first.take (.insertTracked ⟨⟨8, 1, 2, a3MessageTypeBase, 0, []⟩, 1⟩ 10 0, _)
    ⟨trivial, rfl⟩
  have third := second.take (.insertTracked ⟨⟨9, 1, 2, a3MessageTypeBase, 0, []⟩, 2⟩ 20 0, _)
    ⟨trivial, rfl⟩
  have answered := third.take (.insertAck 5 10 0, _) ⟨trivial, rfl⟩
  have acked := answered.take (.ack 7, _) ⟨trivial, rfl⟩
  obtain ⟨_, kept, _, _, least, _⟩ := deadline_index_exact acked 10
  exact ⟨_, acked, rfl, rfl, kept ⟨.a3, 2⟩ _ rfl rfl (by decide), least 10 rfl⟩

end AureliaPeering.Store
