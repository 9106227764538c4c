import AureliaPeering.Store.LaneSteps

/-!
The representation invariant of the retained store.

Abstractly the store is the partial map `contents` from slots to entries.  The two indexes and
the deadline heap are described by what they say about that map, so that an operation has to be
followed only through its effect on the contents.
-/

namespace AureliaPeering.Store

open Collections

/-- An entry whose completion a sender is waiting for. -/
def RetainedItem.isTracked (item : RetainedItem) : Bool := item.kind = .tracked

@[simp]
theorem RetainedItem.isTracked_ack (peerMsgId : PeerMessageId) :
    (RetainedItem.ack peerMsgId).isTracked = false := rfl

@[simp]
theorem RetainedItem.isTracked_error (peerMsgId : PeerMessageId) (frame : OutboundFrame) :
    (RetainedItem.error peerMsgId frame).isTracked = false := rfl

@[simp]
theorem RetainedItem.isTracked_tracked (outbound : TrackedOutbound) :
    (RetainedItem.tracked outbound).isTracked = true := rfl

namespace RetainedStore

def contents (store : RetainedStore) (id : SlotId) : Option Entry :=
  (store.lane id.lane).entry id.index

/-- The representation invariant of the store. -/
structure Invariant (store : RetainedStore) : Prop where
  lanes : ∀ lane, (store.lane lane).Invariant lane
  tracked_iff : ∀ peerMsgId id, store.tracked.lookup peerMsgId = some id ↔
    ∃ stored, store.contents id = some stored ∧ stored.item.isTracked = true ∧
      stored.item.peerMsgId = peerMsgId
  responses_iff : ∀ peerMsgId id, store.responses.lookup peerMsgId = some id ↔
    ∃ stored, store.contents id = some stored ∧ stored.item.isTracked = false ∧
      stored.item.peerMsgId = peerMsgId
  deadline_mem : ∀ id stored, store.contents id = some stored →
    ⟨stored.deadline, id, stored.seq⟩ ∈ store.deadlines

variable {next store : RetainedStore} {lane : RetainedLane} {state : LaneState} {id : SlotId}
  {stored : Entry}

section Frames

variable (store lane state)

@[simp]
theorem lane_setLane (other : RetainedLane) :
    (store.setLane lane state).lane other = if other = lane then state else store.lane other := by
  cases lane <;> cases other <;> rfl

@[simp]
theorem tracked_setLane : (store.setLane lane state).tracked = store.tracked := by
  cases lane <;> rfl

@[simp]
theorem responses_setLane : (store.setLane lane state).responses = store.responses := by
  cases lane <;> rfl

@[simp]
theorem deadlines_setLane : (store.setLane lane state).deadlines = store.deadlines := by
  cases lane <;> rfl

@[simp]
theorem nextSeq_setLane : (store.setLane lane state).nextSeq = store.nextSeq := by
  cases lane <;> rfl

@[simp]
theorem shutdown_setLane : (store.setLane lane state).shutdown = store.shutdown := by
  cases lane <;> rfl

@[simp]
theorem lane_with_tracked (index : HashMap PeerMessageId SlotId) :
    { store with tracked := index }.lane lane = store.lane lane := by
  cases lane <;> rfl

@[simp]
theorem lane_with_responses (index : HashMap PeerMessageId SlotId) :
    { store with responses := index }.lane lane = store.lane lane := by
  cases lane <;> rfl

@[simp]
theorem lane_with_deadlines (deadlines : MinHeap DeadlineKey.rank) :
    { store with deadlines := deadlines }.lane lane = store.lane lane := by
  cases lane <;> rfl

@[simp]
theorem lane_with_nextSeq (nextSeq : Nat) :
    { store with nextSeq := nextSeq }.lane lane = store.lane lane := by
  cases lane <;> rfl

@[simp]
theorem lane_with_shutdown (shutdown : Bool) :
    { store with shutdown := shutdown }.lane lane = store.lane lane := by
  cases lane <;> rfl

end Frames

theorem contents_congr (same : ∀ lane, (next.lane lane).entry = (store.lane lane).entry) :
    next.contents = store.contents := by
  funext id
  simp [contents, same]

theorem contents_setLane_update {index : Nat} {value : Option Entry}
    (updated : state.entry = Function.update (store.lane lane).entry index value) :
    (store.setLane lane state).contents = Function.update store.contents ⟨lane, index⟩ value := by
  funext ⟨other, position⟩
  by_cases same : other = lane
  · subst same
    by_cases here : position = index
    · subst here
      simp [contents, updated]
    · simp [contents, updated, here]
  · have different : (⟨other, position⟩ : SlotId) ≠ ⟨lane, index⟩ := by simp [same]
    simp [contents, same, different]

theorem lanes_setLane (inv : store.Invariant) (sane : state.Invariant lane) (other : RetainedLane) :
    ((store.setLane lane state).lane other).Invariant other := by
  by_cases same : other = lane
  · subst same
    simpa using sane
  · simpa [same] using inv.lanes other

/-- An operation that keeps the contents and the indexes keeps the invariant, as long as the
heap keeps the keys of what is stored. -/
theorem Invariant.of_contents (inv : store.Invariant)
    (lanes : ∀ lane, (next.lane lane).Invariant lane)
    (contents_eq : next.contents = store.contents) (tracked_eq : next.tracked = store.tracked)
    (responses_eq : next.responses = store.responses)
    (deadlines : ∀ id stored, store.contents id = some stored →
      (⟨stored.deadline, id, stored.seq⟩ : DeadlineKey) ∈ store.deadlines →
      (⟨stored.deadline, id, stored.seq⟩ : DeadlineKey) ∈ next.deadlines) :
    next.Invariant where
  lanes := lanes
  tracked_iff := by
    rw [contents_eq, tracked_eq]
    exact inv.tracked_iff
  responses_iff := by
    rw [contents_eq, responses_eq]
    exact inv.responses_iff
  deadline_mem := by
    rw [contents_eq]
    exact fun id stored present => deadlines id stored present (inv.deadline_mem id stored present)

theorem Invariant.setLane (inv : store.Invariant) (sane : state.Invariant lane)
    (entry_eq : state.entry = (store.lane lane).entry) : (store.setLane lane state).Invariant := by
  refine inv.of_contents (lanes_setLane inv sane) (contents_congr fun other => ?_) (by simp)
    (by simp) (by simp)
  by_cases same : other = lane
  · subst same
    simpa using entry_eq
  · simp [same]

theorem contents_setLane (entry_eq : state.entry = (store.lane lane).entry) :
    (store.setLane lane state).contents = store.contents := by
  refine contents_congr fun other => ?_
  by_cases same : other = lane
  · subst same
    simpa using entry_eq
  · simp [same]

theorem removeBySlot_of_none
    (vacant : store.contents id = none) : store.removeBySlot id = none := by
  simp [removeBySlot, LaneState.removeSlot_of_none id.index vacant]

/-- Two slots never hold the same id in the same index. -/
theorem Invariant.eq_of_same_id (inv : store.Invariant) {other : SlotId}
    {held : Entry} (present : store.contents id = some stored)
    (at_other : store.contents other = some held)
    (same_index : stored.item.isTracked = held.item.isTracked)
    (same_id : stored.item.peerMsgId = held.item.peerMsgId) : id = other := by
  cases kind : held.item.isTracked with
  | true =>
    have first := (inv.tracked_iff held.item.peerMsgId id).mpr
      ⟨stored, present, same_index.trans kind, same_id⟩
    have second := (inv.tracked_iff held.item.peerMsgId other).mpr ⟨held, at_other, kind, rfl⟩
    exact Option.some.inj (first.symm.trans second)
  | false =>
    have first := (inv.responses_iff held.item.peerMsgId id).mpr
      ⟨stored, present, same_index.trans kind, same_id⟩
    have second := (inv.responses_iff held.item.peerMsgId other).mpr ⟨held, at_other, kind, rfl⟩
    exact Option.some.inj (first.symm.trans second)

/-- The index of the kind `tracked` after the slot `id` is vacated: the id it held is gone, and
nothing else changes. -/
theorem index_of_removed (inv : store.Invariant) (present : store.contents id = some stored)
    (tracked : Bool)
    {index : HashMap PeerMessageId SlotId}
    (index_iff : ∀ peerMsgId other, index.lookup peerMsgId = some other ↔
      ∃ held, store.contents other = some held ∧ held.item.isTracked = tracked ∧
        held.item.peerMsgId = peerMsgId)
    {next : HashMap PeerMessageId SlotId}
    (next_eq : next =
      if stored.item.isTracked = tracked then AList.erase stored.item.peerMsgId index else index)
    (peerMsgId : PeerMessageId) (other : SlotId) :
    next.lookup peerMsgId = some other ↔
      ∃ held, Function.update store.contents id none other = some held ∧
        held.item.isTracked = tracked ∧ held.item.peerMsgId = peerMsgId := by
  by_cases here : other = id
  · subst here
    simp only [Function.update_self, reduceCtorEq, false_and, exists_false, iff_false]
    intro listed
    by_cases kind : stored.item.isTracked = tracked
    · rw [next_eq, if_pos kind, HashMap.lookup_erase_eq] at listed
      split at listed
      · simp at listed
      · next different =>
          obtain ⟨held, at_other, _, held_id⟩ := (index_iff _ _).mp listed
          rw [present, Option.some.injEq] at at_other
          exact different (at_other ▸ held_id.symm)
    · rw [next_eq, if_neg kind] at listed
      obtain ⟨held, at_other, held_kind, _⟩ := (index_iff _ _).mp listed
      rw [present, Option.some.injEq] at at_other
      exact kind (at_other ▸ held_kind)
  · rw [Function.update_of_ne here, ← index_iff]
    by_cases kind : stored.item.isTracked = tracked
    · rw [next_eq, if_pos kind, HashMap.lookup_erase_eq]
      split
      · next same =>
          simp only [reduceCtorEq, false_iff]
          intro listed
          obtain ⟨held, at_other, held_kind, held_id⟩ := (index_iff _ _).mp listed
          exact here (inv.eq_of_same_id at_other present (held_kind.trans kind.symm)
            (held_id.trans same))
      · rfl
    · rw [next_eq, if_neg kind]

theorem removeBySlot_of_some (inv : store.Invariant) (present : store.contents id = some stored) :
    ∃ next, store.removeBySlot id = some (stored.item, next) ∧ next.Invariant ∧
      next.contents = Function.update store.contents id none ∧
      next.deadlines = store.deadlines ∧ next.shutdown = store.shutdown := by
  obtain ⟨state, removed, sane, entry_eq⟩ :=
    LaneState.removeSlot_of_some (inv.lanes id.lane) present
  have contents_eq := contents_setLane_update entry_eq
  obtain ⟨next, next_eq, lanes_eq, tracked_eq, responses_eq, deadlines_eq, shutdown_eq⟩ :
      ∃ next, store.removeBySlot id = some (stored.item, next) ∧
        next.lane = (store.setLane id.lane state).lane ∧
        next.tracked = (if stored.item.isTracked = true then
          AList.erase stored.item.peerMsgId store.tracked else store.tracked) ∧
        next.responses = (if stored.item.isTracked = false then
          AList.erase stored.item.peerMsgId store.responses else store.responses) ∧
        next.deadlines = store.deadlines ∧ next.shutdown = store.shutdown := by
    unfold removeBySlot
    rw [removed]
    cases stored.item with
    | ack peerMsgId | error peerMsgId frame =>
      refine ⟨_, rfl, ?_, by simp, by simp [RetainedItem.peerMsgId], by simp, by simp⟩
      funext lane
      exact lane_with_responses _ lane _
    | tracked outbound =>
      refine ⟨_, rfl, ?_, by simp [RetainedItem.peerMsgId], by simp, by simp, by simp⟩
      funext lane
      exact lane_with_tracked _ lane _
  have next_contents : next.contents = Function.update store.contents id none := by
    rw [← contents_eq]
    funext other
    simp only [contents, lanes_eq]
  refine ⟨next, next_eq, ?_, next_contents, deadlines_eq, shutdown_eq⟩
  exact {
    lanes := fun lane => lanes_eq ▸ lanes_setLane inv sane lane
    tracked_iff := by
      rw [next_contents]
      exact index_of_removed inv present true inv.tracked_iff tracked_eq
    responses_iff := by
      rw [next_contents]
      exact index_of_removed inv present false inv.responses_iff responses_eq
    deadline_mem := by
      intro other held at_other
      rw [next_contents] at at_other
      rw [deadlines_eq]
      by_cases here : other = id
      · subst here
        simp at at_other
      · rw [Function.update_of_ne here] at at_other
        exact inv.deadline_mem other held at_other }

end RetainedStore

end AureliaPeering.Store
