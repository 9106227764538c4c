import AureliaPeering.Store.Invariant

/-!
What the insertions do: a refused insertion leaves the contents alone, an accepted one fills
exactly one vacant slot.  Neither ever panics.
-/

namespace AureliaPeering.Store

open Collections

namespace RetainedStore

/-- A refused insertion leaves the lanes; it may have used up a sequence number. -/
structure Refused (store next : RetainedStore) : Prop where
  nextSeq : next.nextSeq = store.nextSeq ∨ next.nextSeq = LaneState.nextSeq store.nextSeq
  lanes : ∀ lane, next.lane lane = store.lane lane
  deadlines : next.deadlines = store.deadlines

/-- An insertion fills the slot on top of the free list and queues its key last. -/
structure Placed (store next : RetainedStore) (id : SlotId) (slot : RetainedSlot) : Prop where
  room : (store.lane id.lane).available = true
  seq : slot.seq = store.nextSeq
  state : slot.state = .ready
  nextSeq : next.nextSeq = LaneState.nextSeq store.nextSeq
  slots : ∀ other, next.slot other = if other = id then some slot else store.slot other
  ready : ∀ lane, (next.lane lane).ready = if lane = id.lane
    then (store.lane lane).ready ++ [⟨id.index, slot.seq⟩] else (store.lane lane).ready
  replay : ∀ lane, (next.lane lane).replay = (store.lane lane).replay
  free : (store.lane id.lane).free.head? = some id.index
  deadlines : next.deadlines = store.deadlines.push ⟨slot.originalDeadline, id, slot.seq⟩

variable {store : RetainedStore} {lane : RetainedLane} {id : SlotId}

theorem allocate_of_not_available (inv : store.Invariant)
    (full : (store.lane lane).available = false) (item : RetainedItem)
    (deadline now : Instant) :
    ∃ next, store.allocate lane item deadline now = .ok (none, next) ∧ next.Invariant ∧
      next.contents = store.contents ∧ Refused store next := by
  have same : ∀ other, ({ store with nextSeq := LaneState.nextSeq store.nextSeq }.setLane lane
      (store.lane lane)).lane other = store.lane other := by
    intro other
    by_cases here : other = lane <;> simp [here]
  refine ⟨{ store with nextSeq := LaneState.nextSeq store.nextSeq }.setLane lane (store.lane lane),
    ?_, ?_, ?_, .inr (by simp), same, by simp⟩
  · simp only [allocate, lane_with_nextSeq,
      LaneState.allocate_of_not_available item deadline store.nextSeq now full]
  · exact inv.of_contents (fun other => same other ▸ inv.lanes other)
      (contents_congr fun other => congrArg _ (same other)) (by simp) (by simp) (by simp)
  · exact contents_congr fun other => congrArg _ (same other)

theorem allocate_of_available (inv : store.Invariant) (room : (store.lane lane).available = true)
    (item : RetainedItem)
    (belongs : item.kind = lane.kind) (deadline now : Instant) :
    ∃ index identity next,
      store.allocate lane item deadline now = .ok (some (⟨lane, index⟩, identity), next) ∧
      store.contents ⟨lane, index⟩ = none ∧
      (∀ other, (next.lane other).Invariant other) ∧
      next.contents =
        Function.update store.contents ⟨lane, index⟩ (some ⟨item, deadline, store.nextSeq⟩) ∧
      next.tracked = store.tracked ∧ next.responses = store.responses ∧
      Placed store next ⟨lane, index⟩ ⟨some item, deadline, store.nextSeq, .ready⟩ := by
  obtain ⟨index, state, allocated, vacant, sane, entry_eq, slots_eq, ready_eq, replay_eq, top⟩ :=
    LaneState.allocate_of_available (inv.lanes lane) belongs deadline store.nextSeq now room
  let next := { ({ store with nextSeq := LaneState.nextSeq store.nextSeq }).setLane lane state with
    deadlines := store.deadlines.push ⟨deadline, ⟨lane, index⟩, store.nextSeq⟩ }
  have lane_eq : ∀ other, next.lane other = (store.setLane lane state).lane other := by
    intro other
    cases lane <;> cases other <;> rfl
  refine ⟨index, ⟨item.peerMsgId, store.nextSeq, item.kind⟩, next,
    by simp only [allocate, lane_with_nextSeq, allocated, next], vacant, ?_, ?_,
    by simp [next], by simp [next], room, rfl, rfl, by simp [next], ?_, ?_, ?_, top, rfl⟩
  · intro other
    rw [lane_eq]
    exact lanes_setLane inv sane other
  · rw [← contents_setLane_update entry_eq]
    exact contents_congr fun other => congrArg _ (lane_eq other)
  · rintro ⟨other, _⟩
    rw [slot, lane_eq, lane_setLane]
    by_cases same : other = lane
    · subst same
      simp [slots_eq, slot]
    · simp [same, slot]
  · intro other
    rw [lane_eq, lane_setLane]
    by_cases same : other = lane
    · subst same
      simp [ready_eq]
    · simp [same]
  · intro other
    rw [lane_eq, lane_setLane]
    split
    · rename_i same
      rw [replay_eq, same]
    · rfl

/-- The index of the kind `tracked` after a vacant slot is filled with an id it does not list. -/
theorem index_of_inserted {contents : SlotId → Option Entry} {stored : Entry}
    (vacant : contents id = none) (tracked : Bool) {index : HashMap PeerMessageId SlotId}
    (index_iff : ∀ peerMsgId other, index.lookup peerMsgId = some other ↔
      ∃ held, contents other = some held ∧ held.item.isTracked = tracked ∧
        held.item.peerMsgId = peerMsgId)
    (fresh : stored.item.isTracked = tracked → index.lookup stored.item.peerMsgId = none)
    {next : HashMap PeerMessageId SlotId}
    (next_eq : next =
      if stored.item.isTracked = tracked then AList.insert stored.item.peerMsgId id index
      else index)
    (peerMsgId : PeerMessageId) (other : SlotId) :
    next.lookup peerMsgId = some other ↔
      ∃ held, Function.update contents id (some stored) other = some held ∧
        held.item.isTracked = tracked ∧ held.item.peerMsgId = peerMsgId := by
  have unlisted : ∀ name, index.lookup name ≠ some id := by
    intro name listed
    obtain ⟨held, at_id, _⟩ := (index_iff name id).mp listed
    simp [vacant] at at_id
  by_cases kind : stored.item.isTracked = tracked
  · rw [next_eq, if_pos kind, HashMap.lookup_insert_eq]
    by_cases here : other = id
    · subst here
      simp only [Function.update_self, Option.some.injEq, exists_eq_left', kind, true_and]
      split
      · next same => simp [same]
      · next different =>
          exact ⟨fun listed => absurd listed (unlisted _), fun same => absurd same.symm different⟩
    · rw [Function.update_of_ne here, ← index_iff]
      split
      · next same =>
          rw [same, fresh kind]
          simp [Ne.symm here]
      · rfl
  · rw [next_eq, if_neg kind]
    by_cases here : other = id
    · subst here
      simp only [Function.update_self, Option.some.injEq, exists_eq_left', kind, false_and,
        iff_false]
      exact unlisted peerMsgId
    · rw [Function.update_of_ne here, ← index_iff]

/-- Filling a vacant slot and listing its id in its index keeps the invariant. -/
theorem Invariant.of_inserted {next : RetainedStore} (inv : store.Invariant)
    (stored : Entry) (vacant : store.contents id = none)
    (lanes : ∀ lane, (next.lane lane).Invariant lane)
    (contents_eq : next.contents = Function.update store.contents id (some stored))
    (fresh_tracked : stored.item.isTracked = true →
      store.tracked.lookup stored.item.peerMsgId = none)
    (fresh_response : stored.item.isTracked = false →
      store.responses.lookup stored.item.peerMsgId = none)
    (tracked_eq : next.tracked = if stored.item.isTracked = true then
      AList.insert stored.item.peerMsgId id store.tracked else store.tracked)
    (responses_eq : next.responses = if stored.item.isTracked = false then
      AList.insert stored.item.peerMsgId id store.responses else store.responses)
    (deadlines_eq : next.deadlines = store.deadlines.push ⟨stored.deadline, id, stored.seq⟩) :
    next.Invariant where
  lanes := lanes
  tracked_iff := by
    rw [contents_eq]
    exact index_of_inserted vacant true inv.tracked_iff fresh_tracked tracked_eq
  responses_iff := by
    rw [contents_eq]
    exact index_of_inserted vacant false inv.responses_iff fresh_response responses_eq
  deadline_mem := by
    intro other held present
    rw [deadlines_eq, MinHeap.mem_push]
    rw [contents_eq] at present
    by_cases here : other = id
    · subst here
      rw [Function.update_self, Option.some.injEq] at present
      exact .inl (present ▸ rfl)
    · rw [Function.update_of_ne here] at present
      exact .inr (inv.deadline_mem other held present)

/-- Every way `insert_response` can end. -/
theorem insertResponse_cases (inv : store.Invariant)
    (attempted : ResponseKind) {item : RetainedItem}
    (belongs : item.kind = lane.kind) (response : item.isTracked = false) (deadline now : Instant) :
    ∃ outcome next,
      store.insertResponse attempted lane item.peerMsgId deadline item now = .ok (outcome, next) ∧
      next.Invariant ∧
      ((outcome ≠ .inserted ∧ next.contents = store.contents ∧ Refused store next ∧
          (store.shutdown = false → now < deadline →
            store.responses.lookup item.peerMsgId = none → (store.lane lane).available = false)) ∨
        (outcome = .inserted ∧ ∃ id seq, store.contents id = none ∧
          next.contents = Function.update store.contents id (some ⟨item, deadline, seq⟩) ∧
          Placed store next id ⟨some item, deadline, seq, .ready⟩ ∧ id.lane = lane)) := by
  have unchanged : Refused store store := ⟨.inl rfl, fun _ => rfl, rfl⟩
  unfold insertResponse
  by_cases down : store.shutdown = true
  · exact ⟨_, _, if_pos down, inv, .inl ⟨by simp, rfl, unchanged, by simp [down]⟩⟩
  by_cases late : deadline ≤ now
  · exact ⟨_, _, by rw [if_neg down, if_pos late], inv,
      .inl ⟨by simp, rfl, unchanged, fun _ early => absurd late (Nat.not_le.mpr early)⟩⟩
  by_cases listed : (store.responses.lookup item.peerMsgId).isSome = true
  · exact ⟨_, _, by rw [if_neg down, if_neg late, if_pos listed], inv,
      .inl ⟨by simp, rfl, unchanged, fun _ _ unlisted => by simp [unlisted] at listed⟩⟩
  simp only [if_neg down, if_neg late, if_neg listed]
  cases room : (store.lane lane).available with
  | false =>
    obtain ⟨next, allocated, next_inv, contents_eq, refused⟩ :=
      allocate_of_not_available inv room item deadline now
    exact ⟨.full lane item.peerMsgId, next, by rw [allocated], next_inv,
      .inl ⟨by simp, contents_eq, refused, fun _ _ _ => rfl⟩⟩
  | true =>
    obtain ⟨index, _, next, allocated, vacant, lanes, contents_eq, tracked_eq,
      responses_eq, placed⟩ :=
      allocate_of_available inv room item belongs deadline now
    have unlisted : store.responses.lookup item.peerMsgId = none := by simpa using listed
    refine ⟨.inserted, { next with
      responses := AList.insert item.peerMsgId ⟨lane, index⟩ next.responses },
      by rw [allocated], ?_, .inr ⟨rfl, ⟨lane, index⟩, store.nextSeq, vacant, ?_, ?_, rfl⟩⟩
    · refine inv.of_inserted ⟨item, deadline, store.nextSeq⟩ vacant ?_ ?_ (by simp [response])
        (fun _ => unlisted)
        (by simp [response, tracked_eq]) (by simp [response, responses_eq]) placed.deadlines
      · simpa using lanes
      · rw [← contents_eq]
        exact contents_congr (by simp)
    · rw [← contents_eq]
      exact contents_congr (by simp)
    · exact { placed with
        slots := by simpa [slot] using placed.slots
        ready := by simpa using placed.ready
        replay := by simpa using placed.replay }

theorem trackedLane_of_not_a1 {msgType : MessageType} (service : classifyPriority msgType ≠ .a1) :
    ∃ lane, trackedLane msgType = .ok lane ∧ lane.kind = .tracked := by
  unfold trackedLane
  cases tier : classifyPriority msgType with
  | a1 => exact absurd tier service
  | a2 => exact ⟨.a2, rfl, rfl⟩
  | a3 => exact ⟨.a3, rfl, rfl⟩

/-- Every way `insert_tracked` can end: refused with the item handed back and the store as it
was, or accepted into one vacant slot. -/
theorem insertTracked_cases (inv : store.Invariant)
    (tracked : TrackedOutbound) (deadline now : Instant) :
    ∃ result next, store.insertTracked tracked deadline now = .ok (result, next) ∧
      next.Invariant ∧
      ((∃ error, result = .error error ∧ error.tracked = tracked ∧ next = store ∧
          ∀ lane, trackedLane tracked.msgType = .ok lane → store.shutdown = false →
            now < deadline → store.tracked.lookup tracked.peerMsgId = none →
            (store.lane lane).available = false) ∨
        (result = .ok () ∧ ∃ id seq, store.contents id = none ∧
          next.contents =
            Function.update store.contents id (some ⟨.tracked tracked, deadline, seq⟩) ∧
          Placed store next id ⟨some (.tracked tracked), deadline, seq, .ready⟩ ∧
          trackedLane tracked.msgType = .ok id.lane)) := by
  unfold insertTracked
  by_cases down : store.shutdown = true
  · exact ⟨_, _, if_pos down, inv, .inl ⟨_, rfl, rfl, rfl, by simp [down]⟩⟩
  by_cases late : deadline ≤ now
  · exact ⟨_, _, by rw [if_neg down, if_pos late], inv,
      .inl ⟨_, rfl, rfl, rfl, fun _ _ _ early => absurd late (Nat.not_le.mpr early)⟩⟩
  by_cases listed : (store.tracked.lookup tracked.peerMsgId).isSome = true
  · exact ⟨_, _, by rw [if_neg down, if_neg late, if_pos listed], inv,
      .inl ⟨_, rfl, rfl, rfl, fun _ _ _ _ unlisted => by simp [unlisted] at listed⟩⟩
  by_cases control : classifyPriority tracked.msgType = .a1
  · exact ⟨_, _, by rw [if_neg down, if_neg late, if_neg listed, if_pos control], inv,
      .inl ⟨_, rfl, rfl, rfl, by simp [trackedLane, control]⟩⟩
  obtain ⟨lane, lane_eq, kind⟩ := trackedLane_of_not_a1 control
  simp only [if_neg down, if_neg late, if_neg listed, if_neg control, lane_eq]
  cases room : (store.lane lane).available with
  | false =>
    refine ⟨_, _, rfl, inv, .inl ⟨_, rfl, rfl, rfl, fun other isOther _ _ _ => ?_⟩⟩
    cases isOther
    exact room
  | true =>
    obtain ⟨index, _, next, allocated, vacant, lanes, contents_eq, tracked_eq,
      responses_eq, placed⟩ :=
      allocate_of_available inv room (.tracked tracked) kind.symm deadline now
    have unlisted : store.tracked.lookup tracked.peerMsgId = none := by simpa using listed
    refine ⟨.ok (), { next with
      tracked := AList.insert tracked.peerMsgId ⟨lane, index⟩ next.tracked },
      by simp [allocated], ?_, .inr ⟨rfl, ⟨lane, index⟩, store.nextSeq, vacant, ?_, ?_, rfl⟩⟩
    · refine inv.of_inserted ⟨.tracked tracked, deadline, store.nextSeq⟩ vacant ?_ ?_
        (fun _ => unlisted) (by simp)
        (by simp [tracked_eq, RetainedItem.peerMsgId]) (by simp [responses_eq]) placed.deadlines
      · simpa using lanes
      · rw [← contents_eq]
        exact contents_congr (by simp)
    · rw [← contents_eq]
      exact contents_congr (by simp)
    · exact { placed with
        slots := by simpa [slot] using placed.slots
        ready := by simpa using placed.ready
        replay := by simpa using placed.replay }

end RetainedStore

end AureliaPeering.Store
