import AureliaPeering.Store.LaneInvariant

/-!
The lane operations that fill, empty and requeue slots, described by their effect on the
contents of the lane.
-/

namespace AureliaPeering.Store

open List Option

@[simp]
theorem SlotState.claimable_empty (replay : Bool) : SlotState.empty.claimable replay = false := rfl

@[simp]
theorem SlotState.claimable_writing (callisId : CallisId) (replay : Bool) :
    (SlotState.writing callisId).claimable replay = false := rfl

@[simp]
theorem SlotState.claimable_inflight (callisId : CallisId) (replay : Bool) :
    (SlotState.inflight callisId).claimable replay = false := rfl

@[simp]
theorem SlotState.claimable_ready (replay : Bool) :
    SlotState.ready.claimable replay = !replay := rfl

@[simp]
theorem SlotState.claimable_replayReady (callisId : CallisId) (replay : Bool) :
    (SlotState.replayReady callisId).claimable replay = replay := rfl

@[simp]
theorem SlotState.retained_empty : SlotState.empty.retained = false := rfl

@[simp]
theorem SlotState.retained_ready : SlotState.ready.retained = false := rfl

@[simp]
theorem SlotState.retained_writing (callisId : CallisId) :
    (SlotState.writing callisId).retained = false := rfl

theorem SlotState.retained_of_claimable {state : SlotState} (claimable : state.claimable true) :
    state.retained = true := by
  cases state <;> simp_all [SlotState.retained]

namespace LaneState

variable {lane : RetainedLane} {state : LaneState}

variable {index : Nat} {slot : RetainedSlot} {next : LaneState} {slots : List RetainedSlot}
  {replay : Bool} {keys queue : List QueueKey} {key : QueueKey} {target : SlotState}
  {callisId : CallisId}

/-- A lane with room has an empty slot on its free list, so `allocate` never has to grow. -/
theorem Invariant.free_ne_nil (inv : state.Invariant lane) (room : state.available = true) :
    state.free ≠ [] := by
  intro none_free
  have room : state.liveCount < state.targetCapacity := by simpa [available] using room
  have full : occupied state.slots = state.slots.length := by
    refine countP_eq_length.mpr fun slot membership => ?_
    obtain ⟨index, found⟩ := mem_iff_getElem?.mp membership
    have unlisted := (inv.mem_free_iff index).not.mp (by simp [none_free])
    simpa using fun empty => unlisted ⟨slot, found, empty⟩
  have live := inv.liveCount_eq
  have bound := inv.target_le
  omega

theorem Invariant.entry_eq_none (inv : state.Invariant lane)
    (found : state.slots[index]? = some slot) (empty : slot.state = .empty) :
    state.entry index = none := by
  have vacant : slot.item = none := by
    have iff := (inv.slot_of_getElem? found).item_isSome_iff
    simpa [empty] using iff
  simp [entry, found, RetainedSlot.entry, vacant]

theorem allocate_of_not_available (item : RetainedItem) (deadline : Instant) (seq : Nat)
    (now : Instant) (full : state.available = false) :
    state.allocate item deadline seq now = .ok (none, state) := by
  simp [allocate, full]

theorem allocate_of_available (inv : state.Invariant lane) {item : RetainedItem}
    (belongs : item.kind = lane.kind) (deadline : Instant) (seq : Nat) (now : Instant)
    (room : state.available = true) :
    ∃ index next, state.allocate item deadline seq now =
        .ok (some (⟨lane, index⟩, ⟨item.peerMsgId, seq, item.kind⟩), next) ∧
      state.entry index = none ∧ next.Invariant lane ∧
      next.entry = Function.update state.entry index (some ⟨item, deadline, seq⟩) ∧
      (∀ other, next.slots[other]? =
        if other = index then some ⟨some item, deadline, seq, .ready⟩ else state.slots[other]?) ∧
      next.ready = state.ready ++ [⟨index, seq⟩] ∧ next.replay = state.replay ∧
      state.free.head? = some index := by
  obtain ⟨index, rest, free_eq⟩ := exists_cons_of_ne_nil (inv.free_ne_nil room)
  obtain ⟨_, found, empty⟩ := (inv.mem_free_iff index).mp (by simp [free_eq])
  have nodup := inv.free_nodup
  rw [free_eq, nodup_cons] at nodup
  refine ⟨index, { state with
    slots := state.slots.set index ⟨some item, deadline, seq, .ready⟩
    free := rest
    liveCount := state.liveCount + 1
    ready := state.ready ++ [⟨index, seq⟩] }, ?_, inv.entry_eq_none found empty, ?_, ?_,
    getElem?_set_of_found found _, rfl, rfl, by rw [free_eq]; rfl⟩
  · simp [allocate, room, takeIndex, free_eq, found, setSlot, RetainedSlot.identity, inv.name]
  · refine inv.of_set found ⟨some item, deadline, seq, .ready⟩ ?_ rfl rfl rfl nodup.2
      ?_ ?_ ?_ ?_ ?_
    · exact ⟨by simp, by simpa using belongs, by simp⟩
    · intro other
      by_cases same : other = index
      · simp [same, nodup.1]
      · simp [same, free_eq]
    · have counted := occupied_set found ⟨some item, deadline, seq, .ready⟩
      simp only [empty, if_true, reduceCtorEq, if_false, Nat.add_zero] at counted
      rw [counted, ← inv.liveCount_eq]
    · intro replay claimable
      cases replay with
      | true => simp at claimable
      | false => simp [queue]
    · intro replay other slot _ at_other claimable
      have listed := inv.queued replay other slot at_other claimable
      cases replay with
      | true => exact listed
      | false => exact mem_append_left _ listed
    · intro replay key membership
      cases replay with
      | true => exact .inr membership
      | false =>
        rcases mem_append.mp membership with kept | fresh
        · exact .inr kept
        · exact .inl (by rw [mem_singleton.mp fresh])
  · exact entry_of_set found ⟨some item, deadline, seq, .ready⟩ rfl

theorem removeSlot_of_none (index : Nat) (vacant : state.entry index = none) :
    state.removeSlot index = none := by
  cases found : state.slots[index]? with
  | none => simp [removeSlot, found]
  | some slot =>
    have missing : slot.item = none := by
      simpa [entry, found, RetainedSlot.entry] using vacant
    simp [removeSlot, found, missing]

theorem removeSlot_of_some (inv : state.Invariant lane) {stored : Entry}
    (present : state.entry index = some stored) :
    ∃ next, state.removeSlot index = some (stored.item, next) ∧ next.Invariant lane ∧
      next.entry = Function.update state.entry index none := by
  obtain ⟨slot, found, stored_eq⟩ := (entry_eq_some_iff state index stored).mp present
  obtain ⟨item, item_eq, rfl⟩ : ∃ item, slot.item = some item ∧
      (⟨item, slot.originalDeadline, slot.seq⟩ : Entry) = stored := by
    simpa [RetainedSlot.entry, map_eq_some_iff] using stored_eq
  have live : slot.state ≠ .empty :=
    (inv.slot_of_getElem? found).item_isSome_iff.mp (by simp [item_eq])
  refine ⟨_, by simp only [removeSlot, found, item_eq]; rfl, ?_,
    entry_of_set found { slot with item := none, state := .empty, seq := nextSeq slot.seq } rfl⟩
  refine inv.of_set found
    { slot with item := none, state := .empty, seq := nextSeq slot.seq }
    ⟨by simp, by simp, by simp⟩ rfl rfl rfl ?_ ?_ ?_ (by simp) ?_ ?_
  · refine nodup_cons.mpr ⟨fun listed => ?_, inv.free_nodup⟩
    obtain ⟨other, other_found, empty⟩ := (inv.mem_free_iff index).mp listed
    rw [found, some.injEq] at other_found
    exact live (other_found ▸ empty)
  · intro other
    by_cases same : other = index
    · simp [same]
    · simp [same]
  · have counted := occupied_set found
      { slot with item := none, state := .empty, seq := nextSeq slot.seq }
    simp only [live, if_true, if_false, Nat.add_zero, ← inv.liveCount_eq] at counted
    change state.liveCount - 1 = _
    omega
  · intro replay other slot _ at_other claimable
    exact inv.queued replay other slot at_other claimable
  · intro replay key membership
    exact .inr membership

theorem entry_of_setState (found : state.slots[index]? = some slot) (target : SlotState)
    (slots_eq : next.slots = state.slots.set index { slot with state := target }) :
    next.entry = state.entry := by
  rw [entry_of_set found _ slots_eq]
  funext other
  by_cases same : other = index
  · subst same
    simp [entry, found, RetainedSlot.entry]
  · simp [same]

theorem Invariant.of_setState (inv : state.Invariant lane) (found : state.slots[index]? = some slot)
    (occupied_slot : slot.state ≠ .empty) (target : SlotState) (filled : target ≠ .empty)
    (sent : target.retained = true → lane.kind = .tracked)
    (name_eq : next.lane = state.lane)
    (slots_eq : next.slots = state.slots.set index { slot with state := target })
    (target_eq : next.targetCapacity = state.targetCapacity)
    (free_eq : next.free = state.free) (live_eq : next.liveCount = state.liveCount)
    (own : ∀ replay, target.claimable replay → ⟨index, slot.seq⟩ ∈ next.queue replay)
    (others : ∀ replay other slot, other ≠ index → state.slots[other]? = some slot →
      slot.state.claimable replay → ⟨other, slot.seq⟩ ∈ next.queue replay)
    (range : ∀ replay, ∀ key ∈ next.queue replay, key.index = index ∨ key ∈ state.queue replay) :
    next.Invariant lane := by
  have sane := inv.slot_of_getElem? found
  refine inv.of_set found { slot with state := target }
    ⟨?_, sane.placed, sent⟩ name_eq slots_eq target_eq (free_eq ▸ inv.free_nodup)
    ?_ ?_ own others range
  · simpa [filled, occupied_slot] using sane.item_isSome_iff
  · intro other
    rw [free_eq]
    by_cases same : other = index
    · subst same
      simp only [if_true, filled, iff_false]
      intro listed
      obtain ⟨_, other_found, empty⟩ := (inv.mem_free_iff other).mp listed
      rw [found, some.injEq] at other_found
      exact occupied_slot (other_found ▸ empty)
    · simp [same]
  · have counted := occupied_set found { slot with state := target }
    simp only [occupied_slot, filled, if_false, Nat.add_right_cancel_iff] at counted
    rw [live_eq, counted, inv.liveCount_eq]

/-- A scan drops stale keys until it stops at a live one, at a key without a slot, or at the end. -/
theorem scanQueue_cases {result : Option (QueueKey × RetainedSlot)}
    (scan : scanQueue slots replay keys = (queue, result)) :
    ∃ dropped, (∀ key ∈ dropped, ∀ slot, slots[key.index]? = some slot →
        ¬ (slot.seq = key.seq ∧ slot.state.claimable replay = true)) ∧
      (keys = dropped ∧ queue = [] ∧ result = none ∨
        ∃ key, keys = dropped ++ key :: queue ∧ (slots[key.index]? = none ∧ result = none ∨
          ∃ slot, slots[key.index]? = some slot ∧
            (slot.seq = key.seq ∧ slot.state.claimable replay = true) ∧
            result = some (key, slot))) := by
  induction keys with
  | nil =>
    cases scan
    exact ⟨[], nofun, .inl ⟨rfl, rfl, rfl⟩⟩
  | cons head rest ih =>
    simp only [scanQueue] at scan
    split at scan
    · cases scan
      exact ⟨[], nofun, .inr ⟨head, rfl, .inl ⟨‹_›, rfl⟩⟩⟩
    · next slot found =>
        split_ifs at scan with live
        · cases scan
          exact ⟨[], nofun, .inr ⟨head, rfl, .inr ⟨slot, found, live, rfl⟩⟩⟩
        · obtain ⟨dropped, stale, stopped⟩ := ih scan
          refine ⟨head :: dropped, forall_mem_cons.mpr ⟨?_, stale⟩, ?_⟩
          · intro other isOther
            cases found.symm.trans isOther
            exact live
          · apply stopped.imp
            · rintro ⟨rfl, ended⟩
              exact ⟨rfl, ended⟩
            · rintro ⟨key, rfl, reason⟩
              exact ⟨key, rfl, reason⟩

theorem scanQueue_sublist {result : Option (QueueKey × RetainedSlot)}
    (scan : scanQueue slots replay keys = (queue, result)) : queue.Sublist keys := by
  obtain ⟨dropped, _, ⟨_, rfl, _⟩ | ⟨key, rfl, _⟩⟩ := scanQueue_cases scan
  · exact nil_sublist keys
  · exact (sublist_cons_self key queue).trans (sublist_append_right dropped _)

theorem scanQueue_found (scan : scanQueue slots replay keys = (queue, some (key, slot))) :
    slots[key.index]? = some slot ∧ slot.seq = key.seq ∧ slot.state.claimable replay := by
  obtain ⟨_, _, ⟨_, _, nothing⟩ | ⟨_, _, ⟨_, nothing⟩ | ⟨_, found, live, same⟩⟩⟩ :=
    scanQueue_cases scan
  · cases nothing
  · cases nothing
  · cases same
    exact ⟨found, live⟩

theorem scanQueue_kept {result : Option (QueueKey × RetainedSlot)}
    (scan : scanQueue slots replay keys = (queue, result)) (listed : key ∈ keys)
    (found : slots[key.index]? = some slot) (current : slot.seq = key.seq)
    (claimable : slot.state.claimable replay) : key ∈ queue ∨ result = some (key, slot) := by
  obtain ⟨dropped, stale, stopped⟩ := scanQueue_cases scan
  have fresh : key ∉ dropped := fun dead => stale key dead slot found ⟨current, claimable⟩
  rcases stopped with ⟨rfl, _⟩ | ⟨last, rfl, stopped⟩
  · exact absurd listed fresh
  · rcases mem_cons.mp ((mem_append.mp listed).resolve_left fresh) with rfl | later
    · rcases stopped with ⟨missing, _⟩ | ⟨held, isHeld, _, isResult⟩
      · cases missing.symm.trans found
      · cases isHeld.symm.trans found
        exact .inr isResult
    · exact .inl later

@[simp]
theorem entry_setQueue (replay : Bool) (queue : List QueueKey) :
    (state.setQueue replay queue).entry = state.entry := by
  funext index
  simp [entry]

theorem Invariant.skip_queue (inv : state.Invariant lane)
    (scan : scanQueue state.slots replay (state.queue replay) = (queue, none)) :
    (state.setQueue replay queue).Invariant lane where
  name := by simpa using inv.name
  slot := by simpa using inv.slot
  free_nodup := by simpa using inv.free_nodup
  mem_free_iff := by simpa using inv.mem_free_iff
  liveCount_eq := by simpa using inv.liveCount_eq
  target_le := by simpa using inv.target_le
  queued := by
    intro other index slot found claimable
    rw [slots_setQueue] at found
    have listed := inv.queued other index slot found claimable
    rw [queue_setQueue]
    by_cases same : other = replay
    · subst same
      simpa using scanQueue_kept scan listed found rfl claimable
    · simpa [same] using listed
  inRange := by
    intro other key membership
    rw [queue_setQueue] at membership
    rw [slots_setQueue]
    by_cases same : other = replay
    · rw [if_pos same] at membership
      exact inv.inRange replay key ((scanQueue_sublist scan).subset membership)
    · rw [if_neg same] at membership
      exact inv.inRange other key membership

theorem Invariant.claim (inv : state.Invariant lane)
    (scan : scanQueue state.slots replay (state.queue replay) = (queue, some (key, slot)))
    (callisId : CallisId) :
    ((state.setQueue replay queue).setSlot key.index
      { slot with state := .writing callisId }).Invariant lane := by
  obtain ⟨found, _, claimable⟩ := scanQueue_found scan
  have occupied_slot : slot.state ≠ .empty := by
    intro empty
    simp [empty] at claimable
  refine inv.of_setState found occupied_slot (.writing callisId) (by simp) (by simp)
    (by simp [setSlot]) (by simp [setSlot]) (by simp [setSlot]) (by simp [setSlot])
    (by simp [setSlot]) (by simp) ?_ ?_
  · intro other index at_slot different at_index at_claimable
    have listed := inv.queued other index at_slot at_index at_claimable
    change _ ∈ (state.setQueue replay queue).queue other
    rw [queue_setQueue]
    by_cases same : other = replay
    · subst same
      rw [if_pos rfl]
      rcases scanQueue_kept scan listed at_index rfl at_claimable with kept | stopped
      · exact kept
      · simp only [some.injEq, Prod.mk.injEq] at stopped
        exact absurd (congrArg QueueKey.index stopped.1).symm different
    · rw [if_neg same]
      exact listed
  · intro other other_key membership
    change _ ∈ (state.setQueue replay queue).queue other at membership
    rw [queue_setQueue] at membership
    by_cases same : other = replay
    · rw [if_pos same] at membership
      exact .inr (same ▸ (scanQueue_sublist scan).subset membership)
    · rw [if_neg same] at membership
      exact .inr membership

theorem Invariant.requeue (inv : state.Invariant lane)
    (found : state.slots[index]? = some slot) (occupied_slot : slot.state ≠ .empty)
    (claimable : target.claimable replay)
    (only : target.claimable (!replay) = false)
    (sent : target.retained = true → lane.kind = .tracked) :
    ((state.setSlot index { slot with state := target }).setQueue replay
      (state.queue replay ++ [⟨index, slot.seq⟩])).Invariant lane := by
  have filled : target ≠ .empty := by
    intro empty
    simp [empty] at claimable
  have queue_eq : ∀ other, ((state.setSlot index { slot with state := target }).setQueue replay
      (state.queue replay ++ [⟨index, slot.seq⟩])).queue other =
        if other = replay then state.queue replay ++ [⟨index, slot.seq⟩] else state.queue other :=
    fun other => queue_setQueue _ _ _ _
  refine inv.of_setState found occupied_slot target filled sent (by simp [setSlot])
    (by simp [setSlot]) (by simp [setSlot]) (by simp [setSlot]) (by simp [setSlot]) ?_ ?_ ?_
  · intro other at_other
    rw [queue_eq]
    by_cases same : other = replay
    · simp [same]
    · rw [Bool.eq_not_of_ne same] at at_other
      simp [only] at at_other
  · intro other position at_slot _ at_position at_claimable
    have listed := inv.queued other position at_slot at_position at_claimable
    rw [queue_eq]
    by_cases same : other = replay
    · subst same
      simp [listed]
    · simpa [same] using listed
  · intro other key membership
    rw [queue_eq] at membership
    by_cases same : other = replay
    · subst same
      rw [if_pos rfl] at membership
      rcases mem_append.mp membership with kept | fresh
      · exact .inr kept
      · exact .inl (by rw [mem_singleton.mp fresh])
    · rw [if_neg same] at membership
      exact .inr membership

/-- Everything a sweep can do to a slot. -/
theorem sweptState_cases (swept : sweptState callisId slot = some target) :
    slot.state ≠ .empty ∧
      (target = .ready ∧ slot.state = .writing callisId ∨
        target = .replayReady callisId ∧ ∃ outbound, slot.item = some (.tracked outbound)) := by
  unfold sweptState at swept
  split at swept
  all_goals first
    | (split at swept
       · rename_i state_eq item_eq same
         simp only [some.injEq] at swept
         simp [← swept, state_eq, item_eq, same]
       · simp at swept)
    | simp at swept

theorem sweepSlot_entry (callisId : CallisId) (slot : RetainedSlot) :
    (sweepSlot callisId slot).entry = slot.entry := by
  unfold sweepSlot
  split <;> rfl

theorem sweepSlot_seq (callisId : CallisId) (slot : RetainedSlot) :
    (sweepSlot callisId slot).seq = slot.seq := by
  unfold sweepSlot
  split <;> rfl

theorem sweepSlot_state_eq_empty_iff (callisId : CallisId) (slot : RetainedSlot) :
    (sweepSlot callisId slot).state = .empty ↔ slot.state = .empty := by
  unfold sweepSlot
  split
  · next target swept =>
      obtain ⟨occupied_slot, ⟨rfl, _⟩ | ⟨rfl, _⟩⟩ := sweptState_cases swept <;> simp [occupied_slot]
  · rfl

theorem sweepSlot_slotInvariant
    (sane : SlotInvariant lane slot) : SlotInvariant lane (sweepSlot callisId slot) := by
  have same_item : (sweepSlot callisId slot).item = slot.item := by
    unfold sweepSlot
    split <;> rfl
  refine ⟨?_, fun item item_eq => sane.placed item (same_item ▸ item_eq), ?_⟩
  · rw [same_item, ne_eq, sweepSlot_state_eq_empty_iff]
    exact sane.item_isSome_iff
  · unfold sweepSlot
    split
    · next target swept =>
        rcases (sweptState_cases swept).2 with ⟨rfl, _⟩ | ⟨rfl, _, item_eq⟩
        · simp
        · intro _
          exact (sane.placed _ item_eq).symm
    · exact sane.retained

theorem mem_sweptKeys_iff (callisId : CallisId) (test : SlotState → Bool)
    (slots : List RetainedSlot) (key : QueueKey) :
    key ∈ sweptKeys callisId test slots ↔ ∃ slot target, slots[key.index]? = some slot ∧
      sweptState callisId slot = some target ∧ test target ∧ slot.seq = key.seq := by
  unfold sweptKeys
  rw [mem_filterMap]
  constructor
  · rintro ⟨⟨slot, _⟩, listed, produced⟩
    rw [mem_zipIdx_iff_getElem?] at listed
    split at produced
    · next target swept =>
        split at produced
        · next passed =>
            simp only [some.injEq] at produced
            subst produced
            exact ⟨slot, target, listed, swept, passed, rfl⟩
        · simp at produced
    · simp at produced
  · rintro ⟨slot, target, found, swept, passed, current⟩
    refine ⟨(slot, key.index), mem_zipIdx_iff_getElem?.mpr found, ?_⟩
    simp [swept, passed, current]

theorem queue_sweep (callisId : CallisId) (replay : Bool) :
    (state.sweep callisId).queue replay = state.queue replay ++
      sweptKeys callisId (fun target => target.claimable replay) state.slots := by
  cases replay <;> rfl

theorem sweep_invariant (inv : state.Invariant lane) (callisId : CallisId) :
    (state.sweep callisId).Invariant lane where
  name := inv.name
  slot := by
    intro slot membership
    obtain ⟨old, kept, rfl⟩ := mem_map.mp membership
    exact sweepSlot_slotInvariant (inv.slot old kept)
  free_nodup := inv.free_nodup
  mem_free_iff := by
    intro index
    rw [show (state.sweep callisId).free = state.free from rfl, inv.mem_free_iff]
    simp [sweep, sweepSlot_state_eq_empty_iff]
  liveCount_eq := by
    rw [show (state.sweep callisId).liveCount = state.liveCount from rfl, inv.liveCount_eq]
    simp [occupied, sweep, countP_map, Function.comp_def, sweepSlot_state_eq_empty_iff]
  target_le := by simpa [sweep] using inv.target_le
  queued := by
    intro replay index slot found claimable
    simp only [sweep, getElem?_map, map_eq_some_iff] at found
    obtain ⟨old, at_index, rfl⟩ := found
    rw [queue_sweep, mem_append, sweepSlot_seq]
    cases swept : sweptState callisId old with
    | none =>
      simp only [sweepSlot, swept] at claimable
      exact .inl (inv.queued replay index old at_index claimable)
    | some target =>
      simp only [sweepSlot, swept] at claimable
      exact .inr ((mem_sweptKeys_iff _ _ _ _).mpr
        ⟨old, target, at_index, swept, claimable, rfl⟩)
  inRange := by
    intro replay key membership
    rw [queue_sweep, mem_append] at membership
    simp only [sweep, length_map]
    rcases membership with kept | swept
    · exact inv.inRange replay key kept
    · obtain ⟨slot, _, found, _⟩ := (mem_sweptKeys_iff _ _ _ _).mp swept
      exact (List.getElem?_eq_some_iff.mp found).1

theorem sweep_entry (callisId : CallisId) : (state.sweep callisId).entry = state.entry := by
  funext index
  simp only [entry, sweep, getElem?_map]
  cases state.slots[index]? with
  | none => rfl
  | some slot => simp [sweepSlot_entry]

end LaneState

end AureliaPeering.Store
