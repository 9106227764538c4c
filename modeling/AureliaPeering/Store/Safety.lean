import AureliaPeering.Store.Claims

/-!
The store along its runs: what one operation can do, and the invariant in every reachable state.
-/

namespace AureliaPeering.Store

open Collections RetainedStore

/-- The operations that end the wait of a sender. -/
def Op.completes : Op → Bool
  | .ack _ | .failOne _ _ | .failAll _ _ | .failNonA1 _ _ | .expireDue _ | .beginShutdown _ _ =>
    true
  | _ => false

/-- The response an operation asks the store to retain. -/
def Op.response : Op → Option RetainedItem
  | .insertAck peerMsgId _ _ => some (.ack peerMsgId)
  | .insertError peerMsgId frame _ _ => some (.error peerMsgId frame)
  | _ => none

/-- The change an operation makes to the contents, together with what it returns. -/
inductive Change (op : Op) (output : Output) (before : Contents) : Contents → Prop where
  /-- Nothing is stored or removed; a refused message is handed back. -/
  | kept : output.completions = [] →
      (∀ tracked deadline now, op = .insertTracked tracked deadline now →
        ∃ error, output = .tracked (.error error) ∧ error.tracked = tracked) →
      Change op output before before
  /-- A tracked message is accepted into a vacant slot. -/
  | accepted {tracked : TrackedOutbound} {deadline now : Instant} {id : SlotId} {seq : Nat} :
      op = .insertTracked tracked deadline now → output = .tracked (.ok ()) → before id = none →
      Change op output before
        (Function.update before id (some ⟨.tracked tracked, deadline, seq⟩))
  /-- A response is stored in a vacant slot. -/
  | responded {id : SlotId} {stored : Entry} :
      (∀ tracked deadline now, op ≠ .insertTracked tracked deadline now) →
      output.completions = [] → stored.item.isTracked = false → op.response = some stored.item →
      before id = none → Change op output before (Function.update before id (some stored))
  /-- Items are removed, and each tracked one among them is completed with the same result. -/
  | completed {items : List RetainedItem} {after : Contents} (result : Except AureliaError Unit) :
      op.completes = true → (result = .ok () → ∃ peerMsgId, op = .ack peerMsgId) →
      Removals before items after → output.completions = items.flatMap (itemEffects result) →
      Change op output before after
  /-- Responses are removed. -/
  | cleared {items : List RetainedItem} {after : Contents} :
      (∀ tracked deadline now, op ≠ .insertTracked tracked deadline now) →
      (∀ item ∈ items, item.isTracked = false) → Removals before items after →
      output.completions = [] → Change op output before after

variable {next store : RetainedStore} {id : SlotId} {slot : RetainedSlot} {item : RetainedItem}
  {callisId : CallisId} {outbound : TrackedOutbound}

/-- `kept` for an operation that is not an insertion of a message. -/
theorem Change.of_contents_eq {op : Op} {output : Output} {before after : Contents}
    (other : ∀ tracked deadline now, op ≠ .insertTracked tracked deadline now)
    (silent : output.completions = []) (same : after = before) : Change op output before after := by
  subst same
  exact .kept silent fun tracked deadline now inserted =>
    absurd inserted (other tracked deadline now)

theorem failSlots_change (op : Op) (inv : store.Invariant)
    (completes : op.completes = true) (error : AureliaError) (slots : List SlotId) :
    (failSlots error slots store).2.Invariant ∧
      Change op (.effects (failSlots error slots store).1) store.contents
        (failSlots error slots store).2.contents := by
  obtain ⟨next_inv, removals, _⟩ := removeSlots_spec slots inv
  exact ⟨next_inv, .completed (.error error) completes (by simp) removals rfl⟩

theorem completeOne_change (op : Op) (inv : store.Invariant)
    (completes : op.completes = true) (peerMsgId : PeerMessageId)
    (result : Except AureliaError Unit)
    (acknowledged : result = .ok () → ∃ peerMsgId, op = .ack peerMsgId) :
    (store.completeOne peerMsgId result).2.Invariant ∧
      Change op (.effects (store.completeOne peerMsgId result).1.toList) store.contents
        (store.completeOne peerMsgId result).2.contents := by
  rcases completeOne_cases inv peerMsgId result with
    ⟨_, unchanged⟩ | ⟨_, _, _, _, _, present, item_eq, same_id, completed,
      next_inv, contents_eq⟩
  · rw [unchanged]
    exact ⟨inv, .completed result completes acknowledged (.nil _) rfl⟩
  · rw [completed]
    refine ⟨next_inv, ?_⟩
    rw [contents_eq]
    refine .completed result completes acknowledged (.single present) ?_
    simp [item_eq, itemEffects, same_id, Output.completions]

theorem dropResponses_change (inv : store.Invariant)
    {order : List SlotId} (ordered : store.responses.ValueOrder order) :
    (store.dropResponses order).Invariant ∧
      Change (.dropResponses order) .none store.contents (store.dropResponses order).contents := by
  obtain ⟨next_inv, removals, contents_eq⟩ := removeSlots_spec order inv
  refine ⟨next_inv, .cleared (by simp) (fun item taken => ?_) removals rfl⟩
  obtain ⟨id, _, present, same, gone⟩ := removals.of_mem taken
  rw [contents_eq] at gone
  have listed : id ∈ order := by
    by_contra unlisted
    simp [unlisted, present] at gone
  obtain ⟨peerMsgId, found⟩ := (ordered.mem_iff id).mp listed
  obtain ⟨_, at_id, response, _⟩ := (inv.responses_iff peerMsgId id).mp found
  rw [present, Option.some.injEq] at at_id
  rw [← same, at_id]
  exact response

theorem completeWrite_change (inv : store.Invariant)
    (claim : RetainedClaim) (result : Except AureliaError Unit) :
    (store.completeWrite claim result).2.Invariant ∧
      Change (.completeWrite claim result) (.effects (store.completeWrite claim result).1)
        store.contents (store.completeWrite claim result).2.contents := by
  obtain ⟨silent, next_inv, same | ⟨_, _, present, response, contents_eq⟩⟩ :=
    completeWrite_cases inv claim result
  · exact ⟨next_inv, .of_contents_eq (by simp) silent same⟩
  · refine ⟨next_inv, ?_⟩
    rw [contents_eq]
    exact .cleared (by simp) (by simpa using response) (.single present) silent

theorem insertResponse_change (op : Op) (inv : store.Invariant)
    (other : ∀ tracked deadline now, op ≠ .insertTracked tracked deadline now)
    (attempted : ResponseKind) (lane : RetainedLane) (item : RetainedItem)
    (asked : op.response = some item) (belongs : item.kind = lane.kind)
    (response : item.isTracked = false) (deadline now : Instant) :
    ∃ outcome next,
      store.insertResponse attempted lane item.peerMsgId deadline item now = .ok (outcome, next) ∧
      next.Invariant ∧ Change op (.response outcome) store.contents next.contents := by
  obtain ⟨outcome, next, inserted, next_inv, ⟨_, same, _⟩ | ⟨_, _, _, vacant, contents_eq, _⟩⟩ :=
    insertResponse_cases inv attempted belongs response deadline now
  · exact ⟨outcome, next, inserted, next_inv, .of_contents_eq other rfl same⟩
  · refine ⟨outcome, next, inserted, next_inv, ?_⟩
    rw [contents_eq]
    exact .responded other rfl response asked vacant

/-- Every operation succeeds on a store that meets the invariant, keeps the invariant, and
changes the contents as `Change` says. -/
theorem step_spec (inv : store.Invariant) (op : Op)
    (ordered : op.Ordered store) :
    ∃ output next, step store op = .ok (output, next) ∧ next.Invariant ∧
      Change op output store.contents next.contents := by
  cases op with
  | setCapacities capacities now =>
    obtain ⟨next_inv, same⟩ := setCapacities_spec inv capacities now
    exact ⟨_, _, rfl, next_inv, .of_contents_eq (by simp) rfl same⟩
  | setShutdown =>
    obtain ⟨next_inv, same⟩ := setShutdown_spec inv
    exact ⟨_, _, rfl, next_inv, .of_contents_eq (by simp) rfl same⟩
  | insertAck peerMsgId deadline now =>
    obtain ⟨outcome, next, inserted, next_inv, change⟩ :=
      insertResponse_change (.insertAck peerMsgId deadline now) inv (by simp) .ack .a1Ack
        (.ack peerMsgId) rfl rfl rfl deadline now
    have accepted : store.insertAck peerMsgId deadline now = .ok (outcome, next) := inserted
    exact ⟨.response outcome, next, by simp [step, accepted, Except.map], next_inv, change⟩
  | insertError peerMsgId frame deadline now =>
    obtain ⟨outcome, next, inserted, next_inv, change⟩ :=
      insertResponse_change (.insertError peerMsgId frame deadline now) inv (by simp) .error
        .a1Error (.error peerMsgId frame) rfl rfl rfl deadline now
    have accepted : store.insertError peerMsgId frame deadline now = .ok (outcome, next) :=
      inserted
    exact ⟨.response outcome, next, by simp [step, accepted, Except.map], next_inv, change⟩
  | insertTracked tracked deadline now =>
    obtain ⟨result, next, inserted, next_inv, refused | ⟨rfl, _, _, vacant, contents_eq, _⟩⟩ :=
      insertTracked_cases inv tracked deadline now
    · obtain ⟨error, rfl, same, rfl, _⟩ := refused
      refine ⟨.tracked (.error error), _, by simp [step, inserted, Except.map], inv,
        .kept rfl fun _ _ _ operation => ?_⟩
      cases operation
      exact ⟨error, rfl, same⟩
    · refine ⟨.tracked (.ok ()), next, by simp [step, inserted, Except.map], next_inv, ?_⟩
      rw [contents_eq]
      exact .accepted rfl rfl vacant
  | claimNext callisId =>
    obtain ⟨next_inv, same⟩ := claimLanes_spec callisId [.a1Ack, .a1Error, .a2, .a3] inv
    exact ⟨_, _, rfl, next_inv, .of_contents_eq (by simp) rfl same⟩
  | completeWrite claim result =>
    obtain ⟨next_inv, change⟩ := completeWrite_change inv claim result
    exact ⟨_, _, rfl, next_inv, change⟩
  | ack peerMsgId =>
    obtain ⟨next_inv, change⟩ :=
      completeOne_change (.ack peerMsgId) inv rfl peerMsgId (.ok ()) fun _ => ⟨_, rfl⟩
    exact ⟨_, _, rfl, next_inv, change⟩
  | failOne peerMsgId error =>
    obtain ⟨next_inv, change⟩ :=
      completeOne_change (.failOne peerMsgId error) inv rfl peerMsgId (.error error) (by simp)
    exact ⟨_, _, rfl, next_inv, change⟩
  | failAll error order =>
    obtain ⟨next_inv, change⟩ := failSlots_change (.failAll error order) inv rfl error order
    exact ⟨_, _, rfl, next_inv, change⟩
  | failNonA1 error order =>
    obtain ⟨next_inv, change⟩ := failSlots_change (.failNonA1 error order) inv rfl error
      (order.filter fun slot => !slot.lane.isA1)
    exact ⟨_, _, rfl, next_inv, change⟩
  | markCallisReplayReady callisId =>
    obtain ⟨next_inv, same⟩ := markCallisReplayReady_spec inv callisId
    exact ⟨_, _, rfl, next_inv, .of_contents_eq (by simp) rfl same⟩
  | markAllTrackedReplayReady order =>
    obtain ⟨next_inv, same⟩ := markSlotsReplayReady_spec order inv
    exact ⟨_, _, rfl, next_inv, .of_contents_eq (by simp) rfl same⟩
  | markTrackedReplayReady peerMsgIds =>
    obtain ⟨next_inv, same⟩ := markSlotsReplayReady_spec
      (peerMsgIds.filterMap fun peerMsgId => store.tracked.lookup peerMsgId) inv
    exact ⟨_, _, rfl, next_inv, .of_contents_eq (by simp) rfl same⟩
  | expireDue now =>
    obtain ⟨next_inv, ⟨_, effects_eq, removals⟩, _⟩ := expireDue_spec inv now
    exact ⟨_, _, rfl, next_inv, .completed _ rfl (by simp) removals effects_eq⟩
  | nextDeadline =>
    exact ⟨_, _, rfl, nextDeadline_invariant inv,
      .of_contents_eq (by simp) rfl (nextDeadline_contents store)⟩
  | beginShutdown error order =>
    obtain ⟨down_inv, same⟩ := setShutdown_spec inv
    obtain ⟨next_inv, change⟩ := failSlots_change (.beginShutdown error order) down_inv rfl
      error (order.filter fun slot => !slot.lane.isA1)
    exact ⟨_, _, rfl, next_inv, same ▸ change⟩
  | dropResponses order =>
    obtain ⟨next_inv, change⟩ := dropResponses_change inv ordered
    exact ⟨_, _, rfl, next_inv, change⟩

theorem new_contents (capacities : RetainedCapacities) (now : Instant) (id : SlotId) :
    (RetainedStore.new capacities now).contents id = none := by
  obtain ⟨lane, index⟩ := id
  cases lane <;> exact LaneState.new_entry _ _ now index

theorem new_invariant (capacities : RetainedCapacities) (now : Instant) :
    (RetainedStore.new capacities now).Invariant := by
  have vacant := new_contents capacities now
  refine ⟨fun lane => ?_, ?_, ?_, ?_⟩
  · cases lane <;> exact LaneState.new_invariant _ _ now
  · simp only [vacant, reduceCtorEq, false_and, exists_false, iff_false]
    simp [RetainedStore.new]
  · simp only [vacant, reduceCtorEq, false_and, exists_false, iff_false]
    simp [RetainedStore.new]
  · simp [vacant]

theorem step_invariant {label : Op × Output} (inv : store.Invariant)
    (taken : system.Step store label next) :
    next.Invariant ∧ Change label.1 label.2 store.contents next.contents := by
  obtain ⟨_, _, performed, result_inv, change⟩ := step_spec inv label.1 taken.1
  have same := performed.symm.trans taken.2
  simp only [Except.ok.injEq, Prod.mk.injEq] at same
  obtain ⟨rfl, rfl⟩ := same
  exact ⟨result_inv, change⟩

theorem run_invariant {labels : List (Op × Output)}
    (inv : store.Invariant) (run : system.Run store labels next) : next.Invariant :=
  run.preserves (fun _ _ _ before taken => (step_invariant before taken).1) inv

theorem reachable_invariant (reached : system.Reachable store) :
    store.Invariant :=
  reached.invariant
    (by rintro _ ⟨capacities, now, rfl⟩; exact new_invariant capacities now)
    (fun _ _ _ before taken => (step_invariant before taken).1)

theorem requeue_slot (found : store.slot id = some slot) (replay : Bool) (target : SlotState) :
    (store.requeue id slot replay target).slot id = some { slot with state := target } := by
  have bound : id.index < (store.lane id.lane).slots.length :=
    (List.getElem?_eq_some_iff.mp found).1
  simp [requeue, slot_setLane, LaneState.setSlot, bound]

/-- A slot that holds an item is claimable, being written, or in flight. -/
theorem state_cases {lane : RetainedLane} (sane : SlotInvariant lane slot)
    (item_eq : slot.item = some item) :
    (∃ replay, slot.state.claimable replay) ∨ (∃ callisId, slot.state = .writing callisId) ∨
      (∃ callisId, slot.state = .inflight callisId) := by
  have occupied := sane.item_isSome_iff.mp (by simp [item_eq])
  cases state_eq : slot.state with
  | empty => exact absurd state_eq occupied
  | ready => exact .inl ⟨false, rfl⟩
  | replayReady callisId => exact .inl ⟨true, rfl⟩
  | writing callisId => exact .inr (.inl ⟨callisId, rfl⟩)
  | inflight callisId => exact .inr (.inr ⟨callisId, rfl⟩)

/-- An item whose write is reported failed can be claimed again. -/
theorem claimable_of_failed_write (found : store.slot id = some slot)
    (item_eq : slot.item = some item) (writing : slot.state = .writing callisId)
    (error : AureliaError) :
    ∃ requeued replay,
      (store.completeWrite (claimOf id slot item callisId) (.error error)).2.slot id =
      some requeued ∧ requeued.item = some item ∧ requeued.state.claimable replay := by
  have fresh : ¬ (slot.state ≠ .writing (claimOf id slot item callisId).callisId ∨
      slot.identity ≠ some (claimOf id slot item callisId).identity) := by
    simp [claimOf, writing, RetainedSlot.identity, item_eq]
  rw [completeWrite_of_not_stale found fresh item_eq]
  cases tracked : item.isTracked with
  | true => exact ⟨_, true, requeue_slot found true _, item_eq, rfl⟩
  | false => exact ⟨_, false, requeue_slot found false _, item_eq, rfl⟩

/-- A message in flight can be claimed again once it is marked for replay. -/
theorem claimable_of_marked (inv : store.Invariant)
    (found : store.slot id = some slot) (item_eq : slot.item = some (.tracked outbound))
    (inflight : slot.state = .inflight callisId) :
    ∃ requeued, (store.markTrackedReplayReady [outbound.peerMsgId]).slot id = some requeued ∧
      requeued.item = slot.item ∧ requeued.state.claimable true := by
  have present : store.contents id =
      some ⟨.tracked outbound, slot.originalDeadline, slot.seq⟩ :=
    (LaneState.entry_eq_some_iff _ _ _).mpr ⟨slot, found, by simp [RetainedSlot.entry, item_eq]⟩
  have listed := (inv.tracked_iff outbound.peerMsgId id).mpr ⟨_, present, rfl, rfl⟩
  refine ⟨{ slot with state := .replayReady callisId }, ?_, rfl, rfl⟩
  simp [markTrackedReplayReady, listed, markSlotsReplayReady, markSlotReplayReady, found, item_eq,
    inflight, SlotState.lastSent, requeue_slot found]

theorem ack_of_stored (inv : store.Invariant)
    {stored : Entry} (present : store.contents id = some stored)
    (item_eq : stored.item = .tracked outbound) :
    ∃ next, store.ack outbound.peerMsgId =
        (some ⟨outbound.peerMsgId, outbound.ackTx, .ok ()⟩, next) ∧ next.contents id = none := by
  have listed := (inv.tracked_iff outbound.peerMsgId id).mpr
    ⟨stored, present, by simp [item_eq], by simp [item_eq, RetainedItem.peerMsgId]⟩
  rcases completeOne_cases inv outbound.peerMsgId (.ok ()) with
    ⟨unlisted, _⟩ | ⟨_, _, _, next, found, at_other, held_eq, _, completed, _,
      contents_eq⟩
  · simp [listed] at unlisted
  · rw [listed, Option.some.injEq] at found
    subst found
    rw [present, Option.some.injEq] at at_other
    subst at_other
    rw [item_eq, RetainedItem.tracked.injEq] at held_eq
    subst held_eq
    exact ⟨next, completed, by simp [contents_eq]⟩

/-- The ways in which a stored item can still be reached: it is claimable, or becomes claimable
when its write is reported failed, or, once in flight, when it is marked for replay. -/
def Reaches (store : RetainedStore) (id : SlotId) (slot : RetainedSlot) (item : RetainedItem) :
    Prop :=
  (∃ replay, slot.state.claimable replay = true ∧ (store.Open id.lane → ∀ callisId,
    ∃ count, ∃ claim ∈ claims callisId count store,
      claim.slot = id ∧ slot.identity = some claim.identity)) ∨
  (∃ callisId, slot.state = .writing callisId ∧ ∀ error, ∃ requeued replay,
    (store.completeWrite (claimOf id slot item callisId) (.error error)).2.slot id =
      some requeued ∧ requeued.item = some item ∧ requeued.state.claimable replay = true) ∨
  (∃ callisId, slot.state = .inflight callisId ∧ ∃ requeued,
    (store.markTrackedReplayReady [item.peerMsgId]).slot id = some requeued ∧
      requeued.item = some item ∧ requeued.state.claimable true = true)

theorem reaches_of_stored (inv : store.Invariant) (found : store.slot id = some slot)
    (item_eq : slot.item = some item) : Reaches store id slot item := by
  have sane := (inv.lanes id.lane).slot_of_getElem? found
  rcases state_cases sane item_eq with ⟨replay, claimable⟩ | ⟨callisId, writing⟩ |
    ⟨callisId, inflight⟩
  · exact .inl ⟨replay, claimable, fun opened callisId =>
      exists_claim inv found claimable opened callisId⟩
  · exact .inr (.inl ⟨callisId, writing, fun error =>
      claimable_of_failed_write found item_eq writing error⟩)
  · have kind :=
      (sane.placed item item_eq).trans (sane.retained (by simp [inflight, SlotState.retained]))
    cases item with
    | ack peerMsgId | error peerMsgId frame => simp [RetainedItem.kind] at kind
    | tracked outbound =>
      obtain ⟨requeued, marked, same, claimable⟩ := claimable_of_marked inv found item_eq inflight
      exact .inr (.inr ⟨callisId, inflight, requeued, marked, same.trans item_eq, claimable⟩)

/-- In every state of every run of the store the representation invariant holds, no operation
panics, and every stored item can be claimed, acknowledged and expired. -/
theorem reachable_store_safe {store : RetainedStore} (reached : system.Reachable store) :
    store.Invariant ∧
      (∀ op, op.Ordered store → ∃ output next, step store op = .ok (output, next)) ∧
      (∀ id slot item, store.slot id = some slot → slot.item = some item →
        Reaches store id slot item) ∧
      (∀ id stored outbound, store.contents id = some stored → stored.item = .tracked outbound →
        ∃ next, store.ack outbound.peerMsgId =
          (some ⟨outbound.peerMsgId, outbound.ackTx, .ok ()⟩, next) ∧ next.contents id = none) ∧
      (∀ id stored now, store.contents id = some stored → stored.deadline ≤ now →
        (store.expireDue now).2.contents id = none) := by
  have inv := reachable_invariant reached
  refine ⟨inv, fun op ordered => ?_, fun id slot item found item_eq =>
    reaches_of_stored inv found item_eq, fun id stored outbound present item_eq =>
    ack_of_stored inv present item_eq, fun id stored now present due => ?_⟩
  · obtain ⟨output, next, performed, _⟩ := step_spec inv op ordered
    exact ⟨output, next, performed⟩
  · by_contra remains
    obtain ⟨held, at_id⟩ := Option.ne_none_iff_exists'.mp remains
    obtain ⟨before, future⟩ := ((expireDue_spec inv now).2.2 id held).mp at_id
    rw [present, Option.some.injEq] at before
    subst before
    exact absurd due (Nat.not_le.mpr future)

/-- A store that holds one message, which expires at its deadline. -/
theorem reachable_store_safe_insertTracked :
    ∃ store, system.Reachable store ∧ (store.contents ⟨.a3, 0⟩).isSome ∧
      (store.expireDue 10).2.contents ⟨.a3, 0⟩ = none := by
  have start : system.Reachable (RetainedStore.new ⟨1, 1, 1, 1⟩ 0) := .start ⟨_, _, rfl⟩
  have reached := start.take (.insertTracked ⟨⟨7, 1, 2, a3MessageTypeBase, 0, []⟩, 0⟩ 10 0, _)
    ⟨trivial, rfl⟩
  exact ⟨_, reached, rfl, (reachable_store_safe reached).2.2.2.2 ⟨.a3, 0⟩
    ⟨.tracked ⟨⟨7, 1, 2, a3MessageTypeBase, 0, []⟩, 0⟩, 10, 1⟩ 10 rfl le_rfl⟩

end AureliaPeering.Store
