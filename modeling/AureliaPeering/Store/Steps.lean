import AureliaPeering.Store.Insertion
import AureliaPeering.Store.Moves
import AureliaPeering.Store.Removal

/-!
Every operation of the store keeps the representation invariant, never panics, and changes the
contents in one of five ways.
-/

namespace AureliaPeering.Store

open Collections LaneState

namespace RetainedStore

def claimOf (id : SlotId) (slot : RetainedSlot) (item : RetainedItem) (callisId : CallisId) :
    RetainedClaim :=
  ⟨id, ⟨item.peerMsgId, slot.seq, item.kind⟩, callisId, slot.originalDeadline, writeItem item⟩

variable {store : RetainedStore} {id : SlotId} {slot : RetainedSlot}

/-- Both ways `claim_from_queue` can end: the early return on a slot without item is never
taken. -/
theorem claimFromQueue_cases (inv : store.Invariant) (lane : RetainedLane)
    (replay : Bool) (callisId : CallisId) :
    (∃ queue, scanQueue (store.lane lane).slots replay ((store.lane lane).queue replay) =
        (queue, none) ∧
      store.claimFromQueue lane replay callisId =
        (none, store.setLane lane ((store.lane lane).setQueue replay queue))) ∨
    ∃ queue key slot item,
      scanQueue (store.lane lane).slots replay ((store.lane lane).queue replay) =
        (queue, some (key, slot)) ∧ slot.item = some item ∧
      store.claimFromQueue lane replay callisId =
        (some (claimOf ⟨lane, key.index⟩ slot item callisId),
          store.setLane lane (((store.lane lane).setQueue replay queue).setSlot key.index
            { slot with state := .writing callisId })) := by
  rcases scan : scanQueue (store.lane lane).slots replay
    ((store.lane lane).queue replay) with ⟨queue, _ | ⟨key, slot⟩⟩
  · exact .inl ⟨queue, rfl, by simp only [claimFromQueue, scan]⟩
  · obtain ⟨found, _, claimable⟩ := scanQueue_found scan
    cases item_eq : slot.item with
    | none =>
      have occupied := ((inv.lanes lane).slot_of_getElem? found).item_isSome_iff
      have empty : slot.state = .empty := by simpa [item_eq] using occupied
      simp [empty] at claimable
    | some item =>
      exact .inr ⟨queue, key, slot, item, rfl, item_eq,
        by simp only [claimFromQueue, scan, item_eq, claimOf]⟩

theorem claimFromQueue_spec (inv : store.Invariant) (lane : RetainedLane)
    (replay : Bool) (callisId : CallisId) :
    (store.claimFromQueue lane replay callisId).2.Invariant ∧
      (store.claimFromQueue lane replay callisId).2.contents = store.contents := by
  have sane := inv.lanes lane
  rcases claimFromQueue_cases inv lane replay callisId with
    ⟨queue, scan, result⟩ | ⟨queue, key, slot, _, scan, _, result⟩
  · rw [result]
    exact ⟨inv.setLane (sane.skip_queue scan) (by simp), contents_setLane (by simp)⟩
  · have entry_eq : (((store.lane lane).setQueue replay queue).setSlot key.index
        { slot with state := .writing callisId }).entry = (store.lane lane).entry :=
      entry_of_setState (scanQueue_found scan).1 (.writing callisId)
        (by simp [setSlot])
    rw [result]
    exact ⟨inv.setLane (sane.claim scan callisId) entry_eq, contents_setLane entry_eq⟩

theorem spec_of_tries {next : RetainedStore} {callisId : CallisId} (inv : store.Invariant)
    (tries : Relation.ReflTransGen (Tries callisId) store next) :
    next.Invariant ∧ next.contents = store.contents := by
  induction tries with
  | refl => exact ⟨inv, rfl⟩
  | tail _ tried ih =>
    obtain ⟨lane, replay, rfl⟩ := tried
    obtain ⟨next_inv, same⟩ := claimFromQueue_spec ih.1 lane replay callisId
    exact ⟨next_inv, same.trans ih.2⟩

theorem claimLane_spec (inv : store.Invariant) (lane : RetainedLane)
    (callisId : CallisId) :
    (store.claimLane lane callisId).2.Invariant ∧
      (store.claimLane lane callisId).2.contents = store.contents :=
  spec_of_tries inv (claimLane_tries store lane callisId)

theorem claimLanes_spec (callisId : CallisId) (lanes : List RetainedLane)
    (inv : store.Invariant) :
    (claimLanes callisId lanes store).2.Invariant ∧
      (claimLanes callisId lanes store).2.contents = store.contents :=
  spec_of_tries inv (claimLanes_tries callisId lanes store)

theorem requeue_spec (inv : store.Invariant) (found : store.slot id = some slot)
    (occupied : slot.state ≠ .empty)
    (replay : Bool) (target : SlotState) (claimable : target.claimable replay)
    (only : target.claimable (!replay) = false)
    (sent : target.retained = true → ∃ outbound, slot.item = some (.tracked outbound)) :
    (store.requeue id slot replay target).Invariant ∧
      (store.requeue id slot replay target).contents = store.contents := by
  have sane := inv.lanes id.lane
  have entry_eq : (((store.lane id.lane).setSlot id.index { slot with state := target }).setQueue
      replay ((store.lane id.lane).queue replay ++ [⟨id.index, slot.seq⟩])).entry =
        (store.lane id.lane).entry := by
    rw [entry_setQueue]
    exact entry_of_setState found target rfl
  have kind : target.retained = true → id.lane.kind = .tracked := by
    intro retained
    obtain ⟨outbound, item_eq⟩ := sent retained
    exact ((sane.slot_of_getElem? found).placed _ item_eq).symm
  exact ⟨inv.setLane (sane.requeue found occupied claimable only kind) entry_eq,
    contents_setLane entry_eq⟩

theorem setState_spec (inv : store.Invariant) (found : store.slot id = some slot)
    (occupied : slot.state ≠ .empty)
    (target : SlotState) (filled : target ≠ .empty)
    (busy : ∀ replay, target.claimable replay = false)
    (sent : target.retained = true → ∃ outbound, slot.item = some (.tracked outbound)) :
    (store.setLane id.lane ((store.lane id.lane).setSlot id.index
      { slot with state := target })).Invariant ∧
    (store.setLane id.lane ((store.lane id.lane).setSlot id.index
      { slot with state := target })).contents = store.contents := by
  have sane := inv.lanes id.lane
  have entry_eq : ((store.lane id.lane).setSlot id.index { slot with state := target }).entry =
      (store.lane id.lane).entry := entry_of_setState found target rfl
  have kind : target.retained = true → id.lane.kind = .tracked := by
    intro retained
    obtain ⟨outbound, item_eq⟩ := sent retained
    exact ((sane.slot_of_getElem? found).placed _ item_eq).symm
  refine ⟨inv.setLane ?_ entry_eq, contents_setLane entry_eq⟩
  exact sane.of_setState found occupied target filled kind rfl rfl rfl rfl rfl
    (by simp [busy])
    (fun replay other slot _ at_other claimable => sane.queued replay other slot at_other claimable)
    (fun _ _ listed => .inr listed)

/-- A write completion that is not ignored finds its claim's item still being written. -/
theorem completeWrite_of_not_stale {claim : RetainedClaim} {item : RetainedItem}
    (found : store.slot claim.slot = some slot)
    (fresh : ¬ (slot.state ≠ .writing claim.callisId ∨ slot.identity ≠ some claim.identity))
    (item_eq : slot.item = some item) (result : Except AureliaError Unit) :
    store.completeWrite claim result =
      match result, item.isTracked with
      | .error _, true => ([], store.requeue claim.slot slot true (.replayReady claim.callisId))
      | .error _, false => ([], store.requeue claim.slot slot false .ready)
      | .ok _, true => ([], store.setLane claim.slot.lane ((store.lane claim.slot.lane).setSlot
          claim.slot.index { slot with state := .inflight claim.callisId }))
      | .ok _, false => ([], ((store.removeBySlot claim.slot).map Prod.snd).getD store) := by
  simp only [completeWrite, found, if_neg fresh, item_eq]
  cases result with
  | error error => cases item <;> rfl
  | ok value =>
    cases item with
    | tracked outbound => rfl
    | ack peerMsgId | error peerMsgId frame =>
      cases removed : store.removeBySlot claim.slot <;> simp

/-- Every way `complete_write` can end: the contents stay, or a written response leaves. -/
theorem completeWrite_cases (inv : store.Invariant) (claim : RetainedClaim)
    (result : Except AureliaError Unit) :
    (store.completeWrite claim result).1 = [] ∧ (store.completeWrite claim result).2.Invariant ∧
      ((store.completeWrite claim result).2.contents = store.contents ∨
        ∃ stored, result = .ok () ∧ store.contents claim.slot = some stored ∧
          stored.item.isTracked = false ∧ (store.completeWrite claim result).2.contents =
            Function.update store.contents claim.slot none) := by
  cases found : store.slot claim.slot with
  | none => simp [completeWrite, found, inv]
  | some slot =>
    by_cases stale : slot.state ≠ .writing claim.callisId ∨ slot.identity ≠ some claim.identity
    · simp [completeWrite, found, stale, inv]
    have writing : slot.state = .writing claim.callisId := by
      by_contra other
      exact stale (.inl other)
    have occupied : slot.state ≠ .empty := by simp [writing]
    have sane := (inv.lanes claim.slot.lane).slot_of_getElem? found
    obtain ⟨item, item_eq⟩ := Option.isSome_iff_exists.mp (sane.item_isSome_iff.mpr occupied)
    have present : store.contents claim.slot = some ⟨item, slot.originalDeadline, slot.seq⟩ :=
      (entry_eq_some_iff _ _ _).mpr
        ⟨slot, found, by simp [RetainedSlot.entry, item_eq]⟩
    rw [completeWrite_of_not_stale found stale item_eq]
    cases tracked : item.isTracked with
    | true =>
      have message : ∃ outbound, slot.item = some (.tracked outbound) := by
        cases item with
        | tracked outbound => exact ⟨outbound, item_eq⟩
        | ack peerMsgId => simp at tracked
        | error peerMsgId frame => simp at tracked
      cases result with
      | error error =>
        have replayed := requeue_spec inv found occupied true
          (.replayReady claim.callisId) rfl rfl (fun _ => message)
        exact ⟨rfl, replayed.1, .inl replayed.2⟩
      | ok value =>
        have inflight := setState_spec inv found occupied
          (.inflight claim.callisId) (by simp) (by simp) (fun _ => message)
        exact ⟨rfl, inflight.1, .inl inflight.2⟩
    | false =>
      cases result with
      | error error =>
        have requeued := requeue_spec inv found occupied false
          .ready rfl rfl (by simp)
        exact ⟨rfl, requeued.1, .inl requeued.2⟩
      | ok value =>
        obtain ⟨_, removed, next_inv, contents_eq, _⟩ := removeBySlot_of_some inv present
        simp only [removed, Option.map_some, Option.getD_some]
        exact ⟨trivial, next_inv, .inr ⟨_, trivial, present, tracked, contents_eq⟩⟩

theorem markSlotReplayReady_spec (inv : store.Invariant) (id : SlotId) :
    (store.markSlotReplayReady id).Invariant ∧
      (store.markSlotReplayReady id).contents = store.contents := by
  unfold markSlotReplayReady
  split
  · exact ⟨inv, rfl⟩
  · next slot found =>
      split
      · next outbound lastSent item_eq sent =>
          have occupied : slot.state ≠ .empty := by
            intro empty
            simp [empty, SlotState.lastSent] at sent
          exact requeue_spec inv found occupied true _ rfl rfl (fun _ => ⟨outbound, item_eq⟩)
      · exact ⟨inv, rfl⟩

theorem markSlotsReplayReady_spec (slots : List SlotId)
    (inv : store.Invariant) :
    (store.markSlotsReplayReady slots).Invariant ∧
      (store.markSlotsReplayReady slots).contents = store.contents := by
  induction slots generalizing store with
  | nil => exact ⟨inv, rfl⟩
  | cons slot rest ih =>
    obtain ⟨marked_inv, marked_eq⟩ := markSlotReplayReady_spec inv slot
    obtain ⟨rest_inv, rest_eq⟩ := ih marked_inv
    exact ⟨rest_inv, rest_eq.trans marked_eq⟩

theorem markCallisReplayReady_spec (inv : store.Invariant)
    (callisId : CallisId) :
    (store.markCallisReplayReady callisId).Invariant ∧
      (store.markCallisReplayReady callisId).contents = store.contents := by
  have contents_eq : (store.markCallisReplayReady callisId).contents = store.contents := by
    refine contents_congr fun lane => ?_
    cases lane with
    | a1Ack => rfl
    | a1Error | a2 | a3 => exact sweep_entry callisId
  refine ⟨inv.of_contents (fun lane => ?_) contents_eq rfl rfl (fun _ _ _ listed => listed),
    contents_eq⟩
  cases lane with
  | a1Ack => exact inv.lanes .a1Ack
  | a1Error => exact sweep_invariant (inv.lanes .a1Error) callisId
  | a2 => exact sweep_invariant (inv.lanes .a2) callisId
  | a3 => exact sweep_invariant (inv.lanes .a3) callisId

theorem setCapacities_spec (inv : store.Invariant)
    (capacities : RetainedCapacities) (now : Instant) :
    (store.setCapacities capacities now).Invariant ∧
      (store.setCapacities capacities now).contents = store.contents := by
  have contents_eq : (store.setCapacities capacities now).contents = store.contents := by
    refine contents_congr fun lane => funext fun index => ?_
    cases lane <;> exact LaneState.grow_entry now _ _ index
  refine ⟨inv.of_contents (fun lane => ?_) contents_eq rfl rfl (fun _ _ _ listed => listed),
    contents_eq⟩
  cases lane with
  | a1Ack => exact setTargetCapacity_invariant (inv.lanes .a1Ack) _ now
  | a1Error => exact setTargetCapacity_invariant (inv.lanes .a1Error) _ now
  | a2 => exact setTargetCapacity_invariant (inv.lanes .a2) _ now
  | a3 => exact setTargetCapacity_invariant (inv.lanes .a3) _ now

theorem setShutdown_spec (inv : store.Invariant) :
    store.setShutdown.Invariant ∧ store.setShutdown.contents = store.contents := by
  have contents_eq : store.setShutdown.contents = store.contents :=
    contents_congr fun lane => congrArg _ (lane_with_shutdown store lane true)
  refine ⟨inv.of_contents (fun lane => ?_) contents_eq rfl rfl (fun _ _ _ listed => listed),
    contents_eq⟩
  rw [show store.setShutdown.lane lane = store.lane lane from lane_with_shutdown store lane true]
  exact inv.lanes lane

end RetainedStore

end AureliaPeering.Store
