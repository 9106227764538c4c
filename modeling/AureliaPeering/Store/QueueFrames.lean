import AureliaPeering.Store.Items

/-!
What an operation does to the ready queues.

Most operations at most drop keys from them.  A failed write of a response and the sweep after a
lost connection also append keys, and those name slots that were being written.
-/

namespace AureliaPeering.Store

open Collections List

namespace LaneState

variable {slots : List RetainedSlot} {replay : Bool} {keys queue : List QueueKey} {key : QueueKey}
  {slot : RetainedSlot}

theorem scanQueue_split (scan : scanQueue slots replay keys = (queue, some (key, slot))) :
    ∃ dropped, keys = dropped ++ key :: queue := by
  obtain ⟨dropped, _, ⟨_, _, nothing⟩ | ⟨_, split, ⟨_, nothing⟩ | ⟨_, _, _, same⟩⟩⟩ :=
    scanQueue_cases scan
  · cases nothing
  · cases nothing
  · cases same
    exact ⟨dropped, split⟩

theorem scanQueue_first {Before : QueueKey → QueueKey → Prop}
    (scan : scanQueue slots replay keys = (queue, some (key, slot)))
    (ordered : keys.Pairwise Before) {other : QueueKey} (listed : other ∈ keys)
    {held : RetainedSlot} (found : slots[other.index]? = some held)
    (current : held.seq = other.seq) (claimable : held.state.claimable replay) :
    other = key ∨ Before key other := by
  obtain ⟨_, rfl⟩ := scanQueue_split scan
  rcases scanQueue_kept scan listed found current claimable with kept | taken
  · have follows := (pairwise_append.mp ordered).2.1
    exact .inr ((pairwise_cons.mp follows).1 other kept)
  · exact .inl (congrArg Prod.fst (Option.some.inj taken)).symm

theorem removeSlot_queue {state next : LaneState} {index : Nat} {item : RetainedItem}
    (removed : state.removeSlot index = some (item, next)) (replay : Bool) :
    next.queue replay = state.queue replay := by
  unfold removeSlot at removed
  split at removed
  · cases removed
  · split at removed
    · cases removed
    · cases removed
      rfl

end LaneState

namespace RetainedStore

/-- The queues of one kind and the heap at most lose keys; the counter and the shutdown flag
stay. -/
structure Shrinks (store next : RetainedStore) (replay : Bool) : Prop where
  shutdown : next.shutdown = store.shutdown
  nextSeq : next.nextSeq = store.nextSeq
  deadlines : next.deadlines.elements.Sublist store.deadlines.elements
  queue : ∀ lane, ((next.lane lane).queue replay).Sublist ((store.lane lane).queue replay)

variable {next store : RetainedStore} {replay : Bool}

theorem Shrinks.refl (store : RetainedStore) (replay : Bool) : Shrinks store store replay :=
  ⟨rfl, rfl, .refl _, fun _ => .refl _⟩

theorem Shrinks.trans {middle : RetainedStore} (first : Shrinks store middle replay)
    (second : Shrinks middle next replay) : Shrinks store next replay :=
  ⟨second.shutdown.trans first.shutdown, second.nextSeq.trans first.nextSeq,
    second.deadlines.trans first.deadlines,
    fun lane => (second.queue lane).trans (first.queue lane)⟩

theorem Shrinks.setLane {lane : RetainedLane} {state : LaneState}
    (queue : (state.queue replay).Sublist ((store.lane lane).queue replay)) :
    Shrinks store (store.setLane lane state) replay := by
  refine ⟨by simp, by simp, by simp, fun other => ?_⟩
  rw [lane_setLane]
  split
  · next same => exact same ▸ queue
  · exact List.Sublist.refl _

theorem removeBySlot_queues {id : SlotId} {item : RetainedItem}
    (removed : store.removeBySlot id = some (item, next)) :
    next.shutdown = store.shutdown ∧ next.nextSeq = store.nextSeq ∧
      next.deadlines = store.deadlines ∧
      ∀ lane replay, (next.lane lane).queue replay = (store.lane lane).queue replay := by
  unfold removeBySlot at removed
  split at removed
  · cases removed
  · next taken state vacated =>
      have same (lane : RetainedLane) (replay : Bool) :
          ((store.setLane id.lane state).lane lane).queue replay =
            (store.lane lane).queue replay := by
        rw [lane_setLane]
        split
        · next here => rw [LaneState.removeSlot_queue vacated, here]
        · rfl
      split at removed <;> cases removed
      · exact ⟨by simp, by simp, by simp, fun other => lane_with_responses _ other _ ▸ same other⟩
      · exact ⟨by simp, by simp, by simp, fun other => lane_with_responses _ other _ ▸ same other⟩
      · exact ⟨by simp, by simp, by simp, fun other => lane_with_tracked _ other _ ▸ same other⟩

theorem shrinks_of_vacates (moves : Relation.ReflTransGen Vacates store next) (replay : Bool) :
    Shrinks store next replay := by
  induction moves with
  | refl => exact .refl store replay
  | tail _ vacated ih =>
    obtain ⟨_, _, removed⟩ := vacated
    obtain ⟨shutdown, nextSeq, deadlines, queues⟩ := removeBySlot_queues removed
    exact ih.trans
      ⟨shutdown, nextSeq, deadlines ▸ .refl _, fun lane => queues lane replay ▸ .refl _⟩

theorem requeue_replay_shrinks (store : RetainedStore) (id : SlotId) (slot : RetainedSlot)
    (target : SlotState) : Shrinks store (store.requeue id slot true target) false :=
  .setLane (List.Sublist.refl _)

theorem markSlotReplayReady_shrinks (store : RetainedStore) (id : SlotId) :
    Shrinks store (store.markSlotReplayReady id) false := by
  unfold markSlotReplayReady
  split
  · exact .refl store false
  split
  · exact requeue_replay_shrinks store id _ _
  · exact .refl store false

theorem markSlotsReplayReady_shrinks (slots : List SlotId) (store : RetainedStore) :
    Shrinks store (store.markSlotsReplayReady slots) false := by
  induction slots generalizing store with
  | nil => exact .refl store false
  | cons slot rest ih =>
    exact (markSlotReplayReady_shrinks store slot).trans
      (ih (store.markSlotReplayReady slot))

theorem claimFromQueue_shrinks (inv : store.Invariant)
    (lane : RetainedLane) (claimed : Bool) (callisId : CallisId) (replay : Bool) :
    Shrinks store (store.claimFromQueue lane claimed callisId).2 replay := by
  have popped : ∀ {queue result}, LaneState.scanQueue (store.lane lane).slots claimed
      ((store.lane lane).queue claimed) = (queue, result) →
      (((store.lane lane).setQueue claimed queue).queue replay).Sublist
        ((store.lane lane).queue replay) := by
    intro queue result scan
    cases claimed <;> cases replay
    · exact LaneState.scanQueue_sublist scan
    · exact List.Sublist.refl _
    · exact List.Sublist.refl _
    · exact LaneState.scanQueue_sublist scan
  rcases claimFromQueue_cases inv lane claimed callisId with
    ⟨queue, scan, result⟩ | ⟨queue, _, _, _, scan, _, result⟩
  · rw [result]
    exact .setLane (popped scan)
  · rw [result]
    exact .setLane (popped scan)

theorem shrinks_of_tries {callisId : CallisId} (inv : store.Invariant)
    (tries : Relation.ReflTransGen (Tries callisId) store next) (replay : Bool) :
    Shrinks store next replay := by
  induction tries with
  | refl => exact .refl store replay
  | tail before tried ih =>
    obtain ⟨lane, claimed, rfl⟩ := tried
    have middle_inv := (spec_of_tries inv before).1
    exact ih.trans (claimFromQueue_shrinks middle_inv lane claimed callisId replay)

/-- What an operation other than an insertion does to the ready queues and the heap: keys are
dropped, and keys of slots that are being written are queued. -/
structure Follows (store next : RetainedStore) : Prop where
  shutdown : store.shutdown = true → next.shutdown = true
  nextSeq : next.nextSeq = store.nextSeq
  deadlines : next.deadlines.elements.Sublist store.deadlines.elements
  ready : ∀ lane, ∃ kept added, (next.lane lane).ready = kept ++ added ∧
    kept.Sublist (store.lane lane).ready ∧ ∀ key ∈ added, ∃ slot callisId,
      store.slot ⟨lane, key.index⟩ = some slot ∧ slot.state = .writing callisId ∧
      slot.seq = key.seq

theorem Shrinks.follows (shrinks : Shrinks store next false) :
    Follows store next where
  shutdown := shrinks.shutdown.trans
  nextSeq := shrinks.nextSeq
  deadlines := shrinks.deadlines
  ready := fun lane => ⟨_, [], (append_nil _).symm, shrinks.queue lane, by simp⟩

theorem Follows.of_lanes (shutdown : store.shutdown = true → next.shutdown = true)
    (nextSeq : next.nextSeq = store.nextSeq)
    (deadlines : next.deadlines.elements.Sublist store.deadlines.elements)
    (ready : ∀ lane, (next.lane lane).ready = (store.lane lane).ready) : Follows store next where
  shutdown := shutdown
  nextSeq := nextSeq
  deadlines := deadlines
  ready := fun lane => ⟨_, [], by rw [ready, append_nil], List.Sublist.refl _, by simp⟩

theorem completeWrite_follows (store : RetainedStore) (claim : RetainedClaim)
    (result : Except AureliaError Unit) : Follows store (store.completeWrite claim result).2 := by
  unfold completeWrite
  split
  · exact (Shrinks.refl store false).follows
  next slot found =>
  split
  · exact (Shrinks.refl store false).follows
  next fresh =>
  have writing : slot.state = .writing claim.callisId := by
    by_contra other
    exact fresh (.inl other)
  split
  · exact (Shrinks.refl store false).follows
  · exact (requeue_replay_shrinks store _ _ _).follows
  · refine ⟨by simp [requeue], by simp [requeue], by simp [requeue], fun lane => ?_⟩
    rw [requeue, lane_setLane]
    split
    · next same =>
        subst same
        refine ⟨_, [⟨claim.slot.index, slot.seq⟩], rfl, List.Sublist.refl _, fun key listed => ?_⟩
        rw [mem_singleton.mp listed]
        exact ⟨slot, claim.callisId, found, writing, rfl⟩
    · exact ⟨_, [], (append_nil _).symm, List.Sublist.refl _, by simp⟩
  · refine Shrinks.follows (.setLane ?_)
    exact List.Sublist.refl _
  · split
    · exact (Shrinks.refl store false).follows
    · next removed =>
        obtain ⟨shutdown, nextSeq, deadlines, queues⟩ := removeBySlot_queues removed
        exact .of_lanes shutdown.trans nextSeq (deadlines ▸ .refl _) fun lane => queues lane false

theorem markCallisReplayReady_follows (store : RetainedStore) (callisId : CallisId) :
    Follows store (store.markCallisReplayReady callisId) := by
  have swept : ∀ lane, ∃ kept added, ((store.lane lane).sweep callisId).ready = kept ++ added ∧
      kept.Sublist (store.lane lane).ready ∧ ∀ key ∈ added, ∃ slot callisId,
        store.slot ⟨lane, key.index⟩ = some slot ∧ slot.state = .writing callisId ∧
        slot.seq = key.seq := by
    intro lane
    refine ⟨_, _, rfl, List.Sublist.refl _, fun key listed => ?_⟩
    obtain ⟨slot, _, found, moved, claimable, current⟩ :=
      (LaneState.mem_sweptKeys_iff _ _ _ _).mp listed
    rcases (LaneState.sweptState_cases moved).2 with ⟨_, writing⟩ | ⟨rfl, _⟩
    · exact ⟨slot, callisId, found, writing, current⟩
    · simp at claimable
  refine ⟨id, rfl, .refl _, fun lane => ?_⟩
  cases lane with
  | a1Ack => exact ⟨_, [], (append_nil _).symm, List.Sublist.refl _, by simp⟩
  | a1Error => exact swept .a1Error
  | a2 => exact swept .a2
  | a3 => exact swept .a3

end RetainedStore

open RetainedStore

variable {next store : RetainedStore}

/-- The lane in which an operation inserts. -/
def Op.lane : Op → Option RetainedLane
  | .insertAck .. => some .a1Ack
  | .insertError .. => some .a1Error
  | .insertTracked tracked .. => (trackedLane tracked.msgType).toOption
  | _ => none

/-- Nothing but the room in the lane decides whether the operation stores its item there. -/
def Op.Admissible (store : RetainedStore) (lane : RetainedLane) : Op → Prop
  | .insertAck peerMsgId deadline now => lane = .a1Ack ∧ store.shutdown = false ∧
      now < deadline ∧ store.responses.lookup peerMsgId = none
  | .insertError peerMsgId _ deadline now => lane = .a1Error ∧ store.shutdown = false ∧
      now < deadline ∧ store.responses.lookup peerMsgId = none
  | .insertTracked tracked deadline now => trackedLane tracked.msgType = .ok lane ∧
      store.shutdown = false ∧ now < deadline ∧ store.tracked.lookup tracked.peerMsgId = none
  | _ => False

theorem Op.Admissible.lane_eq {lane : RetainedLane} {op : Op}
    (admissible : op.Admissible store lane) : op.lane = some lane := by
  cases op with
  | insertAck | insertError => exact congrArg some admissible.1.symm
  | insertTracked => exact congrArg Except.toOption admissible.1
  | _ => exact admissible.elim

def Output.accepted : Output → Bool
  | .response .inserted => true
  | .tracked (.ok _) => true
  | _ => false

theorem accepted_response {outcome : ResponseInsertOutcome} (other : outcome ≠ .inserted) :
    (Output.response outcome).accepted = false := by
  cases outcome with
  | inserted => exact absurd rfl other
  | _ => rfl

/-- Every operation that inserts: it is refused, for want of room if for no other reason, or it
fills a vacant slot of its lane. -/
theorem insertion_cases {op : Op} {output : Output}
    {item : RetainedItem} (inv : store.Invariant) (inserts : op.inserted = some item)
    (performed : step store op = .ok (output, next)) :
    (next.contents = store.contents ∧ Refused store next ∧ output.accepted = false ∧
      ∀ lane, op.Admissible store lane → (store.lane lane).available = false) ∨
    ∃ id deadline seq, store.contents id = none ∧
      next.contents = Function.update store.contents id (some ⟨item, deadline, seq⟩) ∧
      Placed store next id ⟨some item, deadline, seq, .ready⟩ ∧ output.accepted = true ∧
      op.lane = some id.lane := by
  cases op with
  | insertAck peerMsgId deadline now =>
    cases inserts
    obtain ⟨_, result, stepped, _, cases⟩ :=
      @insertResponse_cases store .a1Ack inv .ack (.ack peerMsgId) rfl rfl deadline now
    have accepted : store.insertAck peerMsgId deadline now = _ := stepped
    simp only [step, accepted, Except.map, Except.ok.injEq, Prod.mk.injEq] at performed
    obtain ⟨rfl, rfl⟩ := performed
    rcases cases with
      ⟨outcome, same, refused, full⟩ | ⟨rfl, id, seq, vacant, contents_eq, placed, isLane⟩
    · refine .inl ⟨same, refused, accepted_response outcome, ?_⟩
      rintro _ ⟨rfl, up, early, unlisted⟩
      exact full up early unlisted
    · exact .inr ⟨id, deadline, seq, vacant, contents_eq, placed, rfl, congrArg some isLane.symm⟩
  | insertError peerMsgId frame deadline now =>
    cases inserts
    obtain ⟨_, result, stepped, _, cases⟩ := @insertResponse_cases store .a1Error inv .error
      (.error peerMsgId frame) rfl rfl deadline now
    have accepted : store.insertError peerMsgId frame deadline now = _ := stepped
    simp only [step, accepted, Except.map, Except.ok.injEq, Prod.mk.injEq] at performed
    obtain ⟨rfl, rfl⟩ := performed
    rcases cases with
      ⟨outcome, same, refused, full⟩ | ⟨rfl, id, seq, vacant, contents_eq, placed, isLane⟩
    · refine .inl ⟨same, refused, accepted_response outcome, ?_⟩
      rintro _ ⟨rfl, up, early, unlisted⟩
      exact full up early unlisted
    · exact .inr ⟨id, deadline, seq, vacant, contents_eq, placed, rfl, congrArg some isLane.symm⟩
  | insertTracked tracked deadline now =>
    cases inserts
    obtain ⟨_, result, stepped, _, cases⟩ := insertTracked_cases inv tracked deadline now
    simp only [step, stepped, Except.map, Except.ok.injEq, Prod.mk.injEq] at performed
    obtain ⟨rfl, rfl⟩ := performed
    rcases cases with
      ⟨_, rfl, _, rfl, full⟩ | ⟨rfl, id, seq, vacant, contents_eq, placed, isLane⟩
    · refine .inl ⟨rfl, ⟨.inl rfl, fun _ => rfl, rfl⟩, rfl, ?_⟩
      rintro lane ⟨isLane, up, early, unlisted⟩
      exact full lane isLane up early unlisted
    · exact .inr ⟨id, deadline, seq, vacant, contents_eq, placed, rfl,
        congrArg Except.toOption isLane⟩
  | _ => cases inserts

/-- Every operation that inserts nothing. -/
theorem step_follows {label : Op × Output} (inv : store.Invariant)
    (taken : system.Step store label next) (inserts : label.1.inserted = none) :
    Follows store next := by
  obtain ⟨op, _⟩ := label
  obtain rfl : ((Except.toOption (step store op)).map Prod.snd).getD store = next := by
    rw [show step store op = _ from taken.2]
    rfl
  cases op with
  | insertAck | insertError | insertTracked => cases inserts
  | setCapacities capacities now =>
    refine .of_lanes id rfl (.refl _) fun lane => ?_
    cases lane <;> exact LaneState.setTargetCapacity_ready _ _ now
  | setShutdown =>
    exact .of_lanes (fun _ => rfl) rfl (.refl _) fun lane =>
      congrArg _ (lane_with_shutdown store lane true)
  | claimNext callisId =>
    have tries := claimLanes_tries callisId [.a1Ack, .a1Error, .a2, .a3] store
    exact (shrinks_of_tries inv tries false).follows
  | completeWrite claim result => exact completeWrite_follows store claim result
  | ack peerMsgId | failOne peerMsgId error =>
    exact (shrinks_of_vacates (completeOne_vacates store peerMsgId _) false).follows
  | failAll error order | failNonA1 error order | dropResponses order =>
    exact (shrinks_of_vacates (removeSlots_vacates _ store) false).follows
  | markCallisReplayReady callisId => exact markCallisReplayReady_follows store callisId
  | markAllTrackedReplayReady order | markTrackedReplayReady peerMsgIds =>
    exact (markSlotsReplayReady_shrinks _ store).follows
  | expireDue now =>
    have expired := shrinks_of_vacates (removeLiveKeys_vacates
      (store.deadlines.popWhile fun key => decide (key.deadline ≤ now)).1 store) false
    exact Shrinks.follows ⟨expired.shutdown, expired.nextSeq, dropWhile_sublist _, fun lane =>
      (lane_with_deadlines _ lane _).symm ▸ expired.queue lane⟩
  | nextDeadline =>
    exact .of_lanes id rfl (dropWhile_sublist _) fun lane =>
      congrArg _ (lane_with_deadlines store lane _)
  | beginShutdown error order =>
    have failed := shrinks_of_vacates (removeSlots_vacates
      (order.filter fun slot => !slot.lane.isA1) store.setShutdown) false
    refine Follows.mk (fun _ => failed.shutdown) failed.nextSeq failed.deadlines fun lane => ?_
    refine ⟨_, [], (append_nil _).symm, ?_, by simp⟩
    have ready := failed.queue lane
    rwa [show store.setShutdown.lane lane = store.lane lane from
      lane_with_shutdown store lane true] at ready

end AureliaPeering.Store
