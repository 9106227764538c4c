import AureliaPeering.Store.Retention

/-!
Draining the store: after `begin_shutdown` only responses are left, and they only leave.

The drain condition counts the ACK lane by its live slots and the ERROR lane through the response
index.  Both counts are read off the contents here, so that an item being written counts.
-/

namespace AureliaPeering.Store

open Collections RetainedStore Option

namespace RetainedStore

def a1ErrorResponseCount (store : RetainedStore) : Nat :=
  (store.responses.values.filter fun slot => decide (slot.lane = .a1Error)).length

def responseLanesEmpty (store : RetainedStore) : Bool :=
  store.a1Ack.liveCount == 0 && store.a1ErrorResponseCount == 0

variable {store : RetainedStore} {id : SlotId} {stored : Entry}
variable (inv : store.Invariant)

include inv

theorem Invariant.kind_eq (present : store.contents id = some stored) :
    stored.item.kind = id.lane.kind := by
  obtain ⟨_, found, stored_eq⟩ := (LaneState.entry_eq_some_iff _ _ _).mp present
  obtain ⟨item, item_eq, rfl⟩ := map_eq_some_iff.mp stored_eq
  exact ((inv.lanes id.lane).slot_of_getElem? found).placed item item_eq

theorem Invariant.isTracked_eq_not_isA1 (present : store.contents id = some stored) :
    stored.item.isTracked = !id.lane.isA1 := by
  unfold RetainedItem.isTracked
  rw [inv.kind_eq present]
  cases id.lane <;> rfl

theorem Invariant.liveCount_eq_zero_iff (lane : RetainedLane) :
    (store.lane lane).liveCount = 0 ↔ ∀ index, store.contents ⟨lane, index⟩ = none := by
  have sane := inv.lanes lane
  rw [sane.liveCount_eq, LaneState.occupied, List.countP_eq_zero]
  constructor
  · intro vacant index
    cases found : (store.lane lane).slots[index]? with
    | none => simp [contents, LaneState.entry, found]
    | some slot =>
      have empty : slot.state = .empty := by
        simpa using vacant slot (List.mem_of_getElem? found)
      exact sane.entry_eq_none found empty
  · intro vacant slot listed
    obtain ⟨index, found⟩ := List.mem_iff_getElem?.mp listed
    have missing : slot.item = none := by
      simpa [contents, LaneState.entry, found, RetainedSlot.entry] using vacant index
    have occupied := (sane.slot slot listed).item_isSome_iff
    simpa [missing] using occupied

theorem Invariant.a1ErrorResponseCount_eq_zero_iff :
    store.a1ErrorResponseCount = 0 ↔ ∀ index, store.contents ⟨.a1Error, index⟩ = none := by
  rw [a1ErrorResponseCount, List.length_eq_zero_iff, List.filter_eq_nil_iff]
  constructor
  · intro unlisted index
    by_contra filled
    obtain ⟨stored, present⟩ := ne_none_iff_exists'.mp filled
    have listed := (inv.responses_iff stored.item.peerMsgId ⟨.a1Error, index⟩).mpr
      ⟨stored, present, inv.isTracked_eq_not_isA1 present, rfl⟩
    have absent := unlisted _ ((HashMap.mem_values_iff _ _).mpr ⟨_, listed⟩)
    simp at absent
  · intro vacant id listed
    obtain ⟨peerMsgId, found⟩ := (HashMap.mem_values_iff _ _).mp listed
    obtain ⟨stored, present, _⟩ := (inv.responses_iff peerMsgId id).mp found
    simp only [decide_eq_true_eq]
    intro here
    obtain ⟨_, index⟩ := id
    subst here
    simp [vacant index] at present

/-- The drain condition says that no response is retained, in whatever state its slot is. -/
theorem Invariant.responseLanesEmpty_iff :
    store.responseLanesEmpty = true ↔
      ∀ id stored, store.contents id = some stored → stored.item.isTracked = true := by
  have acks := inv.liveCount_eq_zero_iff .a1Ack
  have errors := inv.a1ErrorResponseCount_eq_zero_iff
  simp only [responseLanesEmpty, Bool.and_eq_true, beq_iff_eq]
  rw [show store.a1Ack.liveCount = 0 ↔ _ from acks, errors]
  constructor
  · rintro ⟨noAck, noError⟩ ⟨lane, index⟩ stored present
    rw [inv.isTracked_eq_not_isA1 present]
    cases lane with
    | a1Ack => simp [noAck index] at present
    | a1Error => simp [noError index] at present
    | a2 | a3 => rfl
  · intro tracked
    constructor <;> intro index <;> by_contra filled <;>
      obtain ⟨stored, present⟩ := ne_none_iff_exists'.mp filled
    · have response := tracked _ stored present
      simp [inv.isTracked_eq_not_isA1 present, RetainedLane.isA1] at response
    · have response := tracked _ stored present
      simp [inv.isTracked_eq_not_isA1 present, RetainedLane.isA1] at response

end RetainedStore

/-- The operations that may end the retention of a response: its write succeeds, the responses
are dropped, or its deadline has passed. -/
def Op.Discharges (id : SlotId) (stored : Entry) : Op → Prop
  | .completeWrite claim result => claim.slot = id ∧ result = .ok ()
  | .dropResponses _ => True
  | .expireDue now => stored.deadline ≤ now
  | _ => False

/-- A response is retained until an operation discharges it. -/
theorem response_retained {store next : RetainedStore} {label : Op × Output}
    (inv : store.Invariant) (taken : system.Step store label next) {id : SlotId} {stored : Entry}
    (present : store.contents id = some stored) (response : stored.item.isTracked = false)
    (pending : ¬ label.1.Discharges id stored) : next.contents id = some stored := by
  rcases entry_of_step inv taken present with kept | ⟨removes, _⟩
  · exact kept
  · obtain ⟨op, _⟩ := label
    cases op with
    | ack | failOne => cases removes.1.symm.trans response
    | failAll | failNonA1 | beginShutdown => cases removes.symm.trans response
    | completeWrite => exact absurd removes.2 pending
    | dropResponses => exact absurd trivial pending
    | expireDue => exact absurd removes pending
    | setCapacities | setShutdown | insertAck | insertError | insertTracked | claimNext
    | markCallisReplayReady | markAllTrackedReplayReady | markTrackedReplayReady | nextDeadline =>
      exact removes.elim

namespace RetainedStore

/-- The store is shut down and nothing tracked is left in it. -/
structure Draining (store : RetainedStore) : Prop where
  invariant : store.Invariant
  shutdown : store.shutdown = true
  responses : ∀ id stored, store.contents id = some stored → stored.item.isTracked = false

end RetainedStore

variable {next store : RetainedStore}

theorem insertion_refused {op : Op} {output : Output}
    (down : store.shutdown = true) (inserts : op.inserted.isSome = true)
    (performed : step store op = .ok (output, next)) : next = store := by
  cases op with
  | insertAck peerMsgId deadline now =>
    simp only [step, insertAck, insertResponse, if_pos down, Except.map, Except.ok.injEq,
      Prod.mk.injEq] at performed
    exact performed.2.symm
  | insertError peerMsgId frame deadline now =>
    simp only [step, insertError, insertResponse, if_pos down, Except.map, Except.ok.injEq,
      Prod.mk.injEq] at performed
    exact performed.2.symm
  | insertTracked tracked deadline now =>
    simp only [step, insertTracked, if_pos down, Except.map, Except.ok.injEq,
      Prod.mk.injEq] at performed
    exact performed.2.symm
  | _ => cases inserts

theorem step_shutdown {label : Op × Output} (inv : store.Invariant)
    (down : store.shutdown = true) (taken : system.Step store label next) :
    next.shutdown = true := by
  cases inserts : label.1.inserted with
  | none => exact (step_follows inv taken inserts).shutdown down
  | some item =>
    rw [insertion_refused down (by rw [inserts]; rfl) taken.2]
    exact down

/-- After shutdown an operation only removes. -/
theorem present_of_step_of_shutdown {label : Op × Output}
    (inv : store.Invariant) (down : store.shutdown = true) (taken : system.Step store label next)
    {id : SlotId} {stored : Entry} (present : next.contents id = some stored) :
    store.contents id = some stored := by
  rcases (step_invariant inv taken).2.of_present present with before | inserted
  · exact before
  · rw [insertion_refused down (by rw [inserted]; rfl) taken.2] at present
    exact present

theorem RetainedStore.Draining.step {label : Op × Output}
    (draining : store.Draining) (taken : system.Step store label next) : next.Draining where
  invariant := (step_invariant draining.invariant taken).1
  shutdown := step_shutdown draining.invariant draining.shutdown taken
  responses := fun id stored present => draining.responses id stored
    (present_of_step_of_shutdown draining.invariant draining.shutdown taken present)

section Fail

variable {store : RetainedStore} {order : List SlotId}

theorem mem_tracked_order_iff (inv : store.Invariant) (ordered : store.tracked.ValueOrder order)
    {id : SlotId} {stored : Entry} (present : store.contents id = some stored) :
    id ∈ order ↔ stored.item.isTracked = true := by
  constructor
  · exact isTracked_of_tracked_order inv present ordered
  · intro tracked
    apply (ordered.mem_iff id).mpr
    exact ⟨_, (inv.tracked_iff stored.item.peerMsgId id).mpr ⟨stored, present, tracked, rfl⟩⟩

/-- `fail_all` keeps exactly the responses. -/
theorem failAll_contents_iff (inv : store.Invariant) (ordered : store.tracked.ValueOrder order)
    (error : AureliaError) (id : SlotId) (stored : Entry) :
    (store.failAll error order).2.contents id = some stored ↔
      store.contents id = some stored ∧ stored.item.isTracked = false := by
  change (removeSlots _ _).2.contents id = some stored ↔ _
  rw [(removeSlots_spec _ inv).2.2 id]
  constructor
  · intro remains
    split at remains
    · cases remains
    · rename_i unlisted
      rw [mem_tracked_order_iff inv ordered remains, Bool.not_eq_true] at unlisted
      exact ⟨remains, unlisted⟩
  · rintro ⟨present, response⟩
    rw [if_neg]
    · exact present
    · rw [mem_tracked_order_iff inv ordered present, response]
      exact Bool.false_ne_true

theorem failNonA1_eq_failAll (inv : store.Invariant) (ordered : store.tracked.ValueOrder order)
    (error : AureliaError) : store.failNonA1 error order = store.failAll error order := by
  unfold failNonA1 failAll
  rw [List.filter_eq_self.mpr]
  intro id listed
  obtain ⟨peerMsgId, found⟩ := (ordered.mem_iff id).mp listed
  obtain ⟨_, present, tracked, _⟩ := (inv.tracked_iff peerMsgId id).mp found
  rw [← inv.isTracked_eq_not_isA1 present, tracked]

end Fail

variable {order : List SlotId}

/-- `begin_shutdown` keeps exactly the responses. -/
theorem beginShutdown_contents_iff (inv : store.Invariant)
    (ordered : store.tracked.ValueOrder order) (error : AureliaError)
    (id : SlotId) (stored : Entry) :
    (store.beginShutdown error order).2.contents id = some stored ↔
      store.contents id = some stored ∧ stored.item.isTracked = false := by
  obtain ⟨down_inv, same⟩ := setShutdown_spec inv
  have begun : store.beginShutdown error order = store.setShutdown.failAll error order :=
    failNonA1_eq_failAll down_inv ordered error
  rw [begun, failAll_contents_iff down_inv ordered, same]

theorem beginShutdown_draining (inv : store.Invariant)
    {error : AureliaError} {output : Output}
    (begun : system.Step store (.beginShutdown error order, output) next) : next.Draining := by
  obtain ⟨ordered, performed⟩ := begun
  have next_inv := (step_invariant inv ⟨ordered, performed⟩).1
  cases performed
  exact ⟨next_inv, (shrinks_of_vacates (removeSlots_vacates _ store.setShutdown) false).shutdown,
    fun id stored present =>
    ((beginShutdown_contents_iff inv ordered error id stored).mp present).2⟩

theorem RetainedStore.Draining.claim (draining : store.Draining)
    {callisId : CallisId} {claim : RetainedClaim}
    (performed : Store.step store (.claimNext callisId) = .ok (.claim (some claim), next)) :
    (∃ peerMsgId, claim.item = .ack peerMsgId) ∨
      ∃ peerMsgId frame, claim.item = .error peerMsgId frame := by
  obtain ⟨item, ⟨id, stored, present, rfl⟩, item_eq⟩ :=
    stores_of_claim draining.invariant performed
  have response := draining.responses id stored present
  rw [item_eq]
  cases item : stored.item with
  | ack peerMsgId => exact .inl ⟨peerMsgId, rfl⟩
  | error peerMsgId frame => exact .inr ⟨peerMsgId, frame, rfl⟩
  | tracked outbound => simp [item] at response

/-- From `begin_shutdown` on, over any operations: what is retained are responses that were
retained when it began, a message is refused, a claim carries a response, an operation only
removes and removes a response only by writing, dropping or expiring it, and the drain condition
holds exactly when no response is retained. -/
theorem shutdown_drains_responses {store down final : RetainedStore}
    (reached : system.Reachable store) {error : AureliaError} {order : List SlotId}
    {output : Output} (begun : system.Step store (.beginShutdown error order, output) down)
    {labels : List (Op × Output)} (run : system.Run down labels final) :
    (∀ id stored, down.contents id = some stored ↔
      store.contents id = some stored ∧ stored.item.isTracked = false) ∧
    (∀ id stored, final.contents id = some stored → stored.item.isTracked = false ∧
      down.contents id = some stored) ∧
    (∀ tracked deadline now,
      final.insertTracked tracked deadline now = .ok (.error (.shutdown tracked), final)) ∧
    (∀ callisId claim next, step final (.claimNext callisId) = .ok (.claim (some claim), next) →
      (∃ peerMsgId, claim.item = .ack peerMsgId) ∨
        ∃ peerMsgId frame, claim.item = .error peerMsgId frame) ∧
    (∀ label next, system.Step final label next → ∀ id stored,
      (next.contents id = some stored → final.contents id = some stored) ∧
      (final.contents id = some stored → ¬ label.1.Discharges id stored →
        next.contents id = some stored)) ∧
    (final.responseLanesEmpty = true ↔ ∀ id, final.contents id = none) := by
  have inv := reachable_invariant reached
  have began := beginShutdown_draining inv begun
  obtain ⟨draining, shrunk⟩ : final.Draining ∧ ∀ id stored,
      final.contents id = some stored → down.contents id = some stored := by
    refine @Machine.System.Run.preserves _ _ _ (fun state => state.Draining ∧ ∀ id stored,
      state.contents id = some stored → down.contents id = some stored) ?_ _ _ _ run
      ⟨began, fun _ _ present => present⟩
    rintro state label next ⟨before, kept⟩ taken
    exact ⟨before.step taken, fun id stored present => kept id stored
      (present_of_step_of_shutdown before.invariant before.shutdown taken present)⟩
  refine ⟨fun id stored => ?_, fun id stored present => ⟨draining.responses id stored present,
    shrunk id stored present⟩, fun tracked deadline now => if_pos draining.shutdown,
    fun callisId claim next performed => draining.claim performed,
    fun label next taken id stored => ⟨present_of_step_of_shutdown draining.invariant
      draining.shutdown taken, fun present pending => response_retained draining.invariant taken
      present (draining.responses id stored present) pending⟩, ?_⟩
  · obtain ⟨ordered, performed⟩ := begun
    cases performed
    exact beginShutdown_contents_iff inv ordered error id stored
  · rw [draining.invariant.responseLanesEmpty_iff]
    constructor
    · intro tracked id
      by_contra filled
      obtain ⟨stored, present⟩ := ne_none_iff_exists'.mp filled
      have response := draining.responses id stored present
      cases (tracked id stored present).symm.trans response
    · intro vacant id stored present
      cases (vacant id).symm.trans present

/-- An ACK and a message are stored: shutdown removes the message and keeps the ACK, which a
claim does not remove. -/
theorem shutdown_drains_responses_claimed :
    ∃ store down next : RetainedStore, ∃ error order output claim, system.Reachable store ∧
      system.Step store (.beginShutdown error order, output) down ∧
      system.Step down (.claimNext 1, .claim claim) next ∧
      (store.contents ⟨.a3, 0⟩).isSome = true ∧ down.contents ⟨.a3, 0⟩ = none ∧
      down.responseLanesEmpty = false ∧ next.contents ⟨.a1Ack, 0⟩ = some ⟨.ack 5, 10, 1⟩ := by
  have start : system.Reachable (RetainedStore.new ⟨1, 1, 1, 1⟩ 0) := .start ⟨_, _, rfl⟩
  have acked := start.take (.insertAck 5 10 0, _) ⟨trivial, rfl⟩
  have filled := acked.take (.insertTracked ⟨⟨7, 1, 2, a3MessageTypeBase, 0, []⟩, 0⟩ 10 0, _)
    ⟨trivial, rfl⟩
  obtain ⟨store, reached, response, message⟩ : ∃ store, system.Reachable store ∧
      store.contents ⟨.a1Ack, 0⟩ = some ⟨.ack 5, 10, 1⟩ ∧
      store.contents ⟨.a3, 0⟩ =
        some ⟨.tracked ⟨⟨7, 1, 2, a3MessageTypeBase, 0, []⟩, 0⟩, 10, 2⟩ := ⟨_, filled, rfl, rfl⟩
  obtain ⟨down, output, begun⟩ : ∃ down output, system.Step store
      (.beginShutdown (.new .peerUnavailable) store.tracked.values, output) down :=
    ⟨_, _, List.Perm.refl _, rfl⟩
  obtain ⟨next, claim, claimed⟩ : ∃ next claim,
      system.Step down (.claimNext 1, .claim claim) next := ⟨_, _, trivial, rfl⟩
  obtain ⟨kept, _, _, _, steps, empty⟩ := shutdown_drains_responses reached begun (.nil _)
  have retained := (kept ⟨.a1Ack, 0⟩ _).mpr ⟨response, rfl⟩
  refine ⟨store, _, _, _, _, _, _, reached, begun, claimed, by rw [message]; rfl, ?_, ?_,
    (steps _ _ claimed _ _).2 retained id⟩
  · by_contra remains
    obtain ⟨stored, present⟩ := ne_none_iff_exists'.mp remains
    obtain ⟨before, tracked⟩ := (kept ⟨.a3, 0⟩ stored).mp present
    rw [message, some.injEq] at before
    rw [← before] at tracked
    cases tracked
  · refine Bool.eq_false_iff.mpr fun drained => ?_
    rw [empty.mp drained ⟨.a1Ack, 0⟩] at retained
    cases retained

end AureliaPeering.Store
